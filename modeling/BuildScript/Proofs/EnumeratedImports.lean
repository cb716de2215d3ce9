import BuildScript.Proofs.ClientEvaluation
import BuildScript.Proofs.EnumeratedBindings
import BuildScript.Proofs.HermeticImports

/-!
Imported programs whose bindings are listed in any order. What they evaluate to
is one struct, since an import works with objects of its own that nobody lists
while it runs: an attribute is asked for by its name, and a function, which could
look at the order, is not among them.
-/

namespace BuildScript

open Eval

namespace Enumerated

variable {φ : Type} [Host φ] (order : Machine φ → Enumeration)

def evaluator : Evaluator φ (Eval φ) :=
  { Eval.evaluator with
    struct := fun b => do
      let pairs := (order (← get)).order b
      create (.struct (.ofPairs pairs)) }

/-- Evaluation where the bindings of an imported program are listed in an order
that may be another one whenever it is asked for. -/
def evaluate : Node → Scope → Eval φ Handle := (evaluator order).value

/-- Evaluation is what it is with bindings listed in the order they are kept in. -/
theorem evaluate_kept (node : Node) (scope : Scope) :
    evaluate (fun _ : Machine φ => .kept) node scope = BuildScript.evaluate node scope := by
  have hstruct : (evaluator fun _ : Machine φ => .kept).struct = Eval.evaluator.struct := by
    funext b
    show create (.struct (.ofPairs b.entries)) = create (.struct b)
    rw [Bindings.ofPairs_entries]
  have hkept : (evaluator fun _ : Machine φ => .kept) = Eval.evaluator :=
    congrArg (fun struct => { Eval.evaluator with struct := struct }) hstruct
  rw [evaluate_eq_value, evaluate, hkept]

end Enumerated

def AllFrom (base : Nat) (handles : List Handle) : Prop := ∀ h ∈ handles, base ≤ h.index

namespace Arena

variable {φ : Type} {base : Nat} {a : Arena φ} {h : Handle}

/-- From an index on, no object is a function and none holds a handle from
before. -/
def OwnFrom (base : Nat) (a : Arena φ) : Prop :=
  ∀ h : Handle, base ≤ h.index → (a.get h).type ≠ .function ∧ AllFrom base (a.get h).handles

theorem ownFrom_size (a : Arena φ) : a.OwnFrom a.size := by
  intro h hh
  rw [get_of_size_le hh]
  exact ⟨by simp [Object.type], fun e he => by cases he⟩

namespace OwnFrom

theorem create (hown : a.OwnFrom base) {o : Object φ} (htype : o.type ≠ .function)
    (hhandles : AllFrom base o.handles) : (a.create o).2.OwnFrom base := by
  intro h hh
  rw [get_create]
  by_cases hlast : h.index = a.size
  · rw [if_pos hlast]
    exact ⟨htype, hhandles⟩
  · rw [if_neg hlast]
    exact hown h hh

theorem attr (hown : a.OwnFrom base) (hh : base ≤ h.index) {name : String} {found : Handle}
    (hattr : a.attr h name = .ok found) : base ≤ found.index :=
  (hown h hh).2 found (mem_handles_of_attr hattr)

theorem asList (hown : a.OwnFrom base) (hh : base ≤ h.index) {entries : List Handle}
    (hlist : a.asList h = .ok entries) : AllFrom base entries :=
  handles_of_asList hlist ▸ (hown h hh).2

theorem not_asFunction (hown : a.OwnFrom base) (hh : base ≤ h.index) {body : φ}
    (hfunction : a.asFunction h = .ok body) : False := by
  have htype := (hown h hh).1
  unfold Arena.asFunction Object.asFunction at hfunction
  split at hfunction
  · rename_i hobject
    rw [hobject] at htype
    exact htype rfl
  · cases hfunction

end OwnFrom

end Arena

/-- Two machines that went the same way: the same journal, and the same objects
up to the order of attributes. The objects from an index on are an import's own. -/
structure Alongside {φ : Type} (base : Nat) (m m' : Machine φ) : Prop where
  journal : m.journal = m'.journal
  arena : m.arena.Reordered m'.arena
  own : m.arena.OwnFrom base
  base_le : base ≤ m.arena.size

inductive EndAlongside {φ α : Type} (base : Nat) (Q : α → Prop) :
    EStateM.Result (List RuntimeError) (Machine φ) α →
    EStateM.Result (List RuntimeError) (Machine φ) α → Prop where
  | ok {a : α} {m m' : Machine φ} (ha : Q a) (hm : Alongside base m m') :
      EndAlongside base Q (.ok a m) (.ok a m')
  | error {errors : List RuntimeError} {m m' : Machine φ} (hm : Alongside base m m') :
      EndAlongside base Q (.error errors m) (.error errors m')

/-- Two objects that are the same but for the order of attributes. They become an
object of the import's own. -/
theorem Alongside.create {φ : Type} {base : Nat} {m m' : Machine φ} (hm : Alongside base m m')
    {o o' : Object φ} (ho : o.Reordered o') (htype : o.type ≠ .function)
    (hhandles : AllFrom base o.handles) :
    EndAlongside base (fun h => base ≤ h.index) (Eval.create o m) (Eval.create o' m') := by
  rw [create_apply, create_apply, ← hm.arena.create_eq o o']
  refine .ok hm.base_le ⟨hm.journal, hm.arena.create ho, hm.own.create htype hhandles, ?_⟩
  show base ≤ (m.arena.create o).2.size
  rw [Arena.size_create]
  exact Nat.le_succ_of_le hm.base_le

def Follows {φ α : Type} (base : Nat) (Q : α → Prop) (p p' : Eval φ α) : Prop :=
  ∀ m m', Alongside base m m' → EndAlongside base Q (p m) (p' m')

namespace Follows

variable {φ α β : Type} {base : Nat} {Q : α → Prop} {R : β → Prop}

theorem pure {a : α} (ha : Q a) : Follows base Q (Pure.pure a : Eval φ α) (Pure.pure a) :=
  fun _ _ hm => .ok ha hm

theorem fail (location : Location) (fault : RuntimeFault) :
    Follows base Q (Eval.fail location fault : Eval φ α) (Eval.fail location fault) :=
  fun _ _ hm => .error hm

theorem record (e : Event) :
    Follows base (fun _ => True) (Eval.record e : Eval φ Unit) (Eval.record e) := by
  intro m m' hm
  rw [record_apply, record_apply, hm.journal]
  exact .ok trivial ⟨rfl, hm.arena, hm.own, hm.base_le⟩

theorem bind {p p' : Eval φ α} {f f' : α → Eval φ β} (hp : Follows base Q p p')
    (hf : ∀ a, Q a → Follows base R (f a) (f' a)) : Follows base R (p >>= f) (p' >>= f') := by
  intro m m' hm
  have hend := hp m m' hm
  rw [bind_apply, bind_apply]
  generalize p m = r at hend
  generalize p' m' = r' at hend
  cases hend with
  | ok ha hm => exact hf _ ha _ _ hm
  | error hm => exact .error hm

theorem create {o : Object φ} (htype : o.type ≠ .function) (hhandles : AllFrom base o.handles) :
    Follows base (fun h => base ≤ h.index) (Eval.create o) (Eval.create o) :=
  fun _ _ hm => hm.create (.refl o) htype hhandles

theorem inspect (location : Location) {ask : Arena φ → Except ObjectError α}
    (hask : ∀ a a' : Arena φ, a.Reordered a' → ask a = ask a')
    (hanswer : ∀ a : Arena φ, a.OwnFrom base → ∀ found, ask a = .ok found → Q found) :
    Follows base Q (Eval.inspect location ask) (Eval.inspect location ask) := by
  intro m m' hm
  rw [inspect_apply, inspect_apply, ← hask _ _ hm.arena]
  cases hfound : ask m.arena with
  | ok found => exact .ok (hanswer _ hm.own found hfound) hm
  | error e => exact .error hm

theorem lookUp {scope : Scope} (hscope : AllFrom base scope.handles) (location : Location)
    (name : String) :
    Follows base (fun h => base ≤ h.index) (Eval.lookUp location scope name : Eval φ Handle)
      (Eval.lookUp location scope name) := by
  intro m m' hm
  rw [lookUp_apply, lookUp_apply]
  cases hget : scope.get name with
  | ok handle => exact .ok (hscope handle (Scope.mem_handles_of_get hget)) hm
  | error e => exact .error hm

theorem assign {scope : Scope} (hscope : AllFrom base scope.handles) {value : Handle}
    (hvalue : base ≤ value.index) (location : Location) (name : String) :
    Follows base (fun scope => AllFrom base scope.handles)
      (Eval.assign location scope name value : Eval φ Scope)
      (Eval.assign location scope name value) := by
  intro m m' hm
  rw [assign_apply, assign_apply]
  split
  · exact .error hm
  · cases hput : scope.put name value with
    | ok scope' =>
        refine .ok (fun h hh => ?_) hm
        rcases List.mem_cons.mp (Scope.handles_put_subset hput hh) with rfl | hbefore
        · exact hvalue
        · exact hscope h hbefore
    | error e => exact .error hm

end Follows

section Evaluation

variable {φ : Type}

/-- The struct of an import's scope, whose bindings are listed in any order. -/
theorem Follows.createStruct (order : Machine φ → Enumeration) {base : Nat} {b : Bindings}
    (hhandles : AllFrom base b.handles) :
    Follows base (fun h => base ≤ h.index) (Eval.create (.struct b)) (do
      let pairs := (order (← get)).order b
      Eval.create (.struct (.ofPairs pairs))) := by
  intro m m' hm
  refine hm.create (.struct ?_) (by simp [Object.type]) hhandles
  exact (Bindings.entries_ofPairs_order (order m') b).symm

variable [Host φ]

/-- An import's own objects are no functions, and so nothing is called. -/
def Follows.simulation (order : Machine φ → Enumeration) (base : Nat) :
    Simulation evaluator (Enumerated.evaluator order) Unit where
  Rel _ Q p p' := Follows base (Q ()) p p'
  Holds _ h := base ≤ h.index
  Calls _ _ := False
  Tolerant := True
  holds_mono _ h := h
  calls_mono _ h := h
  pure h := .pure (h () (le_refl _))
  bind hp hf := .bind hp fun a ha => hf () a (le_refl _) ha
  record _ e := .record e
  lookUp hscope location name := .lookUp hscope location name
  attr {_ handle} h location name := .inspect location
    (fun a a' hreordered => hreordered.attr_eq handle name) fun a ha found => ha.attr h
  entries {_ handle} h location := .inspect location
    (fun a a' hreordered => hreordered.asList_eq handle) fun a ha found => ha.asList h
  function {_ handle} h location := .inspect location
    (fun a a' hreordered => hreordered.asFunction_eq handle) fun a ha body => ha.not_asFunction h
  string _ text := .create (by simp [Object.type]) fun h hh => by cases hh
  list h := .create (by simp [Object.type]) h
  struct h := .createStruct order h
  invoke hbody := hbody.elim
  assign hscope hvalue location name := .assign hscope hvalue location name
  unexpected _ _ _ location kind := .fail location (.unexpectedNode kind)

/-- Two evaluations of an imported program that cannot be told apart: both are
stopped by the same errors, or both make the same struct under one handle. Each
other object is the same, too, up to the order of attributes. -/
inductive SameImport : EStateM.Result (List RuntimeError) (Machine φ) Handle →
    EStateM.Result (List RuntimeError) (Machine φ) Handle → Prop where
  | struct {h : Handle} {m m' : Machine φ} {b b' : Bindings} (hjournal : m.journal = m'.journal)
      (harena : m.arena.Reordered m'.arena) (hobject : m.arena.get h = .struct b)
      (hobject' : m'.arena.get h = .struct b') (hsame : b.entries.Perm b'.entries)
      (hlooks : LooksLike (h, m.arena) (h, m'.arena)) : SameImport (.ok h m) (.ok h m')
  | stopped {errors : List RuntimeError} {m m' : Machine φ} (hjournal : m.journal = m'.journal)
      (harena : m.arena.Reordered m'.arena) : SameImport (.error errors m) (.error errors m')

theorem evaluate_program_enumerated {program : Node} (hkind : program.kind = .program)
    (order : Machine φ → Enumeration) (scope : Scope) (m : Machine φ) :
    SameImport (evaluate program scope m) (Enumerated.evaluate order program scope m) := by
  rcases program with ⟨kind, location, text?, statements⟩
  obtain rfl : kind = .program := hkind
  have hscope : Enumerated.evaluate order ⟨.program, location, text?, statements⟩ scope =
      Enumerated.evaluate order ⟨.program, location, text?, statements⟩ .empty := by
    unfold Enumerated.evaluate
    rw [Evaluator.value, Evaluator.value]
  rw [evaluate_program_scope location text? statements scope .empty, hscope]
  have hstart : Alongside m.arena.size m m :=
    ⟨rfl, .refl m.arena, m.arena.ownFrom_size, Nat.le_refl _⟩
  have hend : EndAlongside m.arena.size (fun h => m.arena.size ≤ h.index)
      (evaluate ⟨.program, location, text?, statements⟩ .empty m)
      (Enumerated.evaluate order ⟨.program, location, text?, statements⟩ .empty m) := by
    rw [evaluate_eq_value]
    exact (Follows.simulation order m.arena.size).value (w := ()) (.inl trivial)
      (fun h hh => by cases hh) m m hstart
  cases hresult : evaluate ⟨.program, location, text?, statements⟩ .empty m with
  | error errors m₁ =>
      rw [hresult] at hend
      generalize Enumerated.evaluate order _ _ m = r at hend
      cases hend with
      | error hm => exact .stopped hm.journal hm.arena
  | ok h m₁ =>
      rw [hresult] at hend
      generalize Enumerated.evaluate order _ _ m = r at hend
      obtain ⟨b, hobject, -⟩ := struct_of_evaluate_program hresult
      cases hend with
      | ok hown hm =>
          have hsame := hm.arena.objects h
          rw [hobject] at hsame
          obtain ⟨b', hobject', hperm⟩ := hsame.of_struct
          exact .struct hm.journal hm.arena hobject hobject' hperm (.of_reordered hm.arena h)

/-- Neither the order in which pairs are given nor the order in which a map lists
them makes a difference. With each name given once, structs of the same pairs
look alike, and scopes they were put into one by one have the same sorted
bindings, however these are listed before they are sorted: strictly ascending,
with every pair once. An import evaluates to the same struct, however its
bindings are listed. With names given more than once, the last pair of each name
is kept, whether or not the pairs go through a map of their own first. -/
theorem same_results_in_any_order {pairs pairs' : List (String × Handle)}
    (hdistinct : (pairs.map Prod.fst).Nodup) (hperm : pairs.Perm pairs') {program : Node}
    (hkind : program.kind = .program) :
    (∀ a : Arena φ, LooksLike (a.createStruct pairs) (a.createStruct pairs') ∧
      (a.RefersBack → (∀ e ∈ pairs, e.2.index < a.size) →
        LooksLike ((a.createStruct pairs).1, ((a.createStruct pairs).2.createStruct pairs').2)
          ((a.createStruct pairs).2.createStruct pairs'))) ∧
    (∃ scope scope', Scope.empty.putAll pairs = .ok scope ∧
      Scope.empty.putAll pairs' = .ok scope' ∧
      scope.bindings.sorted = scope'.bindings.sorted ∧
      scope.bindings.sorted.Pairwise (·.1 < ·.1) ∧ scope.bindings.sorted.Perm pairs) ∧
    (∀ (e : Enumeration) (scope : Scope), scope.sortedBindings e = scope.bindings.sorted) ∧
    (∀ (order : Machine φ → Enumeration) (scope : Scope) (m : Machine φ),
      SameImport (evaluate program scope m) (Enumerated.evaluate order program scope m)) ∧
    ∀ (a : Arena φ) (e : Enumeration) (repeated : List (String × Handle)),
      LooksLike (a.createStruct repeated) (a.structFrom e repeated) ∧
      KeepsLast repeated (a.createStruct repeated) ∧
      KeepsLast repeated (a.structFrom e repeated) := by
  refine ⟨fun a => ⟨?_, ?_⟩, ?_, ?_, ?_, fun a e repeated => ?_⟩
  · exact looksLike_createStruct hdistinct hperm
  · exact looksLike_createStruct_after hdistinct hperm
  · exact Scope.sorted_of_putAll_perm hdistinct hperm
  · exact Scope.sortedBindings_eq
  · exact evaluate_program_enumerated hkind
  · have hlooks := looksLike_structFrom a e repeated
    have hkeeps := keepsLast_createStruct a repeated
    exact ⟨hlooks, hkeeps, hkeeps.of_looksLike hlooks⟩

end Evaluation

/-- A struct in a struct, both with their last attribute first. -/
theorem same_results_in_any_order_reversed :
    ∃ program, ∃ m : Machine Builtin, ∃ pairs : List (String × Handle),
      (parse (ImportTable.mk [("lib", .program ⟨"lib", "y = \"z\" x = [y]", 1⟩)]).resolve 2
        (.ofText "b = import(\"lib\") a = b.y") {}).1 = .ok program ∧
      program.kind = .program ∧ (pairs.map Prod.fst).Nodup ∧ pairs.Perm pairs.reverse ∧
      m.arena.RefersBack ∧ (∀ e ∈ pairs, e.2.index < m.arena.size) ∧
      LooksLike ((m.arena.createStruct pairs).1,
          ((m.arena.createStruct pairs).2.createStruct pairs.reverse).2)
        ((m.arena.createStruct pairs).2.createStruct pairs.reverse) ∧
      ∃ h m₁ m₂, evaluate program .empty m = .ok h m₁ ∧
        Enumerated.evaluate (fun _ => .reversed) program .empty m = .ok h m₂ ∧
        LooksLike (h, m₁.arena) (h, m₂.arena) ∧
        m₁.arena.render h = "\x7ba = \"z\" b = \x7bx = [\"z\"] y = \"z\"\x7d\x7d" := by
  obtain ⟨program, hparse, hchecks⟩ := exists_of_any
    (show (parse (ImportTable.mk [("lib", .program ⟨"lib", "y = \"z\" x = [y]", 1⟩)]).resolve 2
      (.ofText "b = import(\"lib\") a = b.y") {}).1.toOption.any (fun program =>
        program.kind == .program &&
          match evaluate program .empty (⟨Arena.empty, {}⟩ : Machine Builtin) with
          | .ok h m => m.arena.render h == "\x7ba = \"z\" b = \x7bx = [\"z\"] y = \"z\"\x7d\x7d"
          | .error _ _ => false) = true by decide +kernel)
  obtain ⟨hkind, hvalue⟩ := Bool.and_eq_true_iff.mp hchecks
  have hkind := beq_iff_eq.mp hkind
  have hdistinct : ([("b", Handle.null), ("a", Handle.null)].map Prod.fst).Nodup := by decide
  have hperm := ([("b", Handle.null), ("a", Handle.null)].reverse_perm).symm
  have hback : (Arena.empty : Arena Builtin).RefersBack :=
    (Arena.isOrdered_empty fun _ => []).refersBack
  have hrange : ∀ e ∈ [("b", Handle.null), ("a", Handle.null)],
      e.2.index < (Arena.empty : Arena Builtin).size := by decide
  obtain ⟨hstructs, -, -, himports, -⟩ :=
    same_results_in_any_order (φ := Builtin) hdistinct hperm hkind
  refine ⟨program, ⟨Arena.empty, {}⟩, _, hparse, hkind, hdistinct, hperm, hback, hrange,
    (hstructs Arena.empty).2 hback hrange, ?_⟩
  have hsame := himports (fun _ => .reversed) .empty ⟨Arena.empty, {}⟩
  generalize evaluate program .empty (⟨Arena.empty, {}⟩ : Machine Builtin) = r at hvalue hsame ⊢
  generalize Enumerated.evaluate _ program .empty (⟨Arena.empty, {}⟩ : Machine Builtin) = r'
    at hsame ⊢
  cases hsame with
  | struct _ _ _ _ _ hlooks => exact ⟨_, _, _, rfl, rfl, hlooks, beq_iff_eq.mp hvalue⟩
  | stopped => cases hvalue

end BuildScript
