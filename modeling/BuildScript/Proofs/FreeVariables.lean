import BuildScript.Proofs.CongruentCalls
import BuildScript.Proofs.Unrolling

namespace BuildScript

open Eval

namespace Node

mutual

/-- The variables that evaluation of a tree may look up around it. The body of a
comprehension has its loop variable from the comprehension, and an imported
program does not see the names around it. -/
def freeVariables : Node → List String
  | ⟨.object, _, text?, []⟩ => [text?.getD ""]
  | ⟨.listFor, _, _, body :: element :: source :: _⟩ =>
    (freeVariables body).filter (· ≠ element.text) ++ freeVariables source
  | ⟨.program, _, _, _⟩ => []
  | ⟨_, _, _, children⟩ => freeVariablesAll children

def freeVariablesAll : List Node → List String
  | [] => []
  | n :: ns => freeVariables n ++ freeVariablesAll ns

end

end Node

variable {φ α β : Type} {R : φ → φ → Prop} {a a' : Arena φ}

/-- Two ways to end: with values that are related, where no object was lost, or
with the same errors. -/
inductive SameOutcome (Q : Arena φ → Arena φ → α → α → Prop) (a a' : Arena φ) :
    EStateM.Result (List RuntimeError) (Machine φ) α →
      EStateM.Result (List RuntimeError) (Machine φ) α → Prop where
  | value {x x' : α} {m m' : Machine φ} (hextends : m.arena.Extends a)
      (hextends' : m'.arena.Extends a') (h : Q m.arena m'.arena x x') :
      SameOutcome Q a a' (.ok x m) (.ok x' m')
  | errors (errors : List RuntimeError) (m m' : Machine φ) :
      SameOutcome Q a a' (.error errors m) (.error errors m')

/-- Two evaluations that end the same way when they begin with the arenas `a` and
`a'`. -/
def Reproduces (Q : Arena φ → Arena φ → α → α → Prop) (a a' : Arena φ) (p p' : Eval φ α) : Prop :=
  ∀ m m' : Machine φ, m.arena = a → m'.arena = a' → SameOutcome Q a a' (p m) (p' m')

namespace Reproduces

variable {Q : Arena φ → Arena φ → α → α → Prop}

theorem pure {x x' : α} (h : Q a a' x x') :
    Reproduces Q a a' (Pure.pure x : Eval φ α) (Pure.pure x') := by
  rintro m m' rfl rfl
  exact .value (.refl _) (.refl _) h

theorem fail (location : Location) (fault : RuntimeFault) :
    Reproduces Q a a' (Eval.fail location fault) (Eval.fail location fault) :=
  fun m m' _ _ => .errors _ m m'

theorem bind {S : Arena φ → Arena φ → β → β → Prop} {p p' : Eval φ α} {f f' : α → Eval φ β}
    (hp : Reproduces Q a a' p p')
    (hf : ∀ {c c' x x'}, c.Extends a → c'.Extends a' → Q c c' x x' →
      Reproduces S c c' (f x) (f' x')) : Reproduces S a a' (p >>= f) (p' >>= f') := by
  intro m m' ha ha'
  have hfirst := hp m m' ha ha'
  rw [bind_apply, bind_apply]
  generalize p m = result at hfirst ⊢
  generalize p' m' = result' at hfirst ⊢
  cases hfirst with
  | errors errors m₁ m₁' => exact .errors errors m₁ m₁'
  | @value x x' m₁ m₁' hextends hextends' hQ =>
      have hsecond := hf hextends hextends' hQ m₁ m₁' rfl rfl
      dsimp only
      generalize f x m₁ = result at hsecond ⊢
      generalize f' x' m₁' = result' at hsecond ⊢
      cases hsecond with
      | errors errors m₂ m₂' => exact .errors errors m₂ m₂'
      | value hlater hlater' hS => exact .value (hlater.trans hextends) (hlater'.trans hextends') hS

theorem create {o o' : Object φ} (h : SameObject R (SameStructure R a a') o o') :
    Reproduces (SameStructure R) a a' (Eval.create o) (Eval.create o') := by
  rintro m m' rfl rfl
  rw [create_apply, create_apply]
  exact .value (Arena.extends_create _ _) (Arena.extends_create _ _) (.create h)

theorem inspect (location : Location) {ask ask' : Arena φ → Except ObjectError α}
    (h : SameAnswer (Q a a') (ask a) (ask' a')) :
    Reproduces Q a a' (Eval.inspect location ask) (Eval.inspect location ask') := by
  rintro m m' rfl rfl
  rw [inspect_apply, inspect_apply]
  obtain ⟨x, x', hask, hask', hQ⟩ | ⟨e, hask, hask'⟩ := h.inv
  · rw [hask, hask']
    exact .value (.refl _) (.refl _) hQ
  · rw [hask, hask']
    exact .errors _ m m'

theorem lookUp (location : Location) {scope scope' : Scope} {name : String}
    (h : SameAnswer (SameStructure R a a') (scope.get name) (scope'.get name)) :
    Reproduces (SameStructure R) a a' (Eval.lookUp location scope name)
      (Eval.lookUp location scope' name) := by
  rintro m m' rfl rfl
  rw [lookUp_apply, lookUp_apply]
  obtain ⟨x, x', hget, hget', hvalue⟩ | ⟨e, hget, hget'⟩ := h.inv
  · rw [hget, hget']
    exact .value (.refl _) (.refl _) hvalue
  · rw [hget, hget']
    exact .errors _ m m'

theorem invoke [Host φ] (hR : Congruent R) (location : Location) (places : List Location)
    {body body' : φ} (hbody : R body body') {args args' : Arguments}
    (hargs : SameArguments R a a' args args') :
    Reproduces (SameStructure R) a a' (Eval.invoke location places body args)
      (Eval.invoke location places body' args') := by
  rintro m m' rfl rfl
  have hreply := hR body body' _ _ args args' hbody hargs
  rw [invoke_apply, invoke_apply, ← hreply.isSuccess_eq, ← hreply.replyErrors_eq]
  split
  · rename_i hsuccess
    obtain ⟨hextends, hextends', hvalue⟩ := hreply.value hsuccess
    exact .value hextends hextends' hvalue
  · exact .errors _ _ _

theorem mapM {f f' : Handle → Eval φ Handle} {hs hs' : List Handle}
    (h : List.Forall₂ (SameStructure R a a') hs hs')
    (hf : ∀ {c c' e e'}, c.Extends a → c'.Extends a' → SameStructure R c c' e e' →
      Reproduces (SameStructure R) c c' (f e) (f' e')) :
    Reproduces (fun c c' => List.Forall₂ (SameStructure R c c')) a a' (hs.mapM f)
      (hs'.mapM f') := by
  -- the arenas grow from one element to the next
  induction hs generalizing hs' a a' with
  | nil =>
      cases h
      exact pure .nil
  | cons e hs ih =>
      cases h with
      | cons hfirst hothers =>
          rw [List.mapM_cons, List.mapM_cons]
          refine bind (hf (.refl a) (.refl a') hfirst) fun hc hc' hvalue => ?_
          refine bind (ih (hothers.imp fun _ _ h => h.mono hc hc') fun hd hd' =>
            hf (hd.trans hc) (hd'.trans hc')) ?_
          exact fun hd hd' hvalues => pure (.cons (hvalue.mono hd hd') hvalues)

end Reproduces

/-- Two scopes, over arenas that have their null object, that give some names
values of equal structure or leave them unbound alike. -/
structure AgreeOn (R : φ → φ → Prop) (names : List String) (a a' : Arena φ)
    (scope scope' : Scope) : Prop where
  nonempty : 0 < a.size
  nonempty' : 0 < a'.size
  meaning : ∀ name ∈ names,
    SameAnswer (SameStructure R a a') (scope.get name) (scope'.get name)

namespace AgreeOn

variable {names names' : List String} {scope scope' : Scope}

theorem mono (h : AgreeOn R names a a' scope scope') {c c' : Arena φ} (hc : c.Extends a)
    (hc' : c'.Extends a') : AgreeOn R names c c' scope scope' where
  nonempty := Nat.lt_of_lt_of_le h.nonempty hc.size_le
  nonempty' := Nat.lt_of_lt_of_le h.nonempty' hc'.size_le
  meaning name hname := by
    obtain ⟨x, x', hget, hget', hvalue⟩ | ⟨e, hget, hget'⟩ := (h.meaning name hname).inv
    · rw [hget, hget']
      exact .ok (hvalue.mono hc hc')
    · rw [hget, hget']
      exact .error e

theorem of_subset (h : AgreeOn R names a a' scope scope') (hsubset : names' ⊆ names) :
    AgreeOn R names' a a' scope scope' :=
  ⟨h.nonempty, h.nonempty', fun name hname => h.meaning name (hsubset hname)⟩

theorem withElement {loop : String}
    (h : AgreeOn R (names.filter (· ≠ loop)) a a' scope scope') {e e' : Handle}
    (he : SameStructure R a a' e e') :
    AgreeOn R names a a' (scope.withElement loop e) (scope'.withElement loop e') where
  nonempty := h.nonempty
  nonempty' := h.nonempty'
  meaning name hname := by
    rw [Scope.get_withElement, Scope.get_withElement]
    by_cases heq : name = loop
    · rw [if_pos heq, if_pos heq]
      exact .ok he
    · rw [if_neg heq, if_neg heq]
      exact h.meaning name (List.mem_filter.mpr ⟨hname, by simpa using heq⟩)

end AgreeOn

section Imports

instance : ClientHost Empty := ⟨Empty.elim, fun body => body.elim⟩

theorem refersBack_evaluateAlone {program : Node} {h : Handle} {m : Machine Empty}
    (hvalue : evaluateAlone program = .ok h m) : m.arena.RefersBack := by
  have hscope : Scope.empty.handles ⊆ [] := List.nil_subset []
  have hwork := evaluate_isWork (φ := Empty) program hscope ⟨Arena.empty, {}⟩
  rw [show evaluate program .empty _ = _ from hvalue] at hwork
  obtain ⟨known, hruns, -⟩ := hwork
  have hsafe := hruns.isSafe ⟨Arena.isOrdered_empty _, inRange_nil _⟩
  exact hsafe.ordered.refersBack

theorem Arena.extends_onto (base : Arena φ) (made : Arena Empty) :
    (base.onto made).Extends base := by
  intro i object hobject
  obtain ⟨hi, -⟩ := Array.getElem?_eq_some_iff.mp hobject
  rw [Arena.onto, Array.getElem?_append_left hi]
  exact hobject

variable [Host φ]

theorem program_reproduces (R : φ → φ → Prop) (program : Node) (ha : 0 < a.size)
    (ha' : 0 < a'.size) :
    Reproduces (SameStructure R) a a' (evaluate program .empty) (evaluate program .empty) := by
  rintro m m' rfl rfl
  have hcarried := evaluateAlone_carried program m ha
  have hcarried' := evaluateAlone_carried program m' ha'
  cases halone : evaluateAlone program with
  | error errors made =>
      rw [halone] at hcarried hcarried'
      rw [hcarried.1, hcarried'.1]
      exact .errors errors _ _
  | ok h made =>
      rw [halone] at hcarried hcarried'
      obtain ⟨hrun, hmade, -, hown⟩ := hcarried
      rw [hrun, hcarried'.1]
      exact .value (Arena.extends_onto _ _) (Arena.extends_onto _ _)
        (.onto R hmade.owns (refersBack_evaluateAlone halone) _ _ hown)

end Imports

variable [Host φ]

open Node

private theorem evaluation_reproduces (hR : Congruent R) :
    (∀ (node : Node) (scope scope' : Scope) (a a' : Arena φ),
      AgreeOn R node.freeVariables a a' scope scope' →
      Reproduces (SameStructure R) a a' (evaluate node scope) (evaluate node scope')) ∧
    (∀ (_ : List Node) (_ : Scope) (_ : Machine φ), True) ∧
    (∀ (nodes : List Node) (scope : Scope) (args : Arguments) (scope' : Scope) (args' : Arguments)
      (a a' : Arena φ), AgreeOn R (freeVariablesAll nodes) a a' scope scope' →
      SameArguments R a a' args args' →
      Reproduces (SameArguments R) a a' (evaluateArguments nodes scope args)
        (evaluateArguments nodes scope' args')) ∧
    (∀ (nodes : List Node) (scope scope' : Scope) (a a' : Arena φ),
      AgreeOn R (freeVariablesAll nodes) a a' scope scope' →
      Reproduces (fun c c' => List.Forall₂ (SameStructure R c c')) a a' (evaluateAll nodes scope)
        (evaluateAll nodes scope')) := by
  apply evaluate.mutual_induct
  case case1 =>
    intro location text? scope scope' a a' hagree
    rw [freeVariables] at hagree
    rw [evaluate, evaluate]
    exact .lookUp location (hagree.meaning _ List.mem_cons_self)
  case case2 =>
    intro location text? owner others scope ih scope' a a' hagree
    rw [freeVariables, freeVariablesAll] at hagree
    · rw [evaluate, evaluate]
      refine .bind (ih scope' a a' (hagree.of_subset (List.subset_append_left _ _)))
        fun _ _ hvalue => .inspect location (hvalue.attr _)
    all_goals simp
  case case3 =>
    intro location text? children scope scope' a a' _
    rw [evaluate, evaluate]
    exact .create (.string _)
  case case4 =>
    intro location text? entries scope ih scope' a a' hagree
    rw [freeVariables] at hagree
    · rw [evaluate, evaluate]
      exact .bind (ih scope' a a' hagree) fun _ _ hvalues => .create (.list hvalues)
    all_goals simp
  case case5 =>
    intro location text? body element source others scope ihSource ihBody scope' a a' hagree
    rw [freeVariables] at hagree
    have hbody := hagree.of_subset (List.subset_append_left _ _)
    rw [evaluate, evaluate]
    refine .bind (ihSource scope' a a' (hagree.of_subset (List.subset_append_right _ _)))
      fun hc hc' hlist => ?_
    refine .bind (.inspect (Q := fun c c' => List.Forall₂ (SameStructure R c c')) source.location
      hlist.asList) fun hd hd' hentries => ?_
    refine .bind (.mapM hentries fun he he' helement => ihBody _ _ _ _ ?_)
      fun _ _ hresults => .create (.list hresults)
    exact (hbody.mono (he.trans (hd.trans hc)) (he'.trans (hd'.trans hc'))).withElement helement
  case case6 =>
    intro location text? callee arguments scope ihCallee ihArguments scope' a a' hagree
    rw [freeVariables, freeVariablesAll] at hagree
    · have harguments := hagree.of_subset (List.subset_append_right _ _)
      rw [evaluate, evaluate]
      refine .bind (ihCallee scope' a a' (hagree.of_subset (List.subset_append_left _ _)))
        fun hc hc' hcallee => ?_
      refine .bind (.inspect (Q := fun _ _ => R) location hcallee.asFunction) fun hd hd' hbody => ?_
      refine .bind (ihArguments _ _ _ _ (harguments.mono (hd.trans hc) (hd'.trans hc'))
        (.empty R _ _)) fun _ _ hargs => .invoke hR location _ hbody hargs
    all_goals simp
  case case7 =>
    intro location text? statements scope _ scope' a a' hagree
    rw [evaluate_program_scope location text? statements scope .empty,
      evaluate_program_scope location text? statements scope' .empty]
    exact program_reproduces R _ hagree.nonempty hagree.nonempty'
  case case8 =>
    intro kind location text? children scope hobject hattribute hstring hlist hlistFor hcall
      hprogram scope' a a' _
    rw [evaluate, evaluate]
    · exact .fail location _
    all_goals assumption
  case case9 => exact fun _ _ => trivial
  case case10 => exact fun _ _ _ _ _ _ _ _ _ _ => trivial
  case case11 => exact fun _ _ _ _ _ _ _ _ => trivial
  case case12 => exact fun _ _ _ _ _ _ _ _ _ _ => trivial
  case case13 =>
    intro scope args scope' args' a a' _ hargs
    rw [evaluateArguments, evaluateArguments]
    exact .pure hargs
  case case14 =>
    intro location text? nodes scope args scope' args' a a' _ _
    rw [evaluateArguments, evaluateArguments]
    exact .fail location _
  case case15 =>
    intro location text? value others nodes scope args ihValue ihNodes scope' args' a a' hagree
      hargs
    rw [freeVariablesAll, freeVariables, freeVariablesAll] at hagree
    · have hvalue := hagree.of_subset (List.Subset.trans (List.subset_append_left _ _)
        (List.subset_append_left _ _))
      have hnodes := hagree.of_subset (List.subset_append_right _ _)
      rw [evaluateArguments, evaluateArguments]
      refine .bind (ihValue scope' a a' hvalue) fun hc hc' hsame => ?_
      exact ihNodes _ _ _ _ _ (hnodes.mono hc hc') ((hargs.mono hc hc').pushKeyword hsame _)
    all_goals simp
  case case16 =>
    intro node nodes scope args hempty hkeyword ihNode ihNodes scope' args' a a' hagree hargs
    rw [freeVariablesAll] at hagree
    have hnodes := hagree.of_subset (List.subset_append_right _ _)
    rw [evaluateArguments, evaluateArguments]
    · refine .bind (ihNode scope' a a' (hagree.of_subset (List.subset_append_left _ _)))
        fun hc hc' hsame => ?_
      exact ihNodes _ _ _ _ _ (hnodes.mono hc hc') ((hargs.mono hc hc').pushPositional hsame)
    all_goals assumption
  case case17 =>
    intro scope scope' a a' _
    rw [evaluateAll, evaluateAll]
    exact .pure .nil
  case case18 =>
    intro node nodes scope ihNode ihNodes scope' a a' hagree
    rw [freeVariablesAll] at hagree
    have hnodes := hagree.of_subset (List.subset_append_right _ _)
    rw [evaluateAll, evaluateAll]
    refine .bind (ihNode scope' a a' (hagree.of_subset (List.subset_append_left _ _)))
      fun hc hc' hvalue => ?_
    refine .bind (ihNodes scope' _ _ (hnodes.mono hc hc')) fun hd hd' hvalues => ?_
    exact .pure (.cons (hvalue.mono hd hd') hvalues)

/-- A tree evaluated in two scopes, over two arenas: where these give each free
variable of the tree values of equal structure, or leave it unbound in both, the
two evaluations have values of equal structure, or the same errors, in the same
order and at the same places. Functions are equal if they are the same builtin;
what else a host has does not matter. -/
theorem evaluate_depends_on_free_variables {embed : Builtin → φ}
    (hembed : ∀ (b : Builtin) (a : Arena φ) (args : Arguments),
      Host.call (embed b) a args = b.call a args)
    {node : Node} {scope scope' : Scope} {m m' : Machine φ} (hm : 0 < m.arena.size)
    (hm' : 0 < m'.arena.size)
    (hagree : ∀ name ∈ node.freeVariables,
      SameAnswer (SameStructure (Builtin.Same embed) m.arena m'.arena) (scope.get name)
        (scope'.get name)) :
    SameOutcome (SameStructure (Builtin.Same embed)) m.arena m'.arena (evaluate node scope m)
      (evaluate node scope' m') :=
  (evaluation_reproduces (Builtin.congruent hembed)).1 node scope scope' _ _ ⟨hm, hm', hagree⟩
    m m' rfl rfl

/-- A comprehension over an attribute of a struct, whose body calls a builtin: in
two arenas with other handles and another order of attributes, and in two scopes
that differ in a name that the comprehension binds. -/
theorem evaluate_depends_on_free_variables_comprehension :
    let here := Location.startOf (.ofText "")
    let object (name : String) : Node := ⟨.object, here, some name, []⟩
    let part (name : String) : Node := ⟨.object, here, some name, [object "s"]⟩
    let node : Node := ⟨.listFor, here, none,
      [⟨.call, here, none, [object "concat", object "v", part "t"]⟩,
        ⟨.binder, here, some "v", []⟩, part "vs"]⟩
    let scope : Scope := .root ⟨[("concat", ⟨1⟩), ("s", ⟨5⟩)], by decide⟩
    let scope' : Scope := .root ⟨[("v", ⟨1⟩), ("s", ⟨5⟩), ("concat", ⟨6⟩)], by decide⟩
    let m : Machine StockFunction := ⟨⟨#[.null, .function (.builtin .concat), .string "a",
      .string "b", .list [⟨2⟩, ⟨3⟩], .struct ⟨[("t", ⟨2⟩), ("vs", ⟨4⟩)], by decide⟩]⟩, {}⟩
    let m' : Machine StockFunction := ⟨⟨#[.null, .function .nothing, .string "b", .string "a",
      .list [⟨3⟩, ⟨2⟩], .struct ⟨[("vs", ⟨4⟩), ("t", ⟨3⟩)], by decide⟩,
      .function (.builtin .concat)]⟩, {}⟩
    ∃ h m₁ h' m₁', evaluate node scope m = .ok h m₁ ∧ evaluate node scope' m' = .ok h' m₁' ∧
      SameStructure (Builtin.Same StockFunction.builtin) m₁.arena m₁'.arena h h' ∧
      m₁.arena.render h = "[\"aa\" \"ba\"]" := by
  intro here object part node scope scope' m m'
  have hvariables : node.freeVariables = ["concat", "s", "s"] := by decide +kernel
  have ha : SameStructure (Builtin.Same StockFunction.builtin) m.arena m'.arena ⟨2⟩ ⟨3⟩ :=
    .string rfl rfl
  have hlist : SameStructure (Builtin.Same StockFunction.builtin) m.arena m'.arena ⟨4⟩ ⟨4⟩ := by
    refine .list rfl rfl rfl fun {e e'} hzip => ?_
    rcases List.mem_cons.mp hzip with heq | hzip
    · cases heq
      exact ha
    · cases List.mem_singleton.mp hzip
      exact .string rfl rfl
  have hs : SameStructure (Builtin.Same StockFunction.builtin) m.arena m'.arena ⟨5⟩ ⟨5⟩ := by
    refine .struct rfl rfl (fun name => ?_) fun {name e e'} hfind hfind' => ?_
    · simp [Bindings.names, or_comm]
    · simp only [Bindings.find?, List.lookup_cons] at hfind hfind'
      by_cases ht : name = "t"
      · subst ht
        cases hfind
        cases hfind'
        exact ha
      · by_cases hvs : name = "vs"
        · subst hvs
          cases hfind
          cases hfind'
          exact hlist
        · simp [beq_false_of_ne ht, beq_false_of_ne hvs] at hfind
  have hconcat : SameStructure (Builtin.Same StockFunction.builtin) m.arena m'.arena ⟨1⟩ ⟨6⟩ :=
    .function rfl rfl ⟨.concat, rfl, rfl⟩
  have hagree : ∀ name ∈ node.freeVariables,
      SameAnswer (SameStructure (Builtin.Same StockFunction.builtin) m.arena m'.arena)
        (scope.get name) (scope'.get name) := by
    rw [hvariables]
    simp only [List.forall_mem_cons]
    exact ⟨.ok hconcat, .ok hs, .ok hs, fun _ h => by cases h⟩
  have hembed : ∀ (b : Builtin) (a : Arena StockFunction) (args : Arguments),
      Host.call (StockFunction.builtin b) a args = b.call a args := fun _ _ _ => rfl
  have hm : 0 < m.arena.size := Nat.succ_pos 5
  have hm' : 0 < m'.arena.size := Nat.succ_pos 6
  have hsame := evaluate_depends_on_free_variables hembed hm hm' hagree
  have hvalue : ∃ h m₁, evaluate node scope m = .ok h m₁ ∧
      m₁.arena.render h = "[\"aa\" \"ba\"]" := ⟨⟨8⟩, _, rfl, by decide +kernel⟩
  obtain ⟨h, m₁, hrun, htext⟩ := hvalue
  rw [hrun] at hsame
  generalize evaluate node scope' m' = result' at hsame ⊢
  cases hsame with
  | value _ _ hstructure => exact ⟨h, m₁, _, _, hrun, rfl, hstructure, htext⟩

end BuildScript
