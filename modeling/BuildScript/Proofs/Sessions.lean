import BuildScript.Proofs.ClientEvaluation
import BuildScript.Proofs.GuardedEvaluation

namespace BuildScript

open Client

variable {φ : Type}

/-- What a host has at hand: the handles it got, the arena, a root scope and a
list of arguments. -/
structure Session (φ : Type) where
  known : List Handle
  arena : Arena φ
  scope : Scope
  args : Arguments

namespace Session

def start : Session φ := ⟨[], .empty, .empty, .empty⟩

def handles (s : Session φ) : List Handle := s.known ++ (s.scope.handles ++ s.args.handles)

theorem handles_subset {s : Session φ} {handles : List Handle} :
    s.handles ⊆ handles ↔
      s.known ⊆ handles ∧ s.scope.handles ⊆ handles ∧ s.args.handles ⊆ handles := by
  rw [Session.handles, List.append_subset, List.append_subset]

section Steps

variable [Host φ] [ClientHost φ]

/-- What a host can do. Programs may be any trees and may fail, calls may fail,
and the builtins may meet names that are taken; the handles that are put
somewhere are known ones. The functions a program calls remember nothing but
what they were made with; a host that gives them more to work with does so in
steps of its own. -/
inductive Step : Session φ → Session φ → Prop where
  | work {s : Session φ} {c : Client φ} (h : Client.Step ClientHost.keeps ⟨s.known, s.arena⟩ c) :
      Step s { s with known := c.known, arena := c.arena }
  | lookUp {s : Session φ} {name : String} {h : Handle} (hget : s.scope.get name = .ok h) :
      Step s { s with known := h :: s.known }
  | put {s : Session φ} {name : String} {h : Handle} {scope : Scope} (hh : h ∈ s.known)
      (hput : s.scope.put name h = .ok scope) : Step s { s with scope }
  | pushPositional {s : Session φ} {h : Handle} (hh : h ∈ s.known) :
      Step s { s with args := s.args.pushPositional h }
  | pushKeyword {s : Session φ} {h : Handle} (hh : h ∈ s.known) (name : String) :
      Step s { s with args := s.args.pushKeyword name h }
  | takeArgument {s : Session φ} {h : Handle} (hh : h ∈ s.args.handles) :
      Step s { s with known := h :: s.known }
  | dropArguments (s : Session φ) : Step s { s with args := .empty }
  | install {s : Session φ} (embed : Builtin → φ) (journal : Journal)
      (hembed : ∀ b, ClientHost.keeps (embed b) ⊆ s.known) :
      Step s { s with
        arena := (Builtin.install embed s.arena s.scope journal).2.1
        scope := (Builtin.install embed s.arena s.scope journal).2.2.1 }
  | callBuiltin (s : Session φ) (b : Builtin) :
      Step s { s with
        known := (b.call s.arena s.args).1.value :: s.known
        arena := (b.call s.arena s.args).2 }
  | call {s : Session φ} {body : φ} (hbody : ClientHost.keeps body ⊆ s.known) :
      Step s { s with
        known := (Host.call body s.arena s.args).1.value :: s.known
        arena := (Host.call body s.arena s.args).2 }
  | interpret (s : Session φ) (program : Node) (journal : Journal) :
      Step s { s with
        arena := (interpret program s.scope ⟨s.arena, journal⟩).machine.arena
        scope := (interpret program s.scope ⟨s.arena, journal⟩).scope }

abbrev Reaches : Session φ → Session φ → Prop := Relation.ReflTransGen Step

end Steps

end Session

/-- Binding builtins is the work of a client, and so are the scopes it binds
them in, even where it ends early. -/
theorem Builtin.bindAll_works {keeps : φ → List Handle} {embed : Builtin → φ} (bs : List Builtin)
    {known : List Handle} {a : Arena φ} {scope : Scope} (hscope : scope.handles ⊆ known)
    (hembed : ∀ b, keeps (embed b) ⊆ known) :
    ∃ known', Runs keeps ⟨known, a⟩ ⟨known', (bindAll embed bs a scope).2.1⟩ ∧
      (bindAll embed bs a scope).2.2.handles ⊆ known' := by
  induction bs generalizing known a scope with
  | nil => exact ⟨known, .refl, hscope⟩
  | cons b bs ih =>
      have hmade : Client.Step keeps ⟨known, a⟩
          ⟨(a.create (.function (embed b))).1 :: known, (a.create (.function (embed b))).2⟩ :=
        .create (by simp [Object.type]) (hembed b)
      have hlater : ∀ {handles : List Handle}, handles ⊆ known →
          handles ⊆ (a.create (.function (embed b))).1 :: known :=
        fun h => List.Subset.trans h (List.subset_cons_self _ _)
      simp only [bindAll]
      cases hput : scope.put b.name (a.create (.function (embed b))).1 with
      | error e => exact ⟨_, .single hmade, hlater hscope⟩
      | ok scope' =>
          have hscope' := List.Subset.trans (Scope.handles_put_subset hput)
            (List.cons_subset_cons _ hscope)
          obtain ⟨known', hruns, hend⟩ := ih hscope' fun b => hlater (hembed b)
          exact ⟨known', hruns.head hmade, hend⟩

theorem Builtin.install_works {keeps : φ → List Handle} {embed : Builtin → φ} {known : List Handle}
    {a : Arena φ} {scope : Scope} (hscope : scope.handles ⊆ known)
    (hembed : ∀ b, keeps (embed b) ⊆ known) (journal : Journal) :
    ∃ known', Runs keeps ⟨known, a⟩ ⟨known', (install embed a scope journal).2.1⟩ ∧
      (install embed a scope journal).2.2.1.handles ⊆ known' := by
  obtain ⟨known', hruns, hend⟩ := bindAll_works all (a := a) hscope hembed
  refine ⟨known', ?_⟩
  unfold install
  generalize bindAll embed all a scope = result at hruns hend ⊢
  rcases result with ⟨_ | _, arena, scope'⟩
  · exact ⟨hruns, hend⟩
  · exact ⟨hruns, hend⟩

namespace Session

variable [Host φ] [ClientHost φ] {s s' : Session φ}

theorem Step.works (h : Step s s') :
    ∃ known, Runs ClientHost.keeps ⟨s.handles, s.arena⟩ ⟨known, s'.arena⟩ ∧ s'.handles ⊆ known := by
  obtain ⟨hknown, hscope, hargs⟩ := handles_subset.mp (List.Subset.refl s.handles)
  cases h with
  | work h =>
      obtain ⟨known, hmore, hstep⟩ := h.of_subset hknown
      obtain ⟨-, hscope', hargs'⟩ := handles_subset.mp hstep.known_subset
      exact ⟨known, .single hstep, handles_subset.mpr ⟨hmore, hscope', hargs'⟩⟩
  | lookUp hget =>
      have hfound := List.cons_subset.mpr ⟨hscope (Scope.mem_handles_of_get hget), hknown⟩
      exact ⟨s.handles, .refl, handles_subset.mpr ⟨hfound, hscope, hargs⟩⟩
  | put hh hput =>
      refine ⟨s.handles, .refl, handles_subset.mpr ⟨hknown, ?_, hargs⟩⟩
      exact List.Subset.trans (Scope.handles_put_subset hput)
        (List.cons_subset.mpr ⟨hknown hh, hscope⟩)
  | pushPositional hh =>
      refine ⟨s.handles, .refl, handles_subset.mpr ⟨hknown, hscope, ?_⟩⟩
      exact Arguments.handles_pushPositional_subset hargs (hknown hh)
  | pushKeyword hh name =>
      refine ⟨s.handles, .refl, handles_subset.mpr ⟨hknown, hscope, ?_⟩⟩
      exact Arguments.handles_pushKeyword_subset hargs (hknown hh) name
  | takeArgument hh =>
      have htaken := List.cons_subset.mpr ⟨hargs hh, hknown⟩
      exact ⟨s.handles, .refl, handles_subset.mpr ⟨htaken, hscope, hargs⟩⟩
  | dropArguments =>
      exact ⟨s.handles, .refl, handles_subset.mpr ⟨hknown, hscope, List.nil_subset _⟩⟩
  | install embed journal hembed =>
      obtain ⟨known, hruns, hend⟩ :=
        Builtin.install_works hscope (fun b => List.Subset.trans (hembed b) hknown) journal
      obtain ⟨hknown', -, hargs'⟩ := handles_subset.mp hruns.known_subset
      exact ⟨known, hruns, handles_subset.mpr ⟨hknown', hend, hargs'⟩⟩
  | callBuiltin b =>
      obtain ⟨known, hruns, hvalue⟩ :=
        (b.works ClientHost.keeps s.arena s.args).of_subset hargs
      obtain ⟨hknown', hscope', hargs'⟩ := handles_subset.mp hruns.known_subset
      have hvalues := List.cons_subset.mpr ⟨hvalue, hknown'⟩
      exact ⟨known, hruns, handles_subset.mpr ⟨hvalues, hscope', hargs'⟩⟩
  | call hbody =>
      obtain ⟨known, hruns, hvalue⟩ := (ClientHost.works _ s.arena s.args).of_subset
        (List.append_subset.mpr ⟨List.Subset.trans hbody hknown, hargs⟩)
      obtain ⟨hknown', hscope', hargs'⟩ := handles_subset.mp hruns.known_subset
      have hvalues := List.cons_subset.mpr ⟨hvalue, hknown'⟩
      exact ⟨known, hruns, handles_subset.mpr ⟨hvalues, hscope', hargs'⟩⟩
  | interpret program journal =>
      obtain ⟨known, hruns, hend⟩ := interpret_works program s.scope ⟨s.arena, journal⟩ hscope
      obtain ⟨hknown', -, hargs'⟩ := handles_subset.mp hruns.known_subset
      exact ⟨known, hruns, handles_subset.mpr ⟨hknown', hend, hargs'⟩⟩

theorem Reaches.works (h : Reaches s s') :
    ∃ known, Runs ClientHost.keeps ⟨s.handles, s.arena⟩ ⟨known, s'.arena⟩ ∧ s'.handles ⊆ known := by
  induction h with
  | refl => exact ⟨s.handles, .refl, List.Subset.refl _⟩
  | tail _ hstep ih =>
      obtain ⟨known, hruns, hhandles⟩ := ih
      obtain ⟨known', hruns', hhandles'⟩ := hstep.works
      obtain ⟨more, hmore, hlast⟩ := hruns'.of_subset hhandles
      exact ⟨more, hruns.trans hlast, List.Subset.trans hhandles' hmore⟩

/-- The arena is ordered, and the handles that the host knows and those in the
scope and in the arguments are of its objects. -/
structure IsSafe (s : Session φ) : Prop where
  ordered : s.arena.IsOrdered ClientHost.keeps
  known : InRange s.arena.size s.known
  scope : InRange s.arena.size s.scope.handles
  args : InRange s.arena.size s.args.handles

theorem isSafe_iff : s.IsSafe ↔ Client.IsSafe ClientHost.keeps ⟨s.handles, s.arena⟩ := by
  constructor
  · rintro ⟨hordered, hknown, hscope, hargs⟩
    exact ⟨hordered, inRange_append.mpr ⟨hknown, inRange_append.mpr ⟨hscope, hargs⟩⟩⟩
  · rintro ⟨hordered, hhandles⟩
    obtain ⟨hknown, hrest⟩ := inRange_append.mp hhandles
    obtain ⟨hscope, hargs⟩ := inRange_append.mp hrest
    exact ⟨hordered, hknown, hscope, hargs⟩

theorem isSafe_start : (start : Session φ).IsSafe :=
  isSafe_iff.mpr ⟨Arena.isOrdered_empty _, inRange_nil _⟩

theorem Reaches.isSafe (h : Reaches s s') (hsafe : s.IsSafe) : s'.IsSafe := by
  obtain ⟨known, hruns, hhandles⟩ := h.works
  obtain ⟨hordered, hknown⟩ := hruns.isSafe (isSafe_iff.mp hsafe)
  exact isSafe_iff.mpr ⟨hordered, fun handle hhandle => hknown handle (hhandles hhandle)⟩

theorem Reaches.isPrefix (h : Reaches s s') :
    s.arena.objects.toList <+: s'.arena.objects.toList := by
  obtain ⟨known, hruns, -⟩ := h.works
  exact hruns.isPrefix

/-- However an evaluation ends, the arena it leaves is ordered and begins with
the objects that were there. The handles of a value are of its objects. -/
def EndsSafe (a : Arena φ) {α : Type} (handles : α → List Handle) :
    EStateM.Result (List RuntimeError) (Machine φ) α → Prop
  | .ok value m =>
      m.arena.IsOrdered ClientHost.keeps ∧ a.objects.toList <+: m.arena.objects.toList ∧
        InRange m.arena.size (handles value)
  | .error _ m => m.arena.IsOrdered ClientHost.keeps ∧ a.objects.toList <+: m.arena.objects.toList

theorem endsSafe_of_isWork {α : Type} {known : List Handle} {Q : List Handle → α → Prop}
    {p : Eval φ α} (h : IsWork ClientHost.keeps known Q p) {m : Machine φ}
    (hordered : m.arena.IsOrdered ClientHost.keeps) (hknown : InRange m.arena.size known)
    {handles : α → List Handle} (hhandles : ∀ known a, Q known a → handles a ⊆ known) :
    EndsSafe m.arena handles (p m) := by
  have hwork := h m
  cases hrun : p m with
  | ok value m' =>
      rw [hrun] at hwork
      obtain ⟨known', hruns, hvalue⟩ := hwork
      obtain ⟨hordered', hknown'⟩ := hruns.isSafe ⟨hordered, hknown⟩
      refine ⟨hordered', hruns.isPrefix, fun found hfound => hknown' found ?_⟩
      exact hhandles known' value hvalue hfound
  | error errors m' =>
      rw [hrun] at hwork
      obtain ⟨known', hruns⟩ := hwork
      exact ⟨(hruns.isSafe ⟨hordered, hknown⟩).ordered, hruns.isPrefix⟩

/-- In every session that can come about from a new arena: the arena is ordered
and all handles that are around are of its objects; whatever comes next, its
objects stay what they are. So a handle of the arena finds an object, it is null
exactly when the object is, rendering comes to an end wherever it begins and is
not cut short, and the evaluation of any value or arguments leaves an ordered
arena and gives handles of its objects. Programs of the right shape run with
every index checked just as they run. -/
theorem reaches_safe (h : Reaches start s) :
    s.IsSafe ∧
    (∀ s', Reaches s s' → s.arena.objects.toList <+: s'.arena.objects.toList) ∧
    (∀ handle : Handle, handle.index < s.arena.size →
      s.arena.objects[handle.index]? = some (s.arena.get handle) ∧
      (handle.isNull = true ↔ (s.arena.get handle).type = .null)) ∧
    (WellFounded fun found handle : Handle => found ∈ (s.arena.get handle).handles) ∧
    (∀ (handle : Handle) (depth : Nat), handle.index < depth →
      s.arena.renderTo depth handle = s.arena.render handle) ∧
    (∀ (node : Node) (scope : Scope) (journal : Journal), InRange s.arena.size scope.handles →
      EndsSafe s.arena (fun h => [h]) (evaluate node scope ⟨s.arena, journal⟩)) ∧
    (∀ (nodes : List Node) (scope : Scope) (args : Arguments) (journal : Journal),
      InRange s.arena.size scope.handles → InRange s.arena.size args.handles →
      EndsSafe s.arena Arguments.handles (evaluateArguments nodes scope args ⟨s.arena, journal⟩)) ∧
    ∀ (program : Node) (journal : Journal), program.WellShaped → program.kind = .program →
      interpretGuarded program s.scope ⟨s.arena, journal⟩ =
        some (interpret program s.scope ⟨s.arena, journal⟩) := by
  have hsafe : s.IsSafe := h.isSafe isSafe_start
  have hordered := hsafe.ordered
  refine ⟨hsafe, fun s' hs' => hs'.isPrefix, fun handle hlt => ?_, ?_,
    fun handle depth hdepth => ?_, fun node scope journal hscope => ?_,
    fun nodes scope args journal hscope hargs => ?_,
    fun program journal hshape hkind => ?_⟩
  · exact ⟨Arena.getElem?_of_lt hlt, hordered.isNull_iff hlt⟩
  · exact hordered.refersBack.wellFounded
  · exact hordered.refersBack.renderTo_eq hdepth (Nat.lt_succ_self _)
  · have hwork := evaluate_isWork (φ := φ) node (List.Subset.refl scope.handles)
    exact endsSafe_of_isWork hwork hordered hscope fun _ _ hvalue =>
      List.cons_subset.mpr ⟨hvalue, List.nil_subset _⟩
  · have hwork := evaluateArguments_isWork (φ := φ) nodes
      (List.subset_append_left scope.handles args.handles) (List.subset_append_right _ _)
    exact endsSafe_of_isWork hwork hordered (inRange_append.mpr ⟨hscope, hargs⟩)
      fun _ _ hvalue => hvalue
  · let _ : LawfulHost φ := ClientHost.lawful φ
    exact interpretGuarded_eq hshape hkind hordered.closed (Scope.fits_iff.mpr hsafe.scope)

/-- The builtins, a list that a function makes of a string, and a program that
calls a builtin before it fails. -/
theorem reaches_safe_failure :
    ∃ s : Session StockFunction, Reaches start s ∧ s.IsSafe ∧ s.arena.size = 9 ∧
      s.known = [⟨5⟩, ⟨4⟩] ∧ s.arena.render ⟨5⟩ = "[\"a\"]" ∧
      (s.scope.get "x").toOption = some ⟨8⟩ ∧ s.arena.render ⟨8⟩ = "[\"b\"]" := by
  let here := Location.startOf (.ofText "")
  let call : Node := ⟨.call, here, none,
    [⟨.object, here, some "concat", []⟩, ⟨.string, here, some "b", []⟩]⟩
  let program : Node := ⟨.program, here, none, [
    ⟨.assignment, here, none, [⟨.binder, here, some "x", []⟩, ⟨.list, here, none, [call]⟩]⟩,
    ⟨.call, here, none, [⟨.object, here, some "missing", []⟩]⟩]⟩
  have hinstalled : Reaches (start : Session StockFunction) _ :=
    .single (.install StockFunction.builtin {} fun _ => List.nil_subset _)
  have hstring : (Object.string "a" : Object StockFunction).type ≠ .null := by simp [Object.type]
  have hmade := hinstalled.tail (.work (.create hstring (List.nil_subset _)))
  have hpushed := hmade.tail (.pushPositional List.mem_cons_self)
  have hcollect : ClientHost.keeps StockFunction.collect ⊆ [Handle.mk 4] := List.nil_subset _
  have hcalled := hpushed.tail (.call hcollect)
  have hrun := hcalled.tail (.interpret _ program {})
  exact ⟨_, hrun, (reaches_safe hrun).1, by decide +kernel, by decide +kernel, by decide +kernel,
    by decide +kernel, by decide +kernel⟩

end Session

end BuildScript
