import Mathlib.Algebra.Order.Monoid.Unbundled.WithTop
import BuildScript.Proofs.Evaluators
import BuildScript.Proofs.Throwing

/-!
Evaluation with every index checked. It has no answer where it would look for
an object outside the arena, hand out such an object, or need a child that a
node does not have. On well-shaped trees, closed arenas and scopes that fit, that
happens only once a function has answered with what is not there.
-/

namespace BuildScript

open Eval

/-- A machine, and whether a function has misled those who work with it. -/
structure Watched (φ : Type) where
  machine : Machine φ
  misled : Bool

def Watched.after {φ α : Type} (misled : Bool) :
    EStateM.Result (List RuntimeError) (Machine φ) α →
      EStateM.Result (List RuntimeError) (Watched φ) α
  | .ok a m => .ok a ⟨m, misled⟩
  | .error errors m => .error errors ⟨m, misled⟩

/-- An evaluation that comes to an end unless an index is out of range. If it
does not, it is told whether a function had misled it before. -/
def Guarded (φ α : Type) : Type :=
  Watched φ → Except Bool (EStateM.Result (List RuntimeError) (Watched φ) α)

section Answers

variable {φ : Type}

/-- An arena with null in it that holds handles of its own only. Handles that
functions keep are not seen. -/
abbrev Arena.HoldsItsOwn (a : Arena φ) : Prop := a.Closed fun _ _ => True

theorem Arena.holdsItsOwn_iff {a : Arena φ} :
    a.HoldsItsOwn ↔ 0 < a.size ∧ ∀ object ∈ a.objects.toList, InRange a.size object.handles := by
  constructor
  · rintro ⟨hnonempty, hobjects⟩
    refine ⟨hnonempty, fun object hobject => ?_⟩
    obtain ⟨i, hi⟩ := List.mem_iff_getElem?.mp hobject
    exact (hobjects i object (by simpa using hi)).handles
  · rintro ⟨hnonempty, hobjects⟩
    refine ⟨hnonempty, fun i object hobject => ?_⟩
    have hrange := hobjects object (List.mem_of_getElem? (by simpa using hobject))
    cases object with
    | struct attributes => exact hrange
    | list entries => exact hrange
    | _ => trivial

instance (n : Nat) (handles : List Handle) : Decidable (InRange n handles) :=
  inferInstanceAs (Decidable (∀ h ∈ handles, h.index < n))

instance (a : Arena φ) : Decidable a.HoldsItsOwn := decidable_of_iff' _ Arena.holdsItsOwn_iff

/-- An answer that is good for any evaluation: nothing is lost, all handles in
the arena are of its objects, and so is the value. -/
abbrev IsValid (a : Arena φ) (answer : Reply × Arena φ) : Prop :=
  Serves (fun _ _ => True) a answer

instance (a : Arena φ) (answer : Reply × Arena φ) : Decidable (IsValid a answer) :=
  decidable_of_iff' (answer.2.HoldsItsOwn ∧ a.size ≤ answer.2.size ∧
    (answer.1.isSuccess = true → answer.1.value.index < answer.2.size))
    ⟨fun h => ⟨h.closed, h.size_le, h.value⟩, fun h => ⟨h.1, h.2.1, h.2.2⟩⟩

theorem Arena.Closed.holdsItsOwn {fits : φ → Nat → Prop} {a : Arena φ} (h : a.Closed fits) :
    a.HoldsItsOwn := by
  refine ⟨h.nonempty, fun i object hobject => ?_⟩
  have hfits := h.objects i object hobject
  cases object with
  | function body => trivial
  | _ => exact hfits

theorem Serves.isValid {fits : φ → Nat → Prop} {a : Arena φ} {answer : Reply × Arena φ}
    (h : Serves fits a answer) : IsValid a answer :=
  ⟨h.closed.holdsItsOwn, h.size_le, h.value⟩

end Answers

namespace Guarded

variable {φ α β : Type}

/-- An action that needs some handles to be in range. -/
def needing (handles : List Handle) (p : Eval φ α) : Guarded φ α := fun m =>
  if InRange m.machine.arena.size handles then .ok (Watched.after m.misled (p m.machine))
  else .error m.misled

def bind (p : Guarded φ α) (f : α → Guarded φ β) : Guarded φ β := fun m =>
  match p m with
  | .ok (.ok a m) => f a m
  | .ok (.error errors m) => .ok (.error errors m)
  | .error misled => .error misled

instance : Monad (Guarded φ) where
  pure a := fun m => .ok (.ok a m)
  bind := bind

variable [Host φ]

def invoke (location : Location) (places : List Location) (body : φ) (args : Arguments) :
    Guarded φ Handle := fun m =>
  let valid : Bool := decide (IsValid m.machine.arena (Host.call body m.machine.arena args))
  if InRange m.machine.arena.size args.handles then
    .ok (Watched.after (m.misled || !valid) (Eval.invoke location places body args m.machine))
  else .error m.misled

def evaluator : Evaluator φ (Guarded φ) where
  record e := needing [] (Eval.record e)
  lookUp location scope name := needing [] (Eval.lookUp location scope name)
  attr location handle name := needing [handle] (inspect location (·.attr handle name))
  entries location handle := needing [handle] (inspect location (·.asList handle))
  function location handle := needing [handle] (inspect location (·.asFunction handle))
  string text := needing [] (create (.string text))
  list handles := needing handles (create (.list handles))
  struct b := needing b.handles (create (.struct b))
  invoke := invoke
  assign location scope name value := needing [value] (Eval.assign location scope name value)
  unexpected _ _ := fun m => .error m.misled

def execute : List Node → Scope → Watched φ → Except Bool (Interpretation φ × Bool)
  | [], scope, m => .ok (⟨m.machine, scope, []⟩, m.misled)
  | node :: nodes, scope, m =>
    match evaluator.statement node scope m with
    | .ok (.ok scope m) => execute nodes scope m
    | .ok (.error errors m) => .ok (⟨m.machine, scope, errors⟩, m.misled)
    | .error misled => .error misled

end Guarded

section Interpretation

variable {φ : Type} [Host φ]

/-- Interpretation with every index checked, and whether a function has misled
it. -/
def interpretWatched (program : Node) (scope : Scope) (m : Machine φ) :
    Except Bool (Interpretation φ × Bool) :=
  match program.kind with
  | .program => do
    let begun := m.journal.record (.interpreting program.children.length)
    let start : Watched φ := ⟨{ m with journal := begun }, false⟩
    let (result, misled) ← Guarded.execute program.children scope start
    match result.errors with
    | [] => return (result, misled)
    | errors =>
      let journal := result.machine.journal.record (.interpretationStopped errors.length)
      return ({ result with machine := { result.machine with journal } }, misled)
  | _ => .error false

def interpretGuarded (program : Node) (scope : Scope) (m : Machine φ) :
    Option (Interpretation φ) :=
  (interpretWatched program scope m).toOption.map Prod.fst

end Interpretation

/-- What is relied on of a host: the handles its functions keep, and whether
they always answer with what is there. -/
structure Reliance (φ : Type) [Host φ] where
  fits : φ → Nat → Prop
  fits_mono : ∀ body n n', fits body n → n ≤ n' → fits body n'
  sincere : Prop
  serves : ∀ (body : φ) (a : Arena φ) (args : Arguments), a.Closed fits → fits body a.size →
    InRange a.size args.handles → sincere ∨ IsValid a (Host.call body a args) →
    Serves fits a (Host.call body a args)

section Agreement

variable {φ α β : Type}

/-- How many objects a handle may be of. Once misled, an evaluation is not to
blame for any handle. -/
def Watched.reach (m : Watched φ) : WithTop Nat :=
  if m.misled then ⊤ else m.machine.arena.size

theorem Watched.reach_of_not_misled {m : Watched φ} (h : m.misled = false) :
    m.reach = m.machine.arena.size := by
  simp [reach, h]

variable [Host φ]

def Reliance.none : Reliance φ where
  fits _ _ := True
  fits_mono _ _ _ _ _ := trivial
  sincere := False
  serves _ _ _ _ _ _ h := h.resolve_left id

def Reliance.lawful [LawfulHost φ] : Reliance φ where
  fits := LawfulHost.Fits
  fits_mono := LawfulHost.fits_mono
  sincere := True
  serves body a args hclosed hbody hargs _ := LawfulHost.serves body a args hclosed hbody hargs

/-- As long as nobody was misled the arena is closed, and sincere functions
mislead nobody. -/
structure Reliance.Sound (T : Reliance φ) (m : Watched φ) : Prop where
  closed : m.misled = false → m.machine.arena.Closed T.fits
  sincere : T.sincere → m.misled = false

variable {T : Reliance φ}

/-- A guarded evaluation that began in `m` ended as the other one did, with
nothing lost, or it went astray because of an answer that was not sincere. `Q`
tells what is known of a value. -/
inductive Answers (T : Reliance φ) (m : Watched φ) (Q : WithTop Nat → α → Prop) :
    EStateM.Result (List RuntimeError) (Machine φ) α →
      Except Bool (EStateM.Result (List RuntimeError) (Watched φ) α) → Prop where
  | ok {a : α} {m' : Watched φ} (hsound : T.Sound m') (hreach : m.reach ≤ m'.reach)
      (ha : Q m'.reach a) : Answers T m Q (.ok a m'.machine) (.ok (.ok a m'))
  | error {errors : List RuntimeError} {m' : Watched φ} (hsound : T.Sound m')
      (hreach : m.reach ≤ m'.reach) :
      Answers T m Q (.error errors m'.machine) (.ok (.error errors m'))
  | astray (hsincere : ¬ T.sincere)
      (result : EStateM.Result (List RuntimeError) (Machine φ) α) :
      Answers T m Q result (.error true)

/-- What is kept by an evaluation that began in `m` with nobody misled. -/
def Keeps (T : Reliance φ) (m : Machine φ) (Q : WithTop Nat → α → Prop) :
    EStateM.Result (List RuntimeError) (Machine φ) α → Prop
  | .ok a m' => m'.arena.Closed T.fits ∧ m.arena.size ≤ m'.arena.size ∧ Q m'.arena.size a
  | .error _ m' => m'.arena.Closed T.fits ∧ m.arena.size ≤ m'.arena.size

theorem Reliance.sound_of_closed {m : Machine φ} (h : m.arena.Closed T.fits) :
    T.Sound ⟨m, false⟩ :=
  ⟨fun _ => h, fun _ => rfl⟩

namespace Answers

variable {m m' : Watched φ} {Q : WithTop Nat → α → Prop}
  {result : EStateM.Result (List RuntimeError) (Machine φ) α}
  {answer : Except Bool (EStateM.Result (List RuntimeError) (Watched φ) α)}

theorem of_reach_le (h : Answers T m' Q result answer) (hreach : m.reach ≤ m'.reach) :
    Answers T m Q result answer := by
  cases h with
  | ok hsound hreach' ha => exact .ok hsound (hreach.trans hreach') ha
  | error hsound hreach' => exact .error hsound (hreach.trans hreach')
  | astray hsincere => exact .astray hsincere _

theorem of_keeps (hmisled : m.misled = false) (h : Keeps T m.machine Q result) :
    Answers T m Q result (.ok (Watched.after false result)) := by
  have hreach := Watched.reach_of_not_misled hmisled
  cases result with
  | ok a m' =>
      obtain ⟨hclosed, hsize, ha⟩ := h
      have hle : m.reach ≤ (⟨m', false⟩ : Watched φ).reach := by
        rw [hreach]
        exact WithTop.coe_le_coe.mpr hsize
      exact .ok (T.sound_of_closed hclosed) hle ha
  | error errors m' =>
      have hle : m.reach ≤ (⟨m', false⟩ : Watched φ).reach := by
        rw [hreach]
        exact WithTop.coe_le_coe.mpr h.2
      exact .error (T.sound_of_closed h.1) hle

/-- Once misled, an evaluation is told nothing that it could rely on. -/
theorem of_misled (hsincere : ¬ T.sincere) (hvalue : ∀ a, Q ⊤ a) :
    Answers T m Q result (.ok (Watched.after true result)) := by
  have hsound (m' : Machine φ) : T.Sound ⟨m', true⟩ :=
    ⟨fun h => (nomatch h), fun h => (hsincere h).elim⟩
  cases result with
  | ok a m' => exact .ok (hsound m') le_top (hvalue a)
  | error errors m' => exact .error (hsound m') le_top

end Answers

def Agrees (T : Reliance φ) (n : WithTop Nat) (Q : WithTop Nat → α → Prop) (p : Eval φ α)
    (g : Guarded φ α) : Prop :=
  ∀ m, T.Sound m → n ≤ m.reach → Answers T m Q (p m.machine) (g m)

namespace Agrees

variable {n : WithTop Nat} {p : Eval φ α} {g : Guarded φ α} {Q : WithTop Nat → α → Prop}
  {R : WithTop Nat → β → Prop}

theorem pure {a : α} (h : ∀ n', n ≤ n' → Q n' a) :
    Agrees T n Q (Pure.pure a : Eval φ α) (Pure.pure a) :=
  fun _ hsound hn => .ok hsound (le_refl _) (h _ hn)

theorem bind {f : α → Eval φ β} {f' : α → Guarded φ β} (hp : Agrees T n Q p g)
    (hf : ∀ n' a, n ≤ n' → Q n' a → Agrees T n' R (f a) (f' a)) :
    Agrees T n R (p >>= f) (g >>= f') := by
  intro m hsound hn
  have hanswers := hp m hsound hn
  rw [bind_apply]
  change Answers T m R _ (Guarded.bind g f' m)
  unfold Guarded.bind
  generalize p m.machine = result at hanswers
  generalize g m = answer at hanswers
  cases hanswers with
  | @ok a m' hsound' hreach ha =>
      exact (hf _ a (hn.trans hreach) ha m' hsound' (le_refl _)).of_reach_le hreach
  | error hsound' hreach => exact .error hsound' hreach
  | astray hsincere => exact .astray hsincere _

theorem needing {handles : List Handle} (hrange : ∀ h ∈ handles, (h.index : WithTop Nat) < n)
    (hvalue : ∀ a, Q ⊤ a)
    (h : ∀ m : Machine φ, m.arena.Closed T.fits → n ≤ m.arena.size → Keeps T m Q (p m)) :
    Agrees T n Q p (Guarded.needing handles p) := by
  intro m hsound hn
  unfold Guarded.needing
  cases hmisled : m.misled with
  | false =>
      rw [Watched.reach_of_not_misled hmisled] at hn
      have hinrange : InRange m.machine.arena.size handles := fun e he =>
        WithTop.coe_lt_coe.mp ((hrange e he).trans_le hn)
      rw [if_pos hinrange]
      exact .of_keeps hmisled (h m.machine (hsound.closed hmisled) hn)
  | true =>
      have hsincere : ¬ T.sincere := fun hsincere => by
        simp [hsound.sincere hsincere] at hmisled
      split
      · exact .of_misled hsincere hvalue
      · exact .astray hsincere _

theorem record (e : Event) :
    Agrees T n (fun _ _ => True) (Eval.record e : Eval φ Unit)
      (Guarded.needing [] (Eval.record e)) :=
  needing (by simp) (fun _ => trivial) fun _ hclosed _ => ⟨hclosed, Nat.le_refl _, trivial⟩

theorem create (object : Object φ) {handles : List Handle}
    (hrange : ∀ h ∈ handles, (h.index : WithTop Nat) < n)
    (hobject : ∀ size : Nat, n ≤ size → object.Fits T.fits size) :
    Agrees T n (fun n h => (h.index : WithTop Nat) < n) (Eval.create object)
      (Guarded.needing handles (Eval.create object)) := by
  refine needing hrange (fun a => WithTop.coe_lt_top _) fun m hclosed hn => ?_
  rw [create_apply, Keeps, Arena.size_create]
  refine ⟨hclosed.create T.fits_mono (hobject _ hn), Nat.le_succ _, ?_⟩
  exact WithTop.coe_lt_coe.mpr (Nat.lt_succ_self _)

theorem inspect {location : Location} {ask : Arena φ → Except ObjectError α} {handle : Handle}
    (hrange : (handle.index : WithTop Nat) < n) (hvalue : ∀ a, Q ⊤ a)
    (h : ∀ (a : Arena φ) found, a.Closed T.fits → ask a = .ok found → Q a.size found) :
    Agrees T n Q (Eval.inspect location ask)
      (Guarded.needing [handle] (Eval.inspect location ask)) := by
  refine needing (by simpa using hrange) hvalue fun m hclosed _ => ?_
  rw [inspect_apply]
  cases hask : ask m.arena with
  | ok found => exact ⟨hclosed, Nat.le_refl _, h _ found hclosed hask⟩
  | error e => exact ⟨hclosed, Nat.le_refl _⟩

theorem lookUp {location : Location} {scope : Scope} {name : String}
    (hscope : ∀ h ∈ scope.handles, (h.index : WithTop Nat) < n) :
    Agrees T n (fun n h => (h.index : WithTop Nat) < n)
      (Eval.lookUp location scope name : Eval φ Handle)
      (Guarded.needing [] (Eval.lookUp location scope name)) := by
  refine needing (by simp) (fun a => WithTop.coe_lt_top _) fun m hclosed hn => ?_
  rw [lookUp_apply]
  cases hget : scope.get name with
  | ok handle =>
      exact ⟨hclosed, Nat.le_refl _, (hscope _ (Scope.mem_handles_of_get hget)).trans_le hn⟩
  | error e => exact ⟨hclosed, Nat.le_refl _⟩

theorem assign {location : Location} {scope : Scope} {name : String} {value : Handle}
    (hscope : ∀ h ∈ scope.handles, (h.index : WithTop Nat) < n)
    (hvalue : (value.index : WithTop Nat) < n) :
    Agrees T n (fun n scope => ∀ h ∈ scope.handles, (h.index : WithTop Nat) < n)
      (Eval.assign location scope name value : Eval φ Scope)
      (Guarded.needing [value] (Eval.assign location scope name value)) := by
  refine needing (by simpa using hvalue) (fun _ _ _ => WithTop.coe_lt_top _)
    fun m hclosed hn => ?_
  rw [assign_apply]
  split
  · exact ⟨hclosed, Nat.le_refl _⟩
  · cases hput : scope.put name value with
    | ok scope' =>
        refine ⟨hclosed, Nat.le_refl _, fun h hh => ?_⟩
        rcases List.mem_cons.mp (Scope.handles_put_subset hput hh) with rfl | hbefore
        · exact hvalue.trans_le hn
        · exact (hscope h hbefore).trans_le hn
    | error e => exact ⟨hclosed, Nat.le_refl _⟩

/-- The answer of a function is good or it misleads, which is seen at once. -/
theorem invoke {location : Location} {places : List Location} {body : φ} {args : Arguments}
    (hbody : ∀ size : Nat, n ≤ size → T.fits body size)
    (hargs : ∀ h ∈ args.handles, (h.index : WithTop Nat) < n) :
    Agrees T n (fun n h => (h.index : WithTop Nat) < n) (Eval.invoke location places body args)
      (Guarded.invoke location places body args) := by
  intro m hsound hn
  unfold Guarded.invoke
  cases hmisled : m.misled with
  | false =>
      rw [Watched.reach_of_not_misled hmisled] at hn
      have hrange : InRange m.machine.arena.size args.handles := fun e he =>
        WithTop.coe_lt_coe.mp ((hargs e he).trans_le hn)
      have hserves := T.serves body m.machine.arena args (hsound.closed hmisled) (hbody _ hn) hrange
      rw [if_pos hrange, Bool.false_or]
      by_cases hvalid : IsValid m.machine.arena (Host.call body m.machine.arena args)
      · rw [decide_eq_true hvalid]
        refine .of_keeps hmisled ?_
        obtain ⟨hclosed, hsize, hvalue⟩ := hserves (.inr hvalid)
        rw [invoke_apply]
        split
        · rename_i hsuccess
          exact ⟨hclosed, hsize, WithTop.coe_lt_coe.mpr (hvalue hsuccess)⟩
        · exact ⟨hclosed, hsize⟩
      · rw [decide_eq_false hvalid]
        exact .of_misled (fun hsincere => hvalid (hserves (.inl hsincere)).isValid)
          fun a => WithTop.coe_lt_top _
  | true =>
      have hsincere : ¬ T.sincere := fun hsincere => by
        simp [hsound.sincere hsincere] at hmisled
      split
      · exact .of_misled hsincere fun a => WithTop.coe_lt_top _
      · exact .astray hsincere _

end Agrees

def Agrees.simulation (T : Reliance φ) :
    Simulation (evaluator : Evaluator φ (Eval φ)) Guarded.evaluator (WithTop Nat) where
  Rel n Q p g := Agrees T n Q p g
  Holds n h := (h.index : WithTop Nat) < n
  Calls n body := ∀ size : Nat, n ≤ size → T.fits body size
  Tolerant := False
  holds_mono hn h := h.trans_le hn
  calls_mono hn h size hsize := h size (hn.trans hsize)
  pure := .pure
  bind := .bind
  record _ e := .record e
  lookUp hscope _ _ := .lookUp hscope
  attr h _ _ := .inspect h (fun _ => WithTop.coe_lt_top _) fun _ _ hclosed hattr =>
    WithTop.coe_lt_coe.mpr (hclosed.attr hattr)
  entries h _ := .inspect h (fun _ _ _ => WithTop.coe_lt_top _) fun _ _ hclosed hlist e he =>
    WithTop.coe_lt_coe.mpr (hclosed.asList hlist e he)
  function h _ := .inspect h (fun _ size hsize => absurd hsize (WithTop.not_top_le_coe size))
    fun _ body hclosed hfunction _ hsize =>
      T.fits_mono body _ _ (hclosed.asFunction hfunction) (WithTop.coe_le_coe.mp hsize)
  string _ text := .create (.string text) (List.forall_mem_nil _) fun _ _ => trivial
  list h := .create (.list _) h fun _ hsize e he =>
    WithTop.coe_lt_coe.mp ((h e he).trans_le hsize)
  struct h := .create (.struct _) h fun _ hsize e he =>
    WithTop.coe_lt_coe.mp ((h e he).trans_le hsize)
  invoke hbody hargs _ _ := .invoke hbody hargs
  assign hscope hvalue _ _ := .assign hscope hvalue
  unexpected _ _ h := h.elim

def RunAnswers (T : Reliance φ) (i : Interpretation φ)
    (answer : Except Bool (Interpretation φ × Bool)) : Prop :=
  (¬ T.sincere ∧ answer = .error true) ∨
    ∃ misled, (T.sincere → misled = false) ∧ answer = .ok (i, misled)

theorem execute_answers {nodes : List Node}
    (h : ∀ node ∈ nodes, node.WellShaped ∧ IsStatement node.kind) {scope : Scope} {m : Watched φ}
    (hsound : T.Sound m) (hscope : ∀ h ∈ scope.handles, (h.index : WithTop Nat) < m.reach) :
    RunAnswers T (execute nodes scope m.machine) (Guarded.execute nodes scope m) := by
  induction nodes generalizing scope m with
  | nil =>
      rw [execute_nil, Guarded.execute]
      exact .inr ⟨m.misled, hsound.sincere, rfl⟩
  | cons node nodes ih =>
      obtain ⟨hnode, hnodes⟩ := List.forall_mem_cons.mp h
      have hbinds : (Agrees.simulation T).Binds m.reach scope := hscope
      have hanswers := (Agrees.simulation T).statement (.inr hnode) hbinds m hsound (le_refl _)
      rw [execute_cons, Interpretation.step, executeStatement_eq_statement, Guarded.execute]
      generalize evaluator.statement node scope m.machine = result at hanswers
      generalize Guarded.evaluator.statement node scope m = answer at hanswers
      cases hanswers with
      | ok hsound' hreach hscope' => exact ih hnodes hsound' hscope'
      | @error errors m' hsound' hreach => exact .inr ⟨m'.misled, hsound'.sincere, rfl⟩
      | astray hsincere => exact .inl ⟨hsincere, rfl⟩

theorem interpretWatched_answers {program : Node} (hshape : program.WellShaped)
    (hkind : program.kind = .program) {scope : Scope} {m : Machine φ}
    (hclosed : m.arena.Closed T.fits) (hscope : scope.Fits m.arena.size) :
    RunAnswers T (interpret program scope m) (interpretWatched program scope m) := by
  let begun : Machine φ :=
    { m with journal := m.journal.record (.interpreting program.children.length) }
  have hstatements : ∀ node ∈ program.children, node.WellShaped ∧ IsStatement node.kind := by
    rcases program with ⟨_, location, text?, children⟩
    obtain rfl : _ = NodeKind.program := hkind
    exact fun node hnode => ⟨hshape.child hnode, hshape.obeys.2 node hnode⟩
  have hrun : RunAnswers T (execute program.children scope begun)
      (Guarded.execute program.children scope ⟨begun, false⟩) :=
    execute_answers hstatements (m := ⟨begun, false⟩) (T.sound_of_closed hclosed) fun e he =>
      WithTop.coe_lt_coe.mpr (Scope.fits_iff.mp hscope e he)
  unfold interpretWatched interpret executeProgram
  simp only [hkind]
  generalize execute program.children scope begun = result at hrun
  obtain ⟨hsincere, hanswer⟩ | ⟨misled, hmisled, hanswer⟩ := hrun
  · rw [hanswer]
    exact .inl ⟨hsincere, rfl⟩
  · rw [hanswer]
    refine .inr ⟨misled, hmisled, ?_⟩
    rcases result with ⟨machine, left, errors⟩
    cases errors with
    | nil => rfl
    | cons e errors => rfl

/-- On well-shaped programs, closed arenas and scopes that fit, interpretation
never looks for anything that is not there, unless a function has answered with
such a thing before. -/
theorem interpretWatched_of_holdsItsOwn {program : Node} (hshape : program.WellShaped)
    (hkind : program.kind = .program) {scope : Scope} {m : Machine φ}
    (hclosed : m.arena.HoldsItsOwn) (hscope : scope.Fits m.arena.size) :
    interpretWatched program scope m = .error true ∨
      ∃ misled, interpretWatched program scope m = .ok (interpret program scope m, misled) := by
  obtain ⟨-, hanswer⟩ | ⟨misled, -, hanswer⟩ :=
    interpretWatched_answers (T := .none) hshape hkind hclosed hscope
  · exact .inl hanswer
  · exact .inr ⟨misled, hanswer⟩

/-- A closed arena of a lawful host. -/
def Arena.IsLawful [LawfulHost φ] (a : Arena φ) : Prop := a.Closed LawfulHost.Fits

theorem interpretWatched_of_isLawful [LawfulHost φ] {program : Node} (hshape : program.WellShaped)
    (hkind : program.kind = .program) {scope : Scope} {m : Machine φ}
    (hlawful : m.arena.IsLawful) (hscope : scope.Fits m.arena.size) :
    interpretWatched program scope m = .ok (interpret program scope m, false) := by
  obtain ⟨hsincere, -⟩ | ⟨misled, hmisled, hanswer⟩ :=
    interpretWatched_answers (T := .lawful) hshape hkind hlawful hscope
  · exact (hsincere trivial).elim
  · rw [hanswer, hmisled trivial]

theorem interpretGuarded_eq [LawfulHost φ] {program : Node} (hshape : program.WellShaped)
    (hkind : program.kind = .program) {scope : Scope} {m : Machine φ}
    (hlawful : m.arena.IsLawful) (hscope : scope.Fits m.arena.size) :
    interpretGuarded program scope m = some (interpret program scope m) := by
  rw [interpretGuarded, interpretWatched_of_isLawful hshape hkind hlawful hscope]
  rfl

end Agreement

end BuildScript
