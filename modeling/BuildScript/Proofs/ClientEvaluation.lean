import BuildScript.Proofs.ClientHosts
import BuildScript.Proofs.Throwing

namespace BuildScript

open Eval Client

variable {φ α β : Type} {keeps : φ → List Handle} {known : List Handle}

/-- What a client has done when an evaluation ends. If there is a value, `Q`
tells what is known of it by one who knows all these handles. -/
def EndsWorked (keeps : φ → List Handle) (c : Client φ) (Q : List Handle → α → Prop) :
    EStateM.Result (List RuntimeError) (Machine φ) α → Prop
  | .ok a m => ∃ known, Runs keeps c ⟨known, m.arena⟩ ∧ Q known a
  | .error _ m => ∃ known, Runs keeps c ⟨known, m.arena⟩

def IsWork (keeps : φ → List Handle) (known : List Handle) (Q : List Handle → α → Prop)
    (p : Eval φ α) : Prop :=
  ∀ m, EndsWorked keeps ⟨known, m.arena⟩ Q (p m)

theorem EndsWorked.after {c c' : Client φ} {Q : List Handle → α → Prop}
    {result : EStateM.Result (List RuntimeError) (Machine φ) α}
    (h : EndsWorked keeps c' Q result) (hruns : Runs keeps c c') :
    EndsWorked keeps c Q result := by
  cases result with
  | ok a m =>
      obtain ⟨known, hruns', hvalue⟩ := h
      exact ⟨known, hruns.trans hruns', hvalue⟩
  | error errors m =>
      obtain ⟨known, hruns'⟩ := h
      exact ⟨known, hruns.trans hruns'⟩

namespace IsWork

variable {Q : List Handle → α → Prop} {R : List Handle → β → Prop}

theorem pure {a : α} (h : Q known a) : IsWork keeps known Q (Pure.pure a : Eval φ α) :=
  fun _ => ⟨known, .refl, h⟩

theorem fail (location : Location) (fault : RuntimeFault) :
    IsWork keeps known Q (Eval.fail location fault : Eval φ α) :=
  fun _ => ⟨known, .refl⟩

theorem bind {p : Eval φ α} {f : α → Eval φ β} (hp : IsWork keeps known Q p)
    (hf : ∀ known' a, known ⊆ known' → Q known' a → IsWork keeps known' R (f a)) :
    IsWork keeps known R (p >>= f) := by
  intro m
  have hfirst := hp m
  rw [bind_apply]
  cases hrun : p m with
  | error errors m' =>
      rw [hrun] at hfirst
      exact hfirst
  | ok a m' =>
      rw [hrun] at hfirst
      obtain ⟨known', hruns, ha⟩ := hfirst
      exact (hf known' a hruns.known_subset ha m').after hruns

theorem record (e : Event) :
    IsWork keeps known (fun _ _ => True) (Eval.record e : Eval φ Unit) :=
  fun _ => ⟨known, .refl, trivial⟩

theorem create {object : Object φ} (hnull : object.type ≠ .null)
    (hobject : object.references keeps ⊆ known) :
    IsWork keeps known (fun known h => h ∈ known) (Eval.create object) := by
  intro m
  rw [create_apply]
  exact ⟨_, .single (.create hnull hobject), List.mem_cons_self⟩

theorem inspect {location : Location} {ask : Arena φ → Except ObjectError α} {h : Handle}
    (hh : h ∈ known)
    (hask : ∀ (a : Arena φ) found known, ask a = .ok found →
      (a.get h).references keeps ⊆ known → Q known found) :
    IsWork keeps known Q (Eval.inspect location ask) := by
  intro m
  rw [inspect_apply]
  cases hanswer : ask m.arena with
  | ok found =>
      exact ⟨_, .single (.follow hh), hask m.arena found _ hanswer (List.subset_append_left _ _)⟩
  | error e => exact ⟨known, .refl⟩

theorem lookUp {location : Location} {scope : Scope} {name : String}
    (hscope : scope.handles ⊆ known) :
    IsWork keeps known (fun known h => h ∈ known)
      (Eval.lookUp location scope name : Eval φ Handle) := by
  intro m
  rw [lookUp_apply]
  cases hget : scope.get name with
  | ok h => exact ⟨known, .refl, hscope (Scope.mem_handles_of_get hget)⟩
  | error e => exact ⟨known, .refl⟩

theorem assign {location : Location} {scope : Scope} {name : String} {value : Handle}
    (hscope : scope.handles ⊆ known) (hvalue : value ∈ known) :
    IsWork keeps known (fun known scope => scope.handles ⊆ known)
      (Eval.assign location scope name value : Eval φ Scope) := by
  intro m
  rw [assign_apply]
  split
  · exact ⟨known, .refl⟩
  · cases hput : scope.put name value with
    | ok scope' =>
        refine ⟨known, .refl, List.Subset.trans (Scope.handles_put_subset hput) ?_⟩
        exact List.cons_subset.mpr ⟨hvalue, hscope⟩
    | error e => exact ⟨known, .refl⟩

end IsWork

theorem Arena.mem_references_of_attr {a : Arena φ} {h found : Handle} {name : String}
    (hattr : a.attr h name = .ok found) : found ∈ (a.get h).references keeps :=
  Object.handles_subset_references keeps _ (Arena.mem_handles_of_attr hattr)

theorem Arena.asList_subset {a : Arena φ} {h : Handle} {entries : List Handle}
    (hlist : a.asList h = .ok entries) : entries ⊆ (a.get h).references keeps := by
  rw [← Arena.handles_of_asList hlist]
  exact Object.handles_subset_references keeps _

theorem Arena.asFunction_subset {a : Arena φ} {h : Handle} {body : φ}
    (hfunction : a.asFunction h = .ok body) : keeps body ⊆ (a.get h).references keeps := by
  unfold Arena.asFunction Object.asFunction at hfunction
  split at hfunction
  · rename_i hobject
    cases hfunction
    rw [hobject]
    exact List.Subset.refl _
  · cases hfunction

section Running

variable [Host φ] [ClientHost φ]

theorem IsWork.invoke {location : Location} {places : List Location} {body : φ} {args : Arguments}
    (hbody : ClientHost.keeps body ⊆ known) (hargs : args.handles ⊆ known) :
    IsWork ClientHost.keeps known (fun known h => h ∈ known)
      (Eval.invoke location places body args) := by
  intro m
  obtain ⟨known', hruns, hvalue⟩ := (ClientHost.works body m.arena args).of_subset
    (List.append_subset.mpr ⟨hbody, hargs⟩)
  rw [invoke_apply]
  split
  · exact ⟨known', hruns, hvalue⟩
  · exact ⟨known', hruns⟩

/-- The handles a client knows. It never forgets one. -/
def Knowledge : Type := List Handle

instance : Preorder Knowledge where
  le known known' := List.Subset known known'
  le_refl := List.Subset.refl
  le_trans _ _ _ := List.Subset.trans

/-- Whatever an evaluator does is the work of a client that knows the handles it
is given. -/
def IsWork.simulation : Simulation (evaluator : Evaluator φ (Eval φ)) evaluator Knowledge where
  Rel known Q p _ := IsWork ClientHost.keeps known Q p
  Holds known h := List.Mem h known
  Calls known body := List.Subset (ClientHost.keeps body) known
  Tolerant := True
  holds_mono hknown h := hknown h
  calls_mono hknown h := List.Subset.trans h hknown
  pure h := .pure (h _ (le_refl _))
  bind hp hf := .bind hp hf
  record _ e := .record e
  lookUp hscope _ _ := .lookUp hscope
  attr h _ _ := .inspect h fun _ _ _ hattr hknown => hknown (Arena.mem_references_of_attr hattr)
  entries h _ := .inspect h fun _ _ _ hlist hknown =>
    List.Subset.trans (Arena.asList_subset hlist) hknown
  function h _ := .inspect h fun _ _ _ hfunction hknown =>
    List.Subset.trans (Arena.asFunction_subset hfunction) hknown
  string _ _ := .create (by simp [Object.type]) (List.nil_subset _)
  list h := .create (by simp [Object.type]) h
  struct h := .create (by simp [Object.type]) h
  invoke hbody hargs _ _ := .invoke hbody hargs
  assign hscope hvalue _ _ := .assign hscope hvalue
  unexpected _ _ _ _ _ := .fail _ _

/-- Evaluation, of any tree and with any end, is the work of a client that
knows the handles in the scope. -/
theorem evaluate_isWork (node : Node) {scope : Scope} (hscope : scope.handles ⊆ known) :
    IsWork ClientHost.keeps known (fun known h => h ∈ known)
      (evaluate node scope : Eval φ Handle) := by
  rw [evaluate_eq_value]
  exact IsWork.simulation.value (.inl trivial) hscope

theorem evaluateArguments_isWork (nodes : List Node) {scope : Scope} {args : Arguments}
    (hscope : scope.handles ⊆ known) (hargs : args.handles ⊆ known) :
    IsWork ClientHost.keeps known (fun known args => args.handles ⊆ known)
      (evaluateArguments nodes scope args : Eval φ Arguments) := by
  rw [evaluateArguments_eq_arguments]
  exact IsWork.simulation.arguments (fun _ _ => .inl trivial) hscope hargs

theorem executeStatement_isWork (node : Node) {scope : Scope} (hscope : scope.handles ⊆ known) :
    IsWork ClientHost.keeps known (fun known scope => scope.handles ⊆ known)
      (executeStatement node scope : Eval φ Scope) := by
  rw [executeStatement_eq_statement]
  exact IsWork.simulation.statement (.inl trivial) hscope

/-- Statements that a client with some known handles can run, whether or not
they are stopped. -/
def RunWorks (c : Client φ) (i : Interpretation φ) : Prop :=
  ∃ known, Runs ClientHost.keeps c ⟨known, i.machine.arena⟩ ∧ i.scope.handles ⊆ known

theorem execute_works (nodes : List Node) (scope : Scope) (m : Machine φ)
    (hscope : scope.handles ⊆ known) : RunWorks ⟨known, m.arena⟩ (execute nodes scope m) := by
  induction nodes generalizing scope m known with
  | nil =>
      rw [execute_nil]
      exact ⟨known, .refl, hscope⟩
  | cons node nodes ih =>
      have hstatement := executeStatement_isWork node hscope m
      rw [execute_cons, Interpretation.step]
      cases hrun : executeStatement node scope m with
      | ok scope' m' =>
          rw [hrun] at hstatement
          obtain ⟨known', hruns, hscope'⟩ := hstatement
          obtain ⟨known'', hruns', hend⟩ := ih scope' m' hscope'
          exact ⟨known'', hruns.trans hruns', hend⟩
      | error errors m' =>
          rw [hrun] at hstatement
          obtain ⟨known', hruns⟩ := hstatement
          exact ⟨known', hruns, List.Subset.trans hscope hruns.known_subset⟩

theorem interpret_works (program : Node) (scope : Scope) (m : Machine φ)
    (hscope : scope.handles ⊆ known) : RunWorks ⟨known, m.arena⟩ (interpret program scope m) := by
  have hrun : ∀ m : Machine φ, RunWorks ⟨known, m.arena⟩ (executeProgram program scope m) := by
    intro m
    unfold executeProgram
    split
    · exact execute_works _ _ _ hscope
    · exact ⟨known, .refl, hscope⟩
  obtain ⟨known', hruns, hend⟩ :=
    hrun { m with journal := m.journal.record (.interpreting program.children.length) }
  refine ⟨known', ?_⟩
  simp only [interpret]
  split
  · exact ⟨hruns, hend⟩
  · exact ⟨hruns, hend⟩

end Running

end BuildScript
