import BuildScript.Proofs.Evaluators

namespace BuildScript

open Eval Node

variable {φ α β : Type} {P : List RuntimeError → Prop}

/-- Whatever value an evaluation has has the property. -/
def Yields (Q : α → Prop) (p : Eval φ α) : Prop := ∀ m a m', p m = .ok a m' → Q a

namespace Yields

variable {Q : α → Prop} {R : β → Prop} {p : Eval φ α}

theorem of_forall (h : ∀ a, Q a) : Yields Q p := fun _ a _ _ => h a

theorem pure {a : α} (h : Q a) : Yields Q (Pure.pure a : Eval φ α) := by
  intro m a' m' hpure
  cases hpure
  exact h

theorem bind {f : α → Eval φ β} (hp : Yields Q p) (hf : ∀ a, Q a → Yields R (f a)) :
    Yields R (p >>= f) := by
  intro m b m' h
  obtain ⟨a, m₁, ha, hb⟩ := bind_eq_ok h
  exact hf a (hp m a m₁ ha) m₁ b m' hb

end Yields

/-- Whatever an evaluation stops with has the property. -/
def Throws (P : List RuntimeError → Prop) (p : Eval φ α) : Prop :=
  ∀ m errors m', p m = .error errors m' → P errors

/-- What the errors of actions have in common: the property holds of a single
error, if that is not about an unexpected node, and of the errors of a
reply. -/
structure ErrorLaw (P : List RuntimeError → Prop) : Prop where
  single : ∀ fault location, (∀ kind, fault ≠ .unexpectedNode kind) → P [⟨fault, location⟩]
  reply : ∀ location places reply, Reply.isSuccess reply = false →
    P (replyErrors location places reply)

namespace Throws

theorem pure (a : α) : Throws P (Pure.pure a : Eval φ α) := fun _ _ _ h => by cases h

theorem record (e : Event) : Throws P (Eval.record e : Eval φ Unit) := fun _ _ _ h => by cases h

theorem create (object : Object φ) : Throws P (Eval.create object) := fun _ _ _ h => by cases h

theorem fail {location : Location} {fault : RuntimeFault} (h : P [⟨fault, location⟩]) :
    Throws P (Eval.fail location fault : Eval φ α) := by
  intro m errors m' hfail
  cases hfail
  exact h

theorem bind_of_yields {Q : α → Prop} {p : Eval φ α} {f : α → Eval φ β} (hp : Throws P p)
    (hvalue : Yields Q p) (hf : ∀ a, Q a → Throws P (f a)) : Throws P (p >>= f) := by
  intro m errors m' h
  rw [bind_apply] at h
  cases hrun : p m with
  | ok a m₁ =>
      rw [hrun] at h
      exact hf a (hvalue m a m₁ hrun) m₁ errors m' h
  | error errors' m₁ =>
      rw [hrun] at h
      cases h
      exact hp m _ _ hrun

theorem bind {p : Eval φ α} {f : α → Eval φ β} (hp : Throws P p) (hf : ∀ a, Throws P (f a)) :
    Throws P (p >>= f) :=
  hp.bind_of_yields (.of_forall fun _ => trivial) fun a _ => hf a

variable (law : ErrorLaw P)

include law

theorem inspect (location : Location) (ask : Arena φ → Except ObjectError α) :
    Throws P (Eval.inspect location ask) := by
  intro m errors m' h
  rw [inspect_apply] at h
  split at h
  · cases h
  · cases h
    exact law.single _ _ (by simp)

theorem lookUp (location : Location) (scope : Scope) (name : String) :
    Throws P (Eval.lookUp location scope name : Eval φ Handle) := by
  intro m errors m' h
  rw [lookUp_apply] at h
  split at h
  · cases h
  · cases h
    exact law.single _ _ (by simp)

theorem assign (location : Location) (scope : Scope) (name : String) (value : Handle) :
    Throws P (Eval.assign location scope name value : Eval φ Scope) := by
  intro m errors m' h
  rw [assign_apply] at h
  split at h
  · cases h
    exact law.single _ _ (by simp)
  · split at h
    · cases h
    · cases h
      exact law.single _ _ (by simp)

theorem invoke [Host φ] (location : Location) (places : List Location) (body : φ)
    (args : Arguments) : Throws P (Eval.invoke location places body args) := by
  intro m errors m' h
  rw [invoke_apply] at h
  split at h
  · cases h
  · rename_i hsuccess
    cases h
    exact law.reply _ _ _ (by simpa using hsuccess)

omit law in
theorem mapM {γ : Type} {f : γ → Eval φ β} (items : List γ) (h : ∀ c, Throws P (f c)) :
    Throws P (items.mapM f) := by
  induction items with
  | nil => exact pure []
  | cons item items ih =>
      rw [List.mapM_cons]
      exact bind (h item) fun first => bind ih fun others => pure (first :: others)

end Throws

/-- Errors about unexpected nodes are let pass. -/
def Tolerant (P : List RuntimeError → Prop) : Prop :=
  ∀ kind location, P [⟨.unexpectedNode kind, location⟩]

theorem Throws.step {φ : Type} {scope : Scope} {statement : Eval φ Scope}
    {rest : Scope → Machine φ → Interpretation φ} (hstatement : Throws P statement)
    (hrest : ∀ scope m, (rest scope m).errors = [] ∨ P (rest scope m).errors) (m : Machine φ) :
    (Interpretation.step scope statement rest m).errors = [] ∨
      P (Interpretation.step scope statement rest m).errors := by
  unfold Interpretation.step
  cases h : statement m with
  | ok scope m' => exact hrest scope m'
  | error errors m' => exact .inr (hstatement m errors m' h)

theorem Throws.finish {φ : Type} {run : Machine φ → Interpretation φ}
    (h : ∀ m, (run m).errors = [] ∨ P (run m).errors) :
    Throws P (fun m => (run m).finish : Eval φ Scope) := by
  intro m errors m' hfinish
  obtain ⟨rfl, hnonempty, -⟩ := Interpretation.finish_eq_error hfinish
  exact (h m).resolve_left hnonempty

/-- Statements that are run one after the other, in a scope that is given up
when one of them stops. -/
theorem Interpretation.finish_step {scope : Scope} {p : Eval φ Scope} (hp : Throws (· ≠ []) p)
    {rest : Scope → Machine φ → Interpretation φ} {rest' : Scope → Eval φ Scope}
    (hrest : ∀ scope m, (rest scope m).finish = rest' scope m) (m : Machine φ) :
    (Interpretation.step scope p rest m).finish = (p >>= rest') m := by
  rw [bind_apply, Interpretation.step]
  cases hrun : p m with
  | ok scope' m' => exact hrest scope' m'
  | error errors m' =>
      cases herrors : errors with
      | nil => exact absurd herrors (hp m errors m' hrun)
      | cons e others => rfl

theorem mapM_eq_each {α β : Type} (f : α → Eval φ β) (items : List α) :
    items.mapM f = Evaluator.each f items := by
  induction items with
  | nil => rw [List.mapM_nil, Evaluator.each]
  | cons item items ih => rw [List.mapM_cons, Evaluator.each, ih]

def Eval.evaluator [Host φ] : Evaluator φ (Eval φ) where
  record := Eval.record
  lookUp := Eval.lookUp
  attr location handle name := Eval.inspect location (·.attr handle name)
  entries location handle := Eval.inspect location (·.asList handle)
  function location handle := Eval.inspect location (·.asFunction handle)
  string text := Eval.create (.string text)
  list handles := Eval.create (.list handles)
  struct b := Eval.create (.struct b)
  invoke := Eval.invoke
  assign := Eval.assign
  unexpected location kind := Eval.fail location (.unexpectedNode kind)

variable [Host φ]

/-- Whatever an evaluation stops with has the property. No other evaluation is
looked at, and nothing is asked of handles. -/
def Throws.simulation (law : ErrorLaw P) :
    Simulation (evaluator : Evaluator φ (Eval φ)) evaluator Unit where
  Rel _ Q p _ := Throws P p ∧ Yields (Q ()) p
  Holds _ _ := True
  Calls _ _ := True
  Tolerant := Tolerant P
  holds_mono _ _ := trivial
  calls_mono _ _ := trivial
  pure h := ⟨.pure _, .pure (h () (le_refl _))⟩
  bind hp hf := ⟨hp.1.bind_of_yields hp.2 fun a ha => (hf () a (le_refl _) ha).1,
    hp.2.bind fun a ha => (hf () a (le_refl _) ha).2⟩
  record _ e := ⟨.record e, .of_forall fun _ => trivial⟩
  lookUp _ location name := ⟨.lookUp law location _ name, .of_forall fun _ => trivial⟩
  attr {_ handle} _ location name :=
    ⟨.inspect law location (·.attr handle name), .of_forall fun _ => trivial⟩
  entries {_ handle} _ location :=
    ⟨.inspect law location (·.asList handle), .of_forall fun _ _ _ => trivial⟩
  function {_ handle} _ location :=
    ⟨.inspect law location (·.asFunction handle), .of_forall fun _ => trivial⟩
  string _ text := ⟨.create _, .of_forall fun _ => trivial⟩
  list _ := ⟨.create _, .of_forall fun _ => trivial⟩
  struct _ := ⟨.create _, .of_forall fun _ => trivial⟩
  invoke _ _ location places := ⟨.invoke law location places _ _, .of_forall fun _ => trivial⟩
  assign _ _ location name := ⟨.assign law location _ name _, .of_forall fun _ _ _ => trivial⟩
  unexpected _ _ h location kind := ⟨.fail (h kind location), fun _ _ _ hfail => by cases hfail⟩

theorem errorLaw_ne_nil : ErrorLaw (· ≠ []) where
  single fault location _ := by simp
  reply location places reply hsuccess := by simp [replyErrors_eq_nil_iff, hsuccess]

theorem throws_statement_ne_nil (node : Node) (scope : Scope) :
    Throws (· ≠ []) (evaluator.statement node scope : Eval φ Scope) :=
  ((Throws.simulation errorLaw_ne_nil).statement (w := ())
    (.inl fun _ _ => by simp) fun _ _ => trivial).1

private theorem evaluation_eq :
    (∀ (node : Node) (scope : Scope),
      (evaluate node scope : Eval φ Handle) = evaluator.value node scope) ∧
    (∀ (nodes : List Node) (scope : Scope) (m : Machine φ),
      (execute nodes scope m).finish = evaluator.statements nodes scope m) ∧
    (∀ (nodes : List Node) (scope : Scope) (args : Arguments),
      (evaluateArguments nodes scope args : Eval φ Arguments) =
        evaluator.arguments nodes scope args) ∧
    (∀ (nodes : List Node) (scope : Scope),
      (evaluateAll nodes scope : Eval φ (List Handle)) = evaluator.values nodes scope) := by
  apply evaluate.mutual_induct
  case case1 =>
    intro location text? scope
    rw [evaluate, Evaluator.value]
    rfl
  case case2 =>
    intro location text? owner others scope ih
    rw [evaluate, Evaluator.value, ih]
    rfl
  case case3 =>
    intro location text? children scope
    rw [evaluate, Evaluator.value]
    rfl
  case case4 =>
    intro location text? entries scope ih
    rw [evaluate, Evaluator.value, ih]
    rfl
  case case5 =>
    intro location text? body element source others scope ihSource ihBody
    rw [evaluate, Evaluator.value, ihSource]
    simp only [ihBody, mapM_eq_each]
    rfl
  case case6 =>
    intro location text? callee arguments scope ihCallee ihArguments
    rw [evaluate, Evaluator.value, ihCallee, ihArguments]
    rfl
  case case7 =>
    intro location text? statements scope ih
    rw [evaluate, Evaluator.value]
    simp only [ih]
    rfl
  case case8 =>
    intro kind location text? children scope hobject hattr hstring hlist hlistFor hcall hprogram
    rw [evaluate, Evaluator.value]
    · rfl
    all_goals assumption
  case case9 =>
    intro scope m
    rw [execute, Evaluator.statements]
    rfl
  case case10 =>
    intro location text? target value others nodes scope m ihValue ihNodes
    rw [execute, Evaluator.statements_cons, ihValue]
    exact Interpretation.finish_step
      (throws_statement_ne_nil ⟨.assignment, location, text?, target :: value :: others⟩ scope)
      ihNodes m
  case case11 =>
    intro location text? children nodes scope m ihCall ihNodes
    rw [execute, Evaluator.statements_cons, ihCall]
    exact Interpretation.finish_step
      (throws_statement_ne_nil ⟨.call, location, text?, children⟩ scope) ihNodes m
  case case12 =>
    intro kind location text? children nodes scope m hassignment hcall ihNodes
    have hstatement := throws_statement_ne_nil (φ := φ) ⟨kind, location, text?, children⟩ scope
    rw [execute, Evaluator.statements_cons]
    · rw [Evaluator.statement] at hstatement ⊢
      · exact Interpretation.finish_step hstatement ihNodes m
      all_goals assumption
    all_goals assumption
  case case13 =>
    intro scope args
    rw [evaluateArguments, Evaluator.arguments]
  case case14 =>
    intro location text? nodes scope args
    rw [evaluateArguments, Evaluator.arguments]
    rfl
  case case15 =>
    intro location text? value others nodes scope args ihValue ihNodes
    rw [evaluateArguments, Evaluator.arguments, ihValue]
    simp only [ihNodes]
  case case16 =>
    intro node nodes scope args hempty hkeyword ihNode ihNodes
    rw [evaluateArguments, Evaluator.arguments, ihNode]
    · simp only [ihNodes]
    all_goals assumption
  case case17 =>
    intro scope
    rw [evaluateAll, Evaluator.values]
  case case18 =>
    intro node nodes scope ihNode ihNodes
    rw [evaluateAll, Evaluator.values, ihNode, ihNodes]

theorem evaluate_eq_value (node : Node) (scope : Scope) :
    (evaluate node scope : Eval φ Handle) = evaluator.value node scope :=
  evaluation_eq.1 node scope

theorem evaluateArguments_eq_arguments (nodes : List Node) (scope : Scope) (args : Arguments) :
    (evaluateArguments nodes scope args : Eval φ Arguments) =
      evaluator.arguments nodes scope args :=
  evaluation_eq.2.2.1 nodes scope args

theorem executeStatement_eq_statement (node : Node) (scope : Scope) :
    (executeStatement node scope : Eval φ Scope) = evaluator.statement node scope := by
  unfold executeStatement
  split
  · rw [Evaluator.statement, evaluate_eq_value]
    rfl
  · rw [Evaluator.statement, evaluate_eq_value]
    rfl
  · rename_i hassignment hcall
    rw [Evaluator.statement]
    · rfl
    · exact hassignment
    · exact hcall

theorem evaluate_throws_ne_nil (node : Node) (scope : Scope) :
    Throws (· ≠ []) (evaluate node scope : Eval φ Handle) := by
  rw [evaluate_eq_value]
  exact ((Throws.simulation errorLaw_ne_nil).value (w := ()) (.inl fun _ _ => by simp)
    fun _ _ => trivial).1

theorem executeStatement_throws_ne_nil (node : Node) (scope : Scope) :
    Throws (· ≠ []) (executeStatement node scope : Eval φ Scope) := by
  rw [executeStatement_eq_statement]
  exact throws_statement_ne_nil node scope

theorem execute_cons_eq {node : Node} {nodes : List Node} {scope : Scope} {m : Machine φ}
    (h : (execute (node :: nodes) scope m).errors = []) :
    ∃ scope' m', executeStatement node scope m = .ok scope' m' ∧
      execute (node :: nodes) scope m = execute nodes scope' m' := by
  rw [execute_cons] at h ⊢
  unfold Interpretation.step at h ⊢
  cases hstatement : executeStatement node scope m with
  | ok scope' m' => exact ⟨scope', m', rfl, rfl⟩
  | error errors m' =>
      rw [hstatement] at h
      exact absurd h (executeStatement_throws_ne_nil node scope m errors m' hstatement)

theorem execute_append (nodes nodes' : List Node) {scope : Scope} {m : Machine φ}
    (h : (execute nodes scope m).errors = []) :
    execute (nodes ++ nodes') scope m =
      execute nodes' (execute nodes scope m).scope (execute nodes scope m).machine := by
  induction nodes generalizing scope m with
  | nil => rw [List.nil_append, execute_nil]
  | cons node nodes ih =>
      obtain ⟨scope', m', hstatement, hrest⟩ := execute_cons_eq h
      rw [hrest] at h ⊢
      rw [List.cons_append, execute_cons, Interpretation.step, hstatement]
      exact ih h

def Expected (errors : List RuntimeError) : Prop :=
  ∀ e ∈ errors, ∀ kind, e.fault ≠ .unexpectedNode kind

theorem errorLaw_expected : ErrorLaw Expected where
  single fault location hfault := by
    intro e he
    obtain rfl := List.mem_singleton.mp he
    exact hfault
  reply location places reply _ := by
    intro e he kind hkind
    have hfault : e.fault ∈ (replyErrors location places reply).map (·.fault) :=
      List.mem_map_of_mem he
    rw [map_fault_replyErrors, hkind] at hfault
    simp at hfault

/-- Statements of well-shaped programs meet no unexpected node. -/
theorem execute_expected {nodes : List Node}
    (h : ∀ node ∈ nodes, node.WellShaped ∧ IsStatement node.kind) (scope : Scope)
    (m : Machine φ) : Expected (execute nodes scope m).errors := by
  induction nodes generalizing scope m with
  | nil =>
      rw [execute_nil]
      exact fun e he => by cases he
  | cons node nodes ih =>
      obtain ⟨hnode, hnodes⟩ := List.forall_mem_cons.mp h
      have hthrows : Throws Expected (executeStatement node scope : Eval φ Scope) := by
        rw [executeStatement_eq_statement]
        exact ((Throws.simulation errorLaw_expected).statement (w := ()) (.inr hnode)
          fun _ _ => trivial).1
      rw [execute_cons, Interpretation.step]
      cases hrun : executeStatement node scope m with
      | ok scope' m' => exact ih hnodes scope' m'
      | error errors m' => exact hthrows m errors m' hrun

end BuildScript
