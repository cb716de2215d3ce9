import BuildScript.Proofs.Throwing
import Mathlib.Logic.Relation

namespace BuildScript

open Eval

variable {φ : Type}

def resultErrors {α : Type} : EStateM.Result (List RuntimeError) (Machine φ) α → List RuntimeError
  | .ok _ _ => []
  | .error errors _ => errors

section Sequences

variable {α β : Type} {p : Eval φ α} {m m' : Machine φ}

theorem resultErrors_bind_of_ok {a : α} (h : p m = .ok a m') (f : α → Eval φ β) :
    resultErrors ((p >>= f) m) = resultErrors (f a m') := by
  rw [bind_of_eq_ok h]

theorem resultErrors_bind_of_ne (h : resultErrors (p m) ≠ []) (f : α → Eval φ β) :
    resultErrors ((p >>= f) m) = resultErrors (p m) := by
  rw [bind_apply]
  cases hp : p m with
  | ok a m' =>
      rw [hp] at h
      exact absurd rfl h
  | error errors m' => rfl

theorem resultErrors_finish (i : Interpretation φ) : resultErrors i.finish = i.errors := by
  unfold Interpretation.finish
  split
  · rename_i hnil
    rw [hnil]
    rfl
  · rfl

end Sequences

/-- What a node is evaluated as. -/
inductive Role where
  /-- the program that is interpreted -/
  | main
  | statement
  | argument
  | value

/-- Whether a node has what it takes to be run as a statement: a fitting kind,
and the children it cannot do without. -/
def Node.isRunnable : Node → Bool
  | ⟨.assignment, _, _, _ :: _ :: _⟩ => true
  | ⟨.call, _, _, _⟩ => true
  | _ => false

def Node.isEvaluable : Node → Bool
  | ⟨.object, _, _, _⟩ => true
  | ⟨.string, _, _, _⟩ => true
  | ⟨.list, _, _, _⟩ => true
  | ⟨.listFor, _, _, _ :: _ :: _ :: _⟩ => true
  | ⟨.call, _, _, _ :: _⟩ => true
  | ⟨.program, _, _, _⟩ => true
  | _ => false

/-- Whether a node can be what it stands for. An argument without a name is
judged as a value. -/
def Role.takes : Role → Node → Bool
  | main, node => node.kind == .program
  | statement, node => node.isRunnable
  | argument, node => node.kind != .keyword || !node.children.isEmpty
  | value, node => node.isEvaluable

/-- A moment of an evaluation: a node is begun. -/
structure Moment (φ : Type) where
  role : Role
  node : Node
  scope : Scope
  machine : Machine φ

namespace Moment

variable [Host φ]

/-- From beginning a node, evaluation comes to beginning a node below it: all
that is evaluated before went well. -/
inductive Leads : Moment φ → Moment φ → Prop where
  | statement {location text? before node after scope scope' m m'}
      (hbefore : execute before scope m = ⟨m', scope', []⟩) :
      Leads ⟨.main, ⟨.program, location, text?, before ++ node :: after⟩, scope, m⟩
        ⟨.statement, node, scope', m'⟩
  | imported {location text? before node after scope scope' m m'}
      (hbefore : execute before .empty
        { m with journal := m.journal.record (.evaluatingImport location.source) } =
          ⟨m', scope', []⟩) :
      Leads ⟨.value, ⟨.program, location, text?, before ++ node :: after⟩, scope, m⟩
        ⟨.statement, node, scope', m'⟩
  | assigned {location text? target value others scope m} :
      Leads ⟨.statement, ⟨.assignment, location, text?, target :: value :: others⟩, scope, m⟩
        ⟨.value, value, scope,
          { m with journal := m.journal.record (.executing .assignment location) }⟩
  | called {location text? children scope m} :
      Leads ⟨.statement, ⟨.call, location, text?, children⟩, scope, m⟩
        ⟨.value, ⟨.call, location, text?, children⟩, scope,
          { m with journal := m.journal.record (.executing .call location) }⟩
  | owner {location text? owner others scope m} :
      Leads ⟨.value, ⟨.object, location, text?, owner :: others⟩, scope, m⟩
        ⟨.value, owner, scope, m⟩
  | entry {location text? before node after scope m m'} {handles : List Handle}
      (hbefore : evaluateAll before scope m = .ok handles m') :
      Leads ⟨.value, ⟨.list, location, text?, before ++ node :: after⟩, scope, m⟩
        ⟨.value, node, scope, m'⟩
  | source {location text? body element source others scope m} :
      Leads ⟨.value, ⟨.listFor, location, text?, body :: element :: source :: others⟩, scope, m⟩
        ⟨.value, source, scope, m⟩
  | body {location text? body element source others scope m m₁ m₂} {list handle : Handle}
      {before after results : List Handle} (hsource : evaluate source scope m = .ok list m₁)
      (hlist : m₁.arena.asList list = .ok (before ++ handle :: after))
      (hbefore : before.mapM (fun h => evaluate body (scope.withElement element.text h)) m₁ =
        .ok results m₂) :
      Leads ⟨.value, ⟨.listFor, location, text?, body :: element :: source :: others⟩, scope, m⟩
        ⟨.value, body, scope.withElement element.text handle, m₂⟩
  | callee {location text? callee arguments scope m} :
      Leads ⟨.value, ⟨.call, location, text?, callee :: arguments⟩, scope, m⟩
        ⟨.value, callee, scope, m⟩
  | argument {location text? callee before node after scope m m'} {body : φ} {args : Arguments}
      (hbefore : Invokes callee before scope m body args m') :
      Leads ⟨.value, ⟨.call, location, text?, callee :: (before ++ node :: after)⟩, scope, m⟩
        ⟨.argument, node, scope, m'⟩
  | keyword {location text? value others scope m} :
      Leads ⟨.argument, ⟨.keyword, location, text?, value :: others⟩, scope, m⟩
        ⟨.value, value, scope, m⟩
  | positional {node scope m} (h : node.kind ≠ .keyword) :
      Leads ⟨.argument, node, scope, m⟩ ⟨.value, node, scope, m⟩

/-- A node is itself at fault: what it depends on was evaluated, and still it
has no value. The fault, and the place it is reported at. -/
inductive Faults : Moment φ → RuntimeFault → Location → Prop where
  | undefined {location text? scope m}
      (h : scope.get (text?.getD "") = .error (.undefined (text?.getD ""))) :
      Faults ⟨.value, ⟨.object, location, text?, []⟩, scope, m⟩
        (.scope (.undefined (text?.getD ""))) location
  | unknownAttribute {location text? owner others scope m m'} {handle : Handle}
      (howner : evaluate owner scope m = .ok handle m')
      (h : m'.arena.attr handle (text?.getD "") =
        .error (.unknownAttribute (text?.getD "") (m'.arena.get handle).type)) :
      Faults ⟨.value, ⟨.object, location, text?, owner :: others⟩, scope, m⟩
        (.object (.unknownAttribute (text?.getD "") (m'.arena.get handle).type)) location
  | notAList {location text? body element source others scope m m'} {handle : Handle}
      (hsource : evaluate source scope m = .ok handle m')
      (h : m'.arena.asList handle = .error (.notAList (m'.arena.get handle).type)) :
      Faults ⟨.value, ⟨.listFor, location, text?, body :: element :: source :: others⟩, scope, m⟩
        (.object (.notAList (m'.arena.get handle).type)) source.location
  | notCallable {location text? callee arguments scope m m'} {handle : Handle}
      (hcallee : evaluate callee scope m = .ok handle m')
      (h : m'.arena.asFunction handle = .error (.notCallable (m'.arena.get handle).type)) :
      Faults ⟨.value, ⟨.call, location, text?, callee :: arguments⟩, scope, m⟩
        (.object (.notCallable (m'.arena.get handle).type)) location
  | nullAssignment {location text? target value others scope m m'}
      (hvalue : evaluate value scope
        { m with journal := m.journal.record (.executing .assignment location) } =
          .ok .null m') :
      Faults ⟨.statement, ⟨.assignment, location, text?, target :: value :: others⟩, scope, m⟩
        (.nullAssignment target.text) location
  | alreadyDefined {location text? target value others scope m m'} {handle : Handle}
      (hvalue : evaluate value scope
        { m with journal := m.journal.record (.executing .assignment location) } =
          .ok handle m')
      (hnull : handle ≠ .null)
      (h : scope.put target.text handle = .error (.alreadyDefined target.text)) :
      Faults ⟨.statement, ⟨.assignment, location, text?, target :: value :: others⟩, scope, m⟩
        (.scope (.alreadyDefined target.text)) location
  | unexpected {role node scope m} (h : role.takes node = false) :
      Faults ⟨role, node, scope, m⟩ (.unexpectedNode node.kind) node.location

/-- The function that a call node calls answers with errors: those about
arguments in order, then those about the call. -/
inductive Refused : Moment φ → List RuntimeError → Prop where
  | call {location text? callee arguments scope m m'} {body : φ} {args : Arguments}
      {reply : Reply} (hinvokes : Invokes callee arguments scope m body args m')
      (hreply : reply = (Host.call body m'.arena args).1) (hfailed : reply.isSuccess = false) :
      Refused ⟨.value, ⟨.call, location, text?, callee :: arguments⟩, scope, m⟩
        (reply.argumentErrors.map (fun e =>
            ⟨.argument e.2, (arguments.map (·.location)).getD e.1 location⟩) ++
          reply.callErrors.map fun message => ⟨.call message, location⟩)

def Stops (moment : Moment φ) (errors : List RuntimeError) : Prop :=
  (∃ fault location, moment.Faults fault location ∧ errors = [⟨fault, location⟩]) ∨
    moment.Refused errors

/-- What evaluation stops with if it begins at a moment. -/
def errors (moment : Moment φ) : List RuntimeError :=
  match moment.role with
  | .main => (executeProgram moment.node moment.scope moment.machine).errors
  | .statement => resultErrors (executeStatement moment.node moment.scope moment.machine)
  | .argument => resultErrors (evaluateArgument moment.node moment.scope moment.machine)
  | .value => resultErrors (evaluate moment.node moment.scope moment.machine)

theorem executeStatement_unexpected {node : Node} (h : node.isRunnable = false) (scope : Scope)
    (m : Machine φ) :
    resultErrors (executeStatement node scope m) =
      [⟨.unexpectedNode node.kind, node.location⟩] := by
  unfold executeStatement
  split
  · cases h
  · cases h
  · rfl

theorem evaluate_unexpected {node : Node} (h : node.isEvaluable = false) (scope : Scope)
    (m : Machine φ) :
    resultErrors (evaluate node scope m) = [⟨.unexpectedNode node.kind, node.location⟩] := by
  obtain ⟨kind, location, text?, children⟩ := node
  rw [evaluate]
  · rfl
  all_goals
    intros
    subst_vars
    cases h

variable {moment next : Moment φ} {fault : RuntimeFault} {location : Location}
  {errors : List RuntimeError}

theorem Faults.errors_eq (h : moment.Faults fault location) :
    moment.errors = [⟨fault, location⟩] := by
  cases h with
  | undefined h =>
      show resultErrors (evaluate _ _ _) = _
      rw [evaluate, lookUp_apply, h]
      rfl
  | unknownAttribute howner h =>
      show resultErrors (evaluate _ _ _) = _
      rw [evaluate, resultErrors_bind_of_ok howner, inspect_apply, h]
      rfl
  | notAList hsource h =>
      show resultErrors (evaluate _ _ _) = _
      rw [evaluate, resultErrors_bind_of_ok hsource, bind_apply, inspect_apply, h]
      rfl
  | notCallable hcallee h =>
      show resultErrors (evaluate _ _ _) = _
      rw [evaluate, resultErrors_bind_of_ok hcallee, bind_apply, inspect_apply, h]
      rfl
  | nullAssignment hvalue =>
      show resultErrors (executeStatement _ _ _) = _
      rw [executeStatement, resultErrors_bind_of_ok (record_apply _ _),
        resultErrors_bind_of_ok hvalue]
      rfl
  | alreadyDefined hvalue hnull h =>
      show resultErrors (executeStatement _ _ _) = _
      rw [executeStatement, resultErrors_bind_of_ok (record_apply _ _),
        resultErrors_bind_of_ok hvalue, assign_apply, h, if_neg (by simpa [Handle.isNull])]
      rfl
  | @unexpected role node scope m h =>
      cases role with
      | main =>
          have hkind : node.kind ≠ .program := by simpa [Role.takes] using h
          show (executeProgram node scope m).errors = _
          unfold executeProgram
          split
          · rename_i hprogram
            exact absurd hprogram hkind
          · rfl
      | statement => exact executeStatement_unexpected h scope m
      | argument =>
          have hempty : node.kind = .keyword ∧ node.children = [] := by
            simpa [Role.takes] using h
          show resultErrors (evaluateArgument node scope m) = _
          rw [evaluateArgument, if_pos hempty, hempty.1]
          rfl
      | value => exact evaluate_unexpected h scope m

theorem Refused.errors_eq (h : moment.Refused errors) : moment.errors = errors := by
  cases h with
  | @call location text? callee arguments scope m m' body args reply hinvokes hreply hfailed =>
      subst hreply
      show resultErrors (evaluate _ _ _) = _
      rw [hinvokes.evaluate_eq, invoke_apply, if_neg (by simp [hfailed])]
      rfl

theorem evaluateArguments_errors {before : List Node} {node : Node} {scope : Scope}
    {args args' : Arguments} {m m' : Machine φ}
    (hbefore : evaluateArguments before scope args m = .ok args' m')
    (hne : resultErrors (evaluateArgument node scope m') ≠ []) (after : List Node) :
    resultErrors (evaluateArguments (before ++ node :: after) scope args m) =
      resultErrors (evaluateArgument node scope m') := by
  induction before generalizing m args with
  | nil =>
      rw [evaluateArguments] at hbefore
      cases hbefore
      rw [List.nil_append, evaluateArguments_cons, resultErrors_bind_of_ne hne]
  | cons first before ih =>
      rw [evaluateArguments_cons] at hbefore
      obtain ⟨handle, m₁, hfirst, hbefore⟩ := bind_eq_ok hbefore
      rw [List.cons_append, evaluateArguments_cons, resultErrors_bind_of_ok hfirst, ih hbefore]

omit [Host φ] in
theorem mapM_errors {α β : Type} {f : α → Eval φ β} {before : List α} {item : α}
    {m m' : Machine φ} {results : List β} (hbefore : before.mapM f m = .ok results m')
    (hne : resultErrors (f item m') ≠ []) (after : List α) :
    resultErrors ((before ++ item :: after).mapM f m) = resultErrors (f item m') := by
  induction before generalizing m results with
  | nil =>
      cases hbefore
      rw [List.nil_append, List.mapM_cons, resultErrors_bind_of_ne hne]
  | cons first before ih =>
      rw [List.mapM_cons] at hbefore
      obtain ⟨result, m₁, hfirst, hrest⟩ := bind_eq_ok hbefore
      obtain ⟨results, m₂, hbefore, hpure⟩ := bind_eq_ok hrest
      cases hpure
      have hall := ih hbefore
      rw [List.cons_append, List.mapM_cons, resultErrors_bind_of_ok hfirst,
        resultErrors_bind_of_ne (by rwa [hall]), hall]

theorem execute_errors {before : List Node} {node : Node} {scope scope' : Scope}
    {m m' : Machine φ} (hbefore : execute before scope m = ⟨m', scope', []⟩)
    (hne : resultErrors (executeStatement node scope' m') ≠ []) (after : List Node) :
    (execute (before ++ node :: after) scope m).errors =
      resultErrors (executeStatement node scope' m') := by
  rw [execute_append _ _ (by rw [hbefore]), hbefore, execute_cons, Interpretation.step]
  cases hstatement : executeStatement node scope' m' with
  | ok scope'' m'' =>
      rw [hstatement] at hne
      exact absurd rfl hne
  | error errors m'' => rfl

/-- Errors at a moment that evaluation comes to are its errors. -/
theorem Leads.errors_eq (h : moment.Leads next) (hne : next.errors ≠ []) :
    moment.errors = next.errors := by
  cases h with
  | statement hbefore => exact execute_errors hbefore hne _
  | @imported location text? before node after scope scope' m m' hbefore =>
      have hrun := execute_errors hbefore hne after
      let run : Eval φ Scope := fun m => (execute (before ++ node :: after) .empty m).finish
      have hfinish := (resultErrors_finish (execute (before ++ node :: after) .empty
        { m with journal := m.journal.record (.evaluatingImport location.source) })).trans hrun
      have hbind := resultErrors_bind_of_ne (p := run) (by rw [hfinish]; exact hne)
        fun scope => create (.struct scope.bindings)
      show resultErrors (evaluate _ _ _) = _
      rw [evaluate, resultErrors_bind_of_ok (record_apply _ _)]
      exact hbind.trans hfinish
  | assigned =>
      show resultErrors (executeStatement _ _ _) = _
      rw [executeStatement, resultErrors_bind_of_ok (record_apply _ _),
        resultErrors_bind_of_ne hne]
      rfl
  | called =>
      show resultErrors (executeStatement _ _ _) = _
      rw [executeStatement, resultErrors_bind_of_ok (record_apply _ _),
        resultErrors_bind_of_ne hne]
      rfl
  | owner =>
      show resultErrors (evaluate _ _ _) = _
      rw [evaluate, resultErrors_bind_of_ne hne]
      rfl
  | @entry location text? before node after scope m m' handles hbefore =>
      rw [evaluateAll_eq_mapM] at hbefore
      have hall := mapM_errors hbefore hne after
      show resultErrors (evaluate _ _ _) = _
      rw [evaluate, evaluateAll_eq_mapM, resultErrors_bind_of_ne (by rwa [hall]), hall]
      rfl
  | source =>
      show resultErrors (evaluate _ _ _) = _
      rw [evaluate, resultErrors_bind_of_ne hne]
      rfl
  | @body location text? body element source others scope m m₁ m₂ list handle before after results
      hsource hlist hbefore =>
      have hall := mapM_errors hbefore hne after
      have hinspect : inspect source.location (·.asList list) m₁ =
          .ok (before ++ handle :: after) m₁ := by
        rw [inspect_apply, hlist]
      show resultErrors (evaluate _ _ _) = _
      rw [evaluate, resultErrors_bind_of_ok hsource, resultErrors_bind_of_ok hinspect,
        resultErrors_bind_of_ne (by rwa [hall]), hall]
      rfl
  | callee =>
      show resultErrors (evaluate _ _ _) = _
      rw [evaluate, resultErrors_bind_of_ne hne]
      rfl
  | @argument location text? callee before node after scope m m' body args hbefore =>
      obtain ⟨handle, m₁, hcallee, hfunction, hbefore⟩ := hbefore
      have hall := evaluateArguments_errors hbefore hne after
      have hinspect : inspect location (·.asFunction handle) m₁ = .ok body m₁ := by
        rw [inspect_apply, hfunction]
      show resultErrors (evaluate _ _ _) = _
      rw [evaluate, resultErrors_bind_of_ok hcallee, resultErrors_bind_of_ok hinspect,
        resultErrors_bind_of_ne (by rwa [hall]), hall]
      rfl
  | keyword => rfl
  | positional hkind =>
      show resultErrors (evaluateArgument _ _ _) = _
      rw [evaluateArgument_positional hkind]
      rfl

theorem Stops.errors_eq (h : moment.Stops errors) : moment.errors = errors := by
  obtain ⟨fault, location, hfault, rfl⟩ | hrefused := h
  · exact hfault.errors_eq
  · exact hrefused.errors_eq

theorem Stops.ne_nil (h : moment.Stops errors) : errors ≠ [] := by
  obtain ⟨fault, location, hfault, rfl⟩ | hrefused := h
  · exact List.cons_ne_nil _ _
  · cases hrefused with
    | @call location _ _ arguments _ _ _ _ _ reply _ _ hfailed =>
        intro hnil
        have hreply : replyErrors location (arguments.map (·.location)) reply = [] := hnil
        rw [replyErrors_eq_nil_iff.mp hreply] at hfailed
        cases hfailed

/-- The errors of a last moment are the errors of every moment that leads to
it. -/
theorem errors_eq_of_leads (hleads : Relation.ReflTransGen Leads moment next)
    (hstops : next.Stops errors) : moment.errors = errors := by
  induction hleads using Relation.ReflTransGen.head_induction_on with
  | refl => exact hstops.errors_eq
  | head hstep _ ih => exact (hstep.errors_eq (by rw [ih]; exact hstops.ne_nil)).trans ih

end Moment

end BuildScript
