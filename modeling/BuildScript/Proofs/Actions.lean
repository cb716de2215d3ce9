import BuildScript.Evaluation.Evaluator

namespace BuildScript.Eval

variable {φ α β : Type} {m m' : Machine φ}

theorem bind_apply (p : Eval φ α) (f : α → Eval φ β) (m : Machine φ) :
    (p >>= f) m = match p m with
      | .ok a m => f a m
      | .error errors m => .error errors m := by
  change EStateM.bind p f m = _
  unfold EStateM.bind
  cases p m with
  | ok a m' => rfl
  | error errors m' => rfl

theorem record_apply (e : Event) (m : Machine φ) :
    record e m = .ok () { m with journal := m.journal.record e } :=
  rfl

theorem create_apply (object : Object φ) (m : Machine φ) :
    create object m = .ok (m.arena.create object).1 { m with arena := (m.arena.create object).2 } :=
  rfl

theorem inspect_apply (location : Location) (ask : Arena φ → Except ObjectError α)
    (m : Machine φ) :
    inspect location ask m = match ask m.arena with
      | .ok a => .ok a m
      | .error e => .error [⟨.object e, location⟩] m := by
  change (match ask m.arena with
    | .ok a => pure a
    | .error e => fail location (.object e) : Eval φ α) m = _
  cases ask m.arena with
  | ok a => rfl
  | error e => rfl

theorem lookUp_apply (location : Location) (scope : Scope) (name : String) (m : Machine φ) :
    lookUp location scope name m = match scope.get name with
      | .ok handle => .ok handle m
      | .error e => .error [⟨.scope e, location⟩] m := by
  unfold lookUp
  cases scope.get name with
  | ok handle => rfl
  | error e => rfl

theorem assign_apply (location : Location) (scope : Scope) (name : String) (value : Handle)
    (m : Machine φ) :
    assign location scope name value m =
      if value.isNull then .error [⟨.nullAssignment name, location⟩] m
      else match scope.put name value with
        | .ok scope => .ok scope m
        | .error e => .error [⟨.scope e, location⟩] m := by
  unfold assign
  by_cases hnull : value.isNull = true
  · rw [if_pos hnull, if_pos hnull]
    rfl
  · rw [if_neg hnull, if_neg hnull]
    cases scope.put name value with
    | ok scope => rfl
    | error e => rfl

theorem invoke_apply [Host φ] (location : Location) (places : List Location) (body : φ)
    (args : Arguments) (m : Machine φ) :
    invoke location places body args m =
      if (Host.call body m.arena args).1.isSuccess then
        .ok (Host.call body m.arena args).1.value
          ⟨(Host.call body m.arena args).2, m.journal.record (.calling location args.size)⟩
      else
        .error (replyErrors location places (Host.call body m.arena args).1)
          ⟨(Host.call body m.arena args).2, m.journal.record (.calling location args.size)⟩ := by
  change (if (Host.call body m.arena args).1.isSuccess then
    pure (Host.call body m.arena args).1.value
    else throw (replyErrors location places (Host.call body m.arena args).1) : Eval φ Handle) _ = _
  by_cases hsuccess : (Host.call body m.arena args).1.isSuccess = true
  · rw [if_pos hsuccess, if_pos hsuccess]
    rfl
  · rw [if_neg hsuccess, if_neg hsuccess]
    rfl

theorem bind_of_eq_ok {ε σ : Type} {p : EStateM ε σ α} {s s' : σ} {a : α} (h : p s = .ok a s')
    (f : α → EStateM ε σ β) : (p >>= f) s = f a s' := by
  change EStateM.bind p f s = _
  unfold EStateM.bind
  rw [h]

theorem map_fault_replyErrors (location : Location) (places : List Location) (reply : Reply) :
    (replyErrors location places reply).map (·.fault) =
      reply.argumentErrors.map (fun e => .argument e.2) ++
        reply.callErrors.map (fun message => .call message) := by
  simp [replyErrors, Function.comp_def]

theorem replyErrors_eq_nil_iff {location : Location} {places : List Location} {reply : Reply} :
    replyErrors location places reply = [] ↔ reply.isSuccess = true := by
  simp [replyErrors, Reply.isSuccess, and_comm]

theorem bind_eq_ok {p : Eval φ α} {f : α → Eval φ β} {b : β} (h : (p >>= f) m = .ok b m') :
    ∃ a m₁, p m = .ok a m₁ ∧ f a m₁ = .ok b m' := by
  rw [bind_apply] at h
  cases hp : p m with
  | ok a m₁ =>
      rw [hp] at h
      exact ⟨a, m₁, rfl, h⟩
  | error errors m₁ =>
      rw [hp] at h
      cases h

theorem record_eq_ok {e : Event} {u : Unit} (h : record e m = .ok u m') : m'.arena = m.arena := by
  rw [record_apply] at h
  cases h
  rfl

theorem create_eq_ok {object : Object φ} {handle : Handle} (h : create object m = .ok handle m') :
    handle = (m.arena.create object).1 ∧ m'.arena = (m.arena.create object).2 := by
  rw [create_apply] at h
  cases h
  exact ⟨rfl, rfl⟩

theorem inspect_eq_ok {location : Location} {ask : Arena φ → Except ObjectError α} {a : α}
    (h : inspect location ask m = .ok a m') : ask m.arena = .ok a ∧ m' = m := by
  rw [inspect_apply] at h
  cases hask : ask m.arena with
  | ok found =>
      rw [hask] at h
      cases h
      exact ⟨rfl, rfl⟩
  | error e =>
      rw [hask] at h
      cases h

theorem lookUp_eq_ok {location : Location} {scope : Scope} {name : String} {handle : Handle}
    (h : lookUp location scope name m = .ok handle m') : scope.get name = .ok handle ∧ m' = m := by
  rw [lookUp_apply] at h
  cases hget : scope.get name with
  | ok found =>
      rw [hget] at h
      cases h
      exact ⟨rfl, rfl⟩
  | error e =>
      rw [hget] at h
      cases h

theorem assign_eq_ok {location : Location} {scope scope' : Scope} {name : String} {value : Handle}
    (h : assign location scope name value m = .ok scope' m') :
    scope.put name value = .ok scope' ∧ m' = m := by
  rw [assign_apply] at h
  split at h
  · cases h
  · cases hput : scope.put name value with
    | ok found =>
        rw [hput] at h
        cases h
        exact ⟨rfl, rfl⟩
    | error e =>
        rw [hput] at h
        cases h

theorem ne_null_of_assign {location : Location} {scope scope' : Scope} {name : String}
    {value : Handle} (h : assign location scope name value m = .ok scope' m') : value ≠ .null := by
  rintro rfl
  rw [assign_apply, if_pos (by simp [Handle.isNull])] at h
  cases h

theorem invoke_eq_ok [Host φ] {location : Location} {places : List Location} {body : φ}
    {args : Arguments} {handle : Handle} (h : invoke location places body args m = .ok handle m') :
    (Host.call body m.arena args).1.isSuccess = true ∧
      handle = (Host.call body m.arena args).1.value ∧
      m'.arena = (Host.call body m.arena args).2 := by
  rw [invoke_apply] at h
  split at h
  · rename_i hsuccess
    cases h
    exact ⟨hsuccess, rfl, rfl⟩
  · cases h

theorem bind_eq_error {p : Eval φ α} {f : α → Eval φ β} {errors : List RuntimeError}
    (h : (p >>= f) m = .error errors m') :
    p m = .error errors m' ∨ ∃ a m₁, p m = .ok a m₁ ∧ f a m₁ = .error errors m' := by
  rw [bind_apply] at h
  cases hp : p m with
  | ok a m₁ =>
      rw [hp] at h
      exact .inr ⟨a, m₁, rfl, h⟩
  | error errors' m₁ =>
      rw [hp] at h
      cases h
      exact .inl rfl

theorem inspect_eq_error {location : Location} {ask : Arena φ → Except ObjectError α}
    {errors : List RuntimeError} (h : inspect location ask m = .error errors m') :
    ∃ e, ask m.arena = .error e ∧ errors = [⟨.object e, location⟩] := by
  rw [inspect_apply] at h
  cases hask : ask m.arena with
  | ok a =>
      rw [hask] at h
      cases h
  | error e =>
      rw [hask] at h
      cases h
      exact ⟨e, rfl, rfl⟩

theorem lookUp_eq_error {location : Location} {scope : Scope} {name : String}
    {errors : List RuntimeError} (h : lookUp location scope name m = .error errors m') :
    ∃ e, scope.get name = .error e ∧ errors = [⟨.scope e, location⟩] := by
  rw [lookUp_apply] at h
  cases hget : scope.get name with
  | ok handle =>
      rw [hget] at h
      cases h
  | error e =>
      rw [hget] at h
      cases h
      exact ⟨e, rfl, rfl⟩

theorem assign_eq_error {location : Location} {scope : Scope} {name : String} {value : Handle}
    {errors : List RuntimeError} (h : assign location scope name value m = .error errors m') :
    value = .null ∧ errors = [⟨.nullAssignment name, location⟩] ∨
      value ≠ .null ∧ ∃ e, scope.put name value = .error e ∧ errors = [⟨.scope e, location⟩] := by
  rw [assign_apply] at h
  by_cases hnull : value = .null
  · rw [if_pos (by simp [Handle.isNull, hnull])] at h
    cases h
    exact .inl ⟨hnull, rfl⟩
  · rw [if_neg (by simpa [Handle.isNull] using hnull)] at h
    cases hput : scope.put name value with
    | ok scope' =>
        rw [hput] at h
        cases h
    | error e =>
        rw [hput] at h
        cases h
        exact .inr ⟨hnull, e, rfl, rfl⟩

theorem invoke_eq_error [Host φ] {location : Location} {places : List Location} {body : φ}
    {args : Arguments} {errors : List RuntimeError}
    (h : invoke location places body args m = .error errors m') :
    (Host.call body m.arena args).1.isSuccess = false ∧
      errors = replyErrors location places (Host.call body m.arena args).1 := by
  rw [invoke_apply] at h
  split at h
  · cases h
  · rename_i hsuccess
    cases h
    exact ⟨by simpa using hsuccess, rfl⟩

end BuildScript.Eval

namespace BuildScript

open Eval

theorem Interpretation.finish_eq_ok {φ : Type} {i : Interpretation φ} {scope : Scope}
    {m : Machine φ} (h : i.finish = .ok scope m) :
    i.errors = [] ∧ scope = i.scope ∧ m = i.machine := by
  unfold finish at h
  split at h
  · rename_i herrors
    cases h
    exact ⟨herrors, rfl, rfl⟩
  · cases h

theorem Interpretation.finish_eq_error {φ : Type} {i : Interpretation φ}
    {errors : List RuntimeError} {m : Machine φ} (h : i.finish = .error errors m) :
    errors = i.errors ∧ i.errors ≠ [] ∧ m = i.machine := by
  unfold finish at h
  split at h
  · cases h
  · rename_i herrors
    cases h
    exact ⟨rfl, herrors, rfl⟩

variable {φ : Type} [Host φ]

theorem evaluateAll_eq_mapM (nodes : List Node) (scope : Scope) :
    (evaluateAll nodes scope : Eval φ (List Handle)) =
      nodes.mapM fun node => evaluate node scope := by
  induction nodes with
  | nil => rw [evaluateAll, List.mapM_nil]
  | cons node nodes ih => rw [evaluateAll, List.mapM_cons, ih]

/-- The node that gives an argument its value. -/
def Node.given : Node → Node
  | ⟨.keyword, _, _, value :: _⟩ => value
  | node => node

theorem Node.given_eq_self {node : Node} (h : node.kind ≠ .keyword) : node.given = node := by
  unfold given
  split
  · exact absurd rfl h
  · rfl

def evaluateArgument (node : Node) (scope : Scope) : Eval φ Handle :=
  if node.kind = .keyword ∧ node.children = [] then fail node.location (.unexpectedNode .keyword)
  else evaluate node.given scope

def Arguments.push (args : Arguments) (node : Node) (value : Handle) : Arguments :=
  if node.kind = .keyword then args.pushKeyword node.text value else args.pushPositional value

theorem evaluateArgument_positional {node : Node} (h : node.kind ≠ .keyword) (scope : Scope) :
    (evaluateArgument node scope : Eval φ Handle) = evaluate node scope := by
  rw [evaluateArgument, if_neg fun hempty => h hempty.1, Node.given_eq_self h]

theorem evaluateArguments_cons (node : Node) (nodes : List Node) (scope : Scope)
    (args : Arguments) :
    (evaluateArguments (node :: nodes) scope args : Eval φ Arguments) =
      evaluateArgument node scope >>= fun handle =>
        evaluateArguments nodes scope (args.push node handle) := by
  by_cases hkind : node.kind = .keyword
  · obtain ⟨kind, location, text?, children⟩ := node
    obtain rfl : kind = .keyword := hkind
    cases children with
    | nil =>
        rw [evaluateArguments]
        rfl
    | cons value others =>
        rw [evaluateArguments]
        rfl
  · rw [evaluateArgument_positional hkind, evaluateArguments]
    · simp [Arguments.push, hkind]
    · rintro location text? rfl
      exact hkind rfl
    · rintro location text? value others rfl
      exact hkind rfl

theorem evaluateArgument_eq_ok {node : Node} {scope : Scope} {handle : Handle} {m m' : Machine φ}
    (h : evaluateArgument node scope m = .ok handle m') :
    evaluate node.given scope m = .ok handle m' := by
  unfold evaluateArgument at h
  split at h
  · cases h
  · exact h

/-- Evaluating a callee and arguments, from left to right, comes to the call of
a function: the function, its arguments and the machine it is called on. -/
def Invokes (callee : Node) (arguments : List Node) (scope : Scope) (m : Machine φ) (body : φ)
    (args : Arguments) (m' : Machine φ) : Prop :=
  ∃ handle m₁, evaluate callee scope m = .ok handle m₁ ∧ m₁.arena.asFunction handle = .ok body ∧
    evaluateArguments arguments scope .empty m₁ = .ok args m'

theorem Invokes.evaluate_eq {callee : Node} {arguments : List Node} {scope : Scope}
    {m m' : Machine φ} {body : φ} {args : Arguments}
    (h : Invokes callee arguments scope m body args m') (location : Location)
    (text? : Option String) :
    evaluate ⟨.call, location, text?, callee :: arguments⟩ scope m =
      invoke location (arguments.map (·.location)) body args m' := by
  obtain ⟨handle, m₁, hcallee, hfunction, harguments⟩ := h
  have hinspect : inspect location (·.asFunction handle) m₁ = .ok body m₁ := by
    rw [inspect_apply, hfunction]
  rw [evaluate, bind_of_eq_ok hcallee, bind_of_eq_ok hinspect, bind_of_eq_ok harguments]

/-- What one statement does: an assignment adds a binding, a call adds none. -/
def executeStatement : Node → Scope → Eval φ Scope
  | ⟨.assignment, location, _, target :: value :: _⟩, scope => do
    record (.executing .assignment location)
    let handle ← evaluate value scope
    assign location scope target.text handle
  | ⟨.call, location, text?, children⟩, scope => do
    record (.executing .call location)
    let _ ← evaluate ⟨.call, location, text?, children⟩ scope
    return scope
  | ⟨kind, location, _, _⟩, _ => do
    record (.executing kind location)
    fail location (.unexpectedNode kind)

theorem executeStatement_eq_ok {node : Node} {scope scope' : Scope} {m m' : Machine φ}
    (h : executeStatement node scope m = .ok scope' m') :
    (∃ target value others handle m₁, node.kind = .assignment ∧
      node.children = target :: value :: others ∧ m₁.arena = m.arena ∧
      evaluate value scope m₁ = .ok handle m' ∧ scope.put target.text handle = .ok scope') ∨
    ∃ handle m₁, node.kind = .call ∧ scope' = scope ∧ m₁.arena = m.arena ∧
      evaluate node scope m₁ = .ok handle m' := by
  unfold executeStatement at h
  split at h
  · obtain ⟨_, m₁, hrecord, hstatement⟩ := bind_eq_ok h
    obtain ⟨handle, m₂, hvalue, hassign⟩ := bind_eq_ok hstatement
    obtain ⟨hput, rfl⟩ := assign_eq_ok hassign
    exact .inl ⟨_, _, _, handle, m₁, rfl, rfl, record_eq_ok hrecord, hvalue, hput⟩
  · obtain ⟨_, m₁, hrecord, hstatement⟩ := bind_eq_ok h
    obtain ⟨handle, m₂, hvalue, hpure⟩ := bind_eq_ok hstatement
    cases hpure
    exact .inr ⟨handle, m₁, rfl, rfl, record_eq_ok hrecord, hvalue⟩
  · obtain ⟨_, m₁, -, hfail⟩ := bind_eq_ok h
    cases hfail

theorem execute_nil (scope : Scope) (m : Machine φ) : execute [] scope m = ⟨m, scope, []⟩ := by
  rw [execute]

theorem execute_cons (node : Node) (nodes : List Node) (scope : Scope) (m : Machine φ) :
    execute (node :: nodes) scope m =
      Interpretation.step scope (executeStatement node scope) (execute nodes) m := by
  unfold executeStatement
  split
  · rw [execute]
  · rw [execute]
  · rename_i kind location text? children _ hassignment hcall
    rw [execute]
    · exact hassignment
    · exact hcall

end BuildScript
