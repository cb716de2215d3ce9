import BuildScript.Evaluation.Error
import BuildScript.Call.Host
import BuildScript.Journal

namespace BuildScript

structure Machine (φ : Type) where
  arena : Arena φ
  journal : Journal

abbrev Eval (φ : Type) := EStateM (List RuntimeError) (Machine φ)

namespace Eval

variable {φ α : Type}

def record (e : Event) : Eval φ Unit :=
  modify fun m => { m with journal := m.journal.record e }

def fail (location : Location) (fault : RuntimeFault) : Eval φ α :=
  throw [⟨fault, location⟩]

def create (object : Object φ) : Eval φ Handle :=
  fun m =>
    let (handle, arena) := m.arena.create object
    .ok handle { m with arena }

/-- Asks the arena something about an object. Misuse of the object is an error
at the given place. -/
def inspect (location : Location) (ask : Arena φ → Except ObjectError α) : Eval φ α := do
  match ask (← get).arena with
  | .ok a => return a
  | .error e => fail location (.object e)

def lookUp (location : Location) (scope : Scope) (name : String) : Eval φ Handle :=
  match scope.get name with
  | .ok handle => return handle
  | .error e => fail location (.scope e)

/-- The scope with one more binding. Null is never bound. -/
def assign (location : Location) (scope : Scope) (name : String) (value : Handle) :
    Eval φ Scope :=
  if value.isNull then fail location (.nullAssignment name)
  else match scope.put name value with
    | .ok scope => return scope
    | .error e => fail location (.scope e)

/-- The errors of a reply: those about arguments, each at the place of its
argument, then those about the call. -/
def replyErrors (location : Location) (places : List Location) (reply : Reply) :
    List RuntimeError :=
  reply.argumentErrors.map (fun e => ⟨.argument e.2, places.getD e.1 location⟩) ++
    reply.callErrors.map (fun message => ⟨.call message, location⟩)

/-- Calls a function. `places` are the places of the arguments by number. -/
def invoke [Host φ] (location : Location) (places : List Location) (body : φ)
    (args : Arguments) : Eval φ Handle := do
  record (.calling location args.size)
  let reply ← fun m =>
    let (reply, arena) := Host.call body m.arena args
    .ok reply { m with arena }
  if reply.isSuccess then return reply.value
  else throw (replyErrors location places reply)

end Eval

open Eval

def Scope.withElement (scope : Scope) (name : String) (element : Handle) : Scope :=
  match scope.push.put name element with
  | .ok inner => inner
  | .error _ => scope.push

/-- How far the statements of a program were run: what they made, the scope
they left, and the errors that stopped them, if any. -/
structure Interpretation (φ : Type) where
  machine : Machine φ
  scope : Scope
  errors : List RuntimeError

/-- Runs a statement and then the rest, unless the statement stops. A
statement that stops leaves the scope as it was. -/
def Interpretation.step {φ : Type} (scope : Scope) (statement : Eval φ Scope)
    (rest : Scope → Machine φ → Interpretation φ) (m : Machine φ) : Interpretation φ :=
  match statement m with
  | .ok scope m => rest scope m
  | .error errors m => ⟨m, scope, errors⟩

def Interpretation.finish {φ : Type} (i : Interpretation φ) :
    EStateM.Result (List RuntimeError) (Machine φ) Scope :=
  match i.errors with
  | [] => .ok i.scope i.machine
  | errors => .error errors i.machine

variable {φ : Type} [Host φ]

mutual

def evaluate : Node → Scope → Eval φ Handle
  | ⟨.object, location, text?, []⟩, scope => lookUp location scope (text?.getD "")
  | ⟨.object, location, text?, owner :: _⟩, scope => do
    let handle ← evaluate owner scope
    inspect location (·.attr handle (text?.getD ""))
  | ⟨.string, _, text?, _⟩, _ => create (.string (text?.getD ""))
  | ⟨.list, _, _, entries⟩, scope => do
    let handles ← evaluateAll entries scope
    create (.list handles)
  | ⟨.listFor, _, _, body :: element :: source :: _⟩, scope => do
    let list ← evaluate source scope
    let handles ← inspect source.location (·.asList list)
    let results ← handles.mapM fun h => evaluate body (scope.withElement element.text h)
    create (.list results)
  | ⟨.call, location, _, callee :: arguments⟩, scope => do
    let handle ← evaluate callee scope
    let body ← inspect location (·.asFunction handle)
    let args ← evaluateArguments arguments scope .empty
    invoke location (arguments.map (·.location)) body args
  | ⟨.program, location, _, statements⟩, _ => do
    record (.evaluatingImport location.source)
    let scope ← fun m => (execute statements .empty m).finish
    create (.struct scope.bindings)
  | ⟨kind, location, _, _⟩, _ => fail location (.unexpectedNode kind)

def evaluateAll : List Node → Scope → Eval φ (List Handle)
  | [], _ => return []
  | n :: ns, scope => do
    let handle ← evaluate n scope
    let handles ← evaluateAll ns scope
    return handle :: handles

def evaluateArguments : List Node → Scope → Arguments → Eval φ Arguments
  | [], _, args => return args
  | ⟨.keyword, location, _, []⟩ :: _, _, _ => fail location (.unexpectedNode .keyword)
  | ⟨.keyword, _, text?, value :: _⟩ :: ns, scope, args => do
    let handle ← evaluate value scope
    evaluateArguments ns scope (args.pushKeyword (text?.getD "") handle)
  | n :: ns, scope, args => do
    let handle ← evaluate n scope
    evaluateArguments ns scope (args.pushPositional handle)

/-- Runs statements one after the other, up to the first that stops with
errors. -/
def execute : List Node → Scope → Machine φ → Interpretation φ
  | [], scope, m => ⟨m, scope, []⟩
  | ⟨.assignment, location, _, target :: value :: _⟩ :: ns, scope, m =>
    Interpretation.step scope (do
      record (.executing .assignment location)
      let handle ← evaluate value scope
      assign location scope target.text handle) (fun scope m => execute ns scope m) m
  | ⟨.call, location, text?, children⟩ :: ns, scope, m =>
    Interpretation.step scope (do
      record (.executing .call location)
      let _ ← evaluate ⟨.call, location, text?, children⟩ scope
      return scope) (fun scope m => execute ns scope m) m
  | ⟨kind, location, _, _⟩ :: ns, scope, m =>
    Interpretation.step scope (do
      record (.executing kind location)
      fail location (.unexpectedNode kind)) (fun scope m => execute ns scope m) m

end

def executeProgram (program : Node) (scope : Scope) (m : Machine φ) : Interpretation φ :=
  match program.kind with
  | .program => execute program.children scope m
  | kind => ⟨m, scope, [⟨.unexpectedNode kind, program.location⟩]⟩

def interpret (program : Node) (scope : Scope) (m : Machine φ) : Interpretation φ :=
  let begun := m.journal.record (.interpreting program.children.length)
  let result := executeProgram program scope { m with journal := begun }
  match result.errors with
  | [] => result
  | errors =>
    let journal := result.machine.journal.record (.interpretationStopped errors.length)
    { result with machine := { result.machine with journal } }

end BuildScript
