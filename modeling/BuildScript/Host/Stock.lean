import BuildScript.Host.Builtin

namespace BuildScript

inductive StockFunction where
  | builtin (b : Builtin)
  /-- answers with the positional argument at an index -/
  | positional (index : Nat)
  /-- answers with the keyword argument of a name -/
  | keyword (name : String)
  /-- answers with null -/
  | nothing
  /-- answers with the same object every time -/
  | constant (value : Handle)
  /-- answers with a list of the positional arguments -/
  | collect
  /-- answers with a description of its arguments -/
  | describe
  /-- finds fault with every argument and with the call -/
  | reject (onPositional onKeyword : Option String) (onCall : List String)

namespace StockFunction

def pick (arg : Except ArgumentError Argument) : Reply :=
  match arg with
  | .ok arg => .returning arg.object
  | .error e => .failure e.message

def objections (args : Arguments) (onPositional onKeyword : Option String) : List (Nat × String) :=
  let positional := match onPositional with
    | none => []
    | some message => args.positional.map fun arg => (arg.id, message)
  let keyword := match onKeyword with
    | none => []
    | some message => args.keyword.map fun e => (e.2.id, e.1 ++ ": " ++ message)
  positional ++ keyword

def call (f : StockFunction) (arena : Arena StockFunction) (args : Arguments) :
    Reply × Arena StockFunction :=
  match f with
  | builtin b => b.call arena args
  | positional index => (pick (args.getPositional index), arena)
  | keyword name => (pick (args.getKeyword name), arena)
  | nothing => (.returning .null, arena)
  | constant value => (.returning value, arena)
  | collect => Builtin.answer arena (.list (args.positional.map (·.object)))
  | describe => Builtin.answer arena (.string (args.describe arena))
  | reject onPositional onKeyword onCall =>
    let (value, arena) := arena.create (.string "unused")
    (⟨value, onCall, objections args onPositional onKeyword⟩, arena)

instance : Host StockFunction := ⟨StockFunction.call⟩

end StockFunction

inductive Blueprint where
  | null
  | string (text : String)
  | list (items : List Blueprint)
  | struct (attributes : List (String × Blueprint))
  | reference (name : String)
  | function (f : StockFunction)
  /-- a function that answers with the same value every time -/
  | constant (value : Blueprint)

namespace Blueprint

/-- The object a name is bound to; null if it is not bound. -/
def referent (scope : Scope) (name : String) : Handle :=
  match scope.get name with
  | .ok handle => handle
  | .error _ => .null

mutual

/-- Makes the value of a blueprint: the parts first, in order, then the whole.
A reference is to what a name is bound to. -/
def build (scope : Scope) : Blueprint → Arena StockFunction → Handle × Arena StockFunction
  | null, arena => (.null, arena)
  | string text, arena => arena.create (.string text)
  | list items, arena =>
    let (handles, arena) := buildAll scope items arena
    arena.create (.list handles)
  | struct attributes, arena =>
    let (pairs, arena) := buildPairs scope attributes arena
    arena.create (.struct (.ofPairs pairs))
  | reference name, arena => (referent scope name, arena)
  | function f, arena => arena.create (.function f)
  | constant value, arena =>
    let (handle, arena) := build scope value arena
    arena.create (.function (.constant handle))

def buildAll (scope : Scope) :
    List Blueprint → Arena StockFunction → List Handle × Arena StockFunction
  | [], arena => ([], arena)
  | b :: bs, arena =>
    let (handle, arena) := build scope b arena
    let (handles, arena) := buildAll scope bs arena
    (handle :: handles, arena)

def buildPairs (scope : Scope) :
    List (String × Blueprint) → Arena StockFunction → List (String × Handle) × Arena StockFunction
  | [], arena => ([], arena)
  | (name, b) :: bs, arena =>
    let (handle, arena) := build scope b arena
    let (pairs, arena) := buildPairs scope bs arena
    ((name, handle) :: pairs, arena)

end

end Blueprint

end BuildScript
