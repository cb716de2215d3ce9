import BuildScript.Value.Arena

namespace BuildScript

structure Argument where
  id : Nat
  object : Handle
deriving DecidableEq

/-- Arguments are numbered in the order they were evaluated, positional and
keyword ones alike. Of a repeated keyword the first one counts, but the others
take a number too. -/
structure Arguments where
  positional : List Argument := []
  keyword : List (String × Argument) := []
  count : Nat := 0

inductive ArgumentError where
  | missingPositional (index : Nat)
  | missingKeyword (name : String)
deriving DecidableEq

def ArgumentError.message : ArgumentError → String
  | missingPositional index => "Missing positional argument " ++ toString index
  | missingKeyword name => "Missing keyword argument '" ++ name ++ "'"

namespace Arguments

def empty : Arguments := {}

def nextId (args : Arguments) : Nat := args.count

def pushPositional (args : Arguments) (object : Handle) : Arguments :=
  { args with
    positional := args.positional ++ [⟨args.count, object⟩]
    count := args.count + 1 }

def pushKeyword (args : Arguments) (name : String) (object : Handle) : Arguments :=
  if name ∈ args.keyword.map Prod.fst then { args with count := args.count + 1 }
  else
    { args with
      keyword := args.keyword ++ [(name, ⟨args.count, object⟩)]
      count := args.count + 1 }

def getPositional (args : Arguments) (index : Nat) : Except ArgumentError Argument :=
  match args.positional[index]? with
  | some arg => .ok arg
  | none => .error (.missingPositional index)

def getKeyword (args : Arguments) (name : String) : Except ArgumentError Argument :=
  match args.keyword.lookup name with
  | some arg => .ok arg
  | none => .error (.missingKeyword name)

/-- The number of arguments a function can see. -/
def size (args : Arguments) : Nat := args.positional.length + args.keyword.length

def isEmpty (args : Arguments) : Bool := args.size == 0

def describe {φ : Type} (args : Arguments) (arena : Arena φ) : String :=
  let positional := args.positional.map fun arg =>
    toString arg.id ++ ":" ++ arena.render arg.object
  let keyword := args.keyword.map fun e =>
    e.1 ++ "@" ++ toString e.2.id ++ ":" ++ arena.render e.2.object
  toString args.size ++ "|" ++ ",".intercalate positional ++ "|" ++ ",".intercalate keyword

end Arguments

end BuildScript
