import BuildScript.Call.Arguments

namespace BuildScript

structure Reply where
  value : Handle := .null
  callErrors : List String := []
  argumentErrors : List (Nat × String) := []
deriving DecidableEq

namespace Reply

def returning (value : Handle) : Reply := { value }

def failure (message : String) : Reply := { callErrors := [message] }

def rejecting (arg : Argument) (message : String) : Reply :=
  { argumentErrors := [(arg.id, message)] }

def isSuccess (r : Reply) : Bool := r.callErrors.isEmpty && r.argumentErrors.isEmpty

end Reply

/-- A host whose functions are of type `φ`. A function gets the arguments of a
call and may add objects to the arena; it answers with a value and with what was
wrong, with the call as a whole or with single arguments. -/
class Host (φ : Type) where
  call : φ → Arena φ → Arguments → Reply × Arena φ

end BuildScript
