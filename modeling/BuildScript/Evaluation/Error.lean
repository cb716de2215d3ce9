import BuildScript.Tree.Node
import BuildScript.Scope

namespace BuildScript

inductive RuntimeFault where
  | scope (error : ScopeError)
  | object (error : ObjectError)
  | nullAssignment (name : String)
  /-- a function found fault with the call as a whole -/
  | call (message : String)
  /-- a function found fault with one argument -/
  | argument (message : String)
  /-- a tree has a node where no such node belongs -/
  | unexpectedNode (kind : NodeKind)
deriving DecidableEq

def RuntimeFault.message : RuntimeFault → String
  | scope e => e.message
  | object e => e.message
  | nullAssignment name => "Cannot assign null to '" ++ name ++ "'"
  | call message => message
  | argument message => message
  | unexpectedNode kind => "Unexpected node '" ++ kind.name ++ "'"

structure RuntimeError where
  fault : RuntimeFault
  location : Location
deriving DecidableEq

def RuntimeError.message (e : RuntimeError) : String := e.fault.message

end BuildScript
