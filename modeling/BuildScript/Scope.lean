import BuildScript.Value.Object

namespace BuildScript

inductive Scope where
  | root (bindings : Bindings)
  | nested (bindings : Bindings) (outer : Scope)

inductive ScopeError where
  | undefined (name : String)
  | alreadyDefined (name : String)
deriving DecidableEq

def ScopeError.message : ScopeError → String
  | undefined name => "Undefined variable '" ++ name ++ "'"
  | alreadyDefined name => "Variable '" ++ name ++ "' is already defined"

namespace Scope

def empty : Scope := root .empty

/-- The bindings made in this scope itself. -/
def bindings : Scope → Bindings
  | root bindings => bindings
  | nested bindings _ => bindings

def rootBindings : Scope → Bindings
  | root bindings => bindings
  | nested _ outer => outer.rootBindings

def push (s : Scope) : Scope := nested .empty s

/-- The scope around this one. A root scope stays. -/
def pop : Scope → Scope
  | root bindings => root bindings
  | nested _ outer => outer

def get : Scope → String → Except ScopeError Handle
  | root bindings, name =>
    match bindings.find? name with
    | some handle => .ok handle
    | none => .error (.undefined name)
  | nested bindings outer, name =>
    match bindings.find? name with
    | some handle => .ok handle
    | none => outer.get name

def put (s : Scope) (name : String) (handle : Handle) : Except ScopeError Scope :=
  match s.bindings.add? name handle, s with
  | none, _ => .error (.alreadyDefined name)
  | some bindings, root _ => .ok (root bindings)
  | some bindings, nested _ outer => .ok (nested bindings outer)

@[simp] theorem pop_push (s : Scope) : s.push.pop = s := rfl

@[simp] theorem get_push (s : Scope) (name : String) : s.push.get name = s.get name := rfl

@[simp] theorem rootBindings_push (s : Scope) : s.push.rootBindings = s.rootBindings := rfl

end Scope

end BuildScript
