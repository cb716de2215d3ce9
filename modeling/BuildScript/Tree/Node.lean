import BuildScript.Text.Source

/-!
The tree of a program. Every node has a kind, the place it was read at, an
optional text and children. A tree that was read from a text has the shape

    program      statements
    assignment   binder, value
    call         callee object, arguments
    keyword      (name) value
    list         entries
    listFor      body, binder, source
    object       (name) nothing, or the object the name is an attribute of
    binder       (name)
    string       (contents)

so `a.b.c` is the object `c` around the object `b` around the object `a`.
-/

namespace BuildScript

inductive NodeKind where
  | program
  | assignment
  | call
  | keyword
  | list
  | listFor
  | object
  | binder
  | string
deriving DecidableEq

namespace NodeKind

def all : List NodeKind :=
  [program, assignment, call, keyword, list, listFor, object, binder, string]

def name : NodeKind → String
  | program => "PROGRAM"
  | assignment => "ASSIGNMENT_STATEMENT"
  | call => "CALL_STATEMENT"
  | keyword => "KWARG"
  | list => "LIST"
  | listFor => "LIST_FOR"
  | object => "OBJECT"
  | binder => "VARIABLE"
  | string => "STRING"

def ofName? (name : String) : Option NodeKind :=
  all.find? (·.name == name)

end NodeKind

structure Node where
  kind : NodeKind
  location : Location
  text? : Option String
  children : List Node

namespace Node

def text (n : Node) : String := n.text?.getD ""

/-- The node at the end of a path of child indices. -/
def descend? : List Nat → Node → Option Node
  | [], n => some n
  | i :: path, n => n.children[i]?.bind (descend? path)

mutual

/-- Whether two trees are the same, locations included. -/
def same : Node → Node → Bool
  | ⟨k₁, l₁, t₁, cs₁⟩, ⟨k₂, l₂, t₂, cs₂⟩ =>
    k₁ == k₂ && l₁ == l₂ && t₁ == t₂ && sameAll cs₁ cs₂

def sameAll : List Node → List Node → Bool
  | [], [] => true
  | m :: ms, n :: ns => same m n && sameAll ms ns
  | _, _ => false

end

mutual

/-- The tree on one line: kind, text if there is any, and the children in
parentheses if there are any. -/
def render : Node → String
  | ⟨kind, _, text?, children⟩ =>
    let text := text?.getD ""
    kind.name ++ (if text.isEmpty then "" else ":" ++ text) ++
      (if children.isEmpty then "" else " ( " ++ renderAll children ++ ")")

def renderAll : List Node → String
  | [] => ""
  | n :: ns => render n ++ " " ++ renderAll ns

end

end Node

end BuildScript
