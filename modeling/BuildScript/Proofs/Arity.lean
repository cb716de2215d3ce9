import BuildScript.Proofs.Lexemes
import BuildScript.Tree.Node

/-!
The arity table of trees: which texts and which children the nodes of each
kind have.

    program      -            statements
    assignment   -            binder, value
    call         -            object, arguments
    keyword      name         value
    list         -            values
    listFor      -            value, binder, value
    object       name         nothing or an object
    binder       name         nothing
    string       contents     nothing
-/

namespace BuildScript

def NodeKind.isValue : NodeKind → Bool
  | .object => true
  | .call => true
  | .string => true
  | .list => true
  | .listFor => true
  | .program => true
  | _ => false

def IsArgument (kind : NodeKind) : Prop := kind = .keyword ∨ kind.isValue = true

def IsStatement (kind : NodeKind) : Prop := kind = .assignment ∨ kind = .call

namespace Node

/-- The text of a node is there and is a name. -/
def IsNamed (text? : Option String) : Prop := ∃ name, text? = some name ∧ IsName name

/-- What the table asks of a single node. -/
def Obeys : Node → Prop
  | ⟨.program, _, text?, children⟩ =>
      text? = none ∧ ∀ child ∈ children, child.kind = .assignment ∨ child.kind = .call
  | ⟨.assignment, _, _, children⟩ =>
      ∃ target value, children = [target, value] ∧ target.kind = .binder ∧
        value.kind.isValue = true
  | ⟨.call, _, _, children⟩ =>
      ∃ callee arguments, children = callee :: arguments ∧ callee.kind = .object ∧
        ∀ argument ∈ arguments, argument.kind = .keyword ∨ argument.kind.isValue = true
  | ⟨.keyword, _, text?, children⟩ =>
      IsNamed text? ∧ ∃ value, children = [value] ∧ value.kind.isValue = true
  | ⟨.list, _, _, children⟩ => ∀ child ∈ children, child.kind.isValue = true
  | ⟨.listFor, _, _, children⟩ =>
      ∃ body element source, children = [body, element, source] ∧ body.kind.isValue = true ∧
        element.kind = .binder ∧ source.kind.isValue = true
  | ⟨.object, _, text?, children⟩ =>
      IsNamed text? ∧ (children = [] ∨ ∃ owner, children = [owner] ∧ owner.kind = .object)
  | ⟨.binder, _, text?, children⟩ => IsNamed text? ∧ children = []
  | ⟨.string, _, _, children⟩ => children = []

mutual

/-- A tree all of whose nodes obey the table. -/
def WellShaped : Node → Prop
  | ⟨kind, location, text?, children⟩ =>
      Obeys ⟨kind, location, text?, children⟩ ∧ WellShapedAll children

def WellShapedAll : List Node → Prop
  | [] => True
  | node :: nodes => node.WellShaped ∧ WellShapedAll nodes

end

theorem WellShaped.obeys {node : Node} (h : node.WellShaped) : node.Obeys := by
  rcases node with ⟨kind, location, text?, children⟩
  exact h.1

theorem WellShaped.children {node : Node} (h : node.WellShaped) :
    WellShapedAll node.children := by
  rcases node with ⟨kind, location, text?, children⟩
  exact h.2

theorem wellShapedAll_iff {nodes : List Node} :
    WellShapedAll nodes ↔ ∀ node ∈ nodes, node.WellShaped := by
  induction nodes with
  | nil => simp [WellShapedAll]
  | cons node nodes ih => simp [WellShapedAll, ih]

theorem WellShaped.child {node below : Node} (h : node.WellShaped)
    (hbelow : below ∈ node.children) :
    below.WellShaped :=
  wellShapedAll_iff.mp h.children below hbelow

theorem WellShaped.obeys_descend {path : List Nat} {node below : Node} (h : node.WellShaped)
    (hpath : node.descend? path = some below) : below.Obeys := by
  induction path generalizing node with
  | nil =>
      obtain rfl : node = below := by simpa [descend?] using hpath
      exact h.obeys
  | cons i path ih =>
      obtain ⟨child, hchild, hpath⟩ := Option.bind_eq_some_iff.mp hpath
      exact ih (h.child (List.mem_of_getElem? hchild)) hpath

end Node

end BuildScript
