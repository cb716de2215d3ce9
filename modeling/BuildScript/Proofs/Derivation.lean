import Mathlib.Data.List.Forall2
import BuildScript.Token.Basic
import BuildScript.Tree.Node

/-!
Derivation trees of the grammar, read without any order between alternatives.
A derivation tree has one constructor for each alternative, and its yield is
the sequence of token kinds at its leaves. A sequence of kinds may have more
than one tree: `a (b)` in a list is a call or two entries.
-/

namespace BuildScript.Derivation

structure Path where
  name : String
  attributes : List String

mutual

inductive Value where
  | inclusion (specifier : String)
  | call (callee : Path) (arguments : List Argument)
  | object (path : Path)
  | parenthesized (path : Path)
  | list (entries : List Value)
  | listFor (body : Value) (element : String) (source : Value)
  | string (text : String)

inductive Argument where
  | keyword (name : String) (value : Value)
  | positional (value : Value)

end

def Argument.value : Argument → Value
  | .keyword _ value => value
  | .positional value => value

inductive Statement where
  | assignment (target : String) (value : Value)
  | call (callee : Path) (arguments : List Argument)

def attributeKinds (attributes : List String) : List TokenKind :=
  attributes.flatMap fun name => [.dot, .identifier name]

def Path.kinds (path : Path) : List TokenKind :=
  .identifier path.name :: attributeKinds path.attributes

mutual

/-- The yield of a value. -/
def Value.kinds : Value → List TokenKind
  | .inclusion specifier => [.identifier "import", .parenOpen, .string specifier, .parenClose]
  | .call callee arguments =>
      callee.kinds ++ .parenOpen :: (argumentKinds arguments ++ [.parenClose])
  | .object path => path.kinds
  | .parenthesized path => .parenOpen :: (path.kinds ++ [.parenClose])
  | .list entries => .bracketOpen :: (entryKinds entries ++ [.bracketClose])
  | .listFor body element source =>
      .bracketOpen :: (body.kinds ++ .forKeyword :: .identifier element :: .inKeyword ::
        (source.kinds ++ [.bracketClose]))
  | .string text => [.string text]

def entryKinds : List Value → List TokenKind
  | [] => []
  | value :: values => value.kinds ++ entryKinds values

def Argument.kinds : Argument → List TokenKind
  | .keyword name value => .identifier name :: .assign :: value.kinds
  | .positional value => value.kinds

def argumentKinds : List Argument → List TokenKind
  | [] => []
  | argument :: arguments => argument.kinds ++ argumentKinds arguments

end

theorem entryKinds_eq_flatMap (values : List Value) :
    entryKinds values = values.flatMap Value.kinds := by
  induction values with
  | nil => rfl
  | cons value values ih => rw [entryKinds, ih, List.flatMap_cons]

theorem argumentKinds_eq_flatMap (arguments : List Argument) :
    argumentKinds arguments = arguments.flatMap Argument.kinds := by
  induction arguments with
  | nil => rfl
  | cons argument arguments ih => rw [argumentKinds, ih, List.flatMap_cons]

def callKinds (callee : Path) (arguments : List Argument) : List TokenKind :=
  callee.kinds ++ .parenOpen :: (argumentKinds arguments ++ [.parenClose])

def Statement.kinds : Statement → List TokenKind
  | .assignment target value => .identifier target :: .assign :: value.kinds
  | .call callee arguments => callKinds callee arguments

def statementKinds (statements : List Statement) : List TokenKind :=
  statements.flatMap Statement.kinds

theorem statementKinds_cons (first : Statement) (others : List Statement) :
    statementKinds (first :: others) = first.kinds ++ statementKinds others :=
  List.flatMap_cons

theorem Statement.kinds_eq_cons (statement : Statement) :
    ∃ name kinds, statement.kinds = .identifier name :: kinds := by
  cases statement with
  | assignment target value => exact ⟨target, _, rfl⟩
  | call callee arguments => exact ⟨callee.name, _, rfl⟩

theorem Statement.kinds_ne_nil (statement : Statement) : statement.kinds ≠ [] := by
  obtain ⟨name, kinds, hkinds⟩ := statement.kinds_eq_cons
  simp [hkinds]

def programKinds (statements : List Statement) : List TokenKind :=
  statementKinds statements ++ [.endOfStream]

def opensValue : TokenKind → Bool
  | .identifier _ => true
  | .string _ => true
  | .bracketOpen => true
  | .parenOpen => true
  | _ => false

def Value.isParenthesized : Value → Bool
  | .parenthesized _ => true
  | _ => false

def Argument.isParenthesized : Argument → Bool
  | .keyword _ _ => false
  | .positional value => value.isParenthesized

/-- A value begins with a kind that opens values, and with a parenthesis only
if it is parenthesized. -/
theorem Value.kinds_eq_cons (value : Value) :
    ∃ kind kinds, value.kinds = kind :: kinds ∧ opensValue kind = true ∧
      (value.isParenthesized = false → kind ≠ .parenOpen) := by
  cases value with
  | parenthesized path => exact ⟨_, _, rfl, rfl, fun h => by cases h⟩
  | inclusion specifier => exact ⟨_, _, rfl, rfl, fun _ => by simp⟩
  | call callee arguments => exact ⟨_, _, rfl, rfl, fun _ => by simp⟩
  | object path => exact ⟨_, _, rfl, rfl, fun _ => by simp⟩
  | list entries => exact ⟨_, _, rfl, rfl, fun _ => by simp⟩
  | listFor body element source => exact ⟨_, _, rfl, rfl, fun _ => by simp⟩
  | string text => exact ⟨_, _, rfl, rfl, fun _ => by simp⟩

theorem Argument.kinds_eq_cons (argument : Argument) :
    ∃ kind kinds, argument.kinds = kind :: kinds ∧ opensValue kind = true ∧
      (argument.isParenthesized = false → kind ≠ .parenOpen) := by
  cases argument with
  | keyword name value => exact ⟨_, _, rfl, rfl, fun _ => by simp⟩
  | positional value => exact value.kinds_eq_cons

theorem Value.kinds_ne_nil (value : Value) : value.kinds ≠ [] := by
  obtain ⟨kind, kinds, hkinds, -⟩ := value.kinds_eq_cons
  simp [hkinds]

theorem Argument.kinds_ne_nil (argument : Argument) : argument.kinds ≠ [] := by
  obtain ⟨kind, kinds, hkinds, -⟩ := argument.kinds_eq_cons
  simp [hkinds]

theorem argumentKinds_append_eq_string {arguments : List Argument} {rest kinds : List TokenKind}
    {text : String} (h : argumentKinds arguments ++ rest = .string text :: kinds) :
    (arguments = [] ∧ rest = .string text :: kinds) ∨
      ∃ others, arguments = .positional (.string text) :: others ∧
        argumentKinds others ++ rest = kinds := by
  rcases arguments with _ | ⟨argument, others⟩
  · exact .inl ⟨rfl, h⟩
  · right
    refine ⟨others, ?_⟩
    cases argument with
    | keyword name value => simp [argumentKinds, Argument.kinds] at h
    | positional value =>
        cases value with
        | string written => simpa [argumentKinds, Argument.kinds, Value.kinds] using h
        | _ => simp [argumentKinds, Argument.kinds, Value.kinds, Path.kinds] at h

/-- The specifier of a sequence of kinds that is `import ( STRING )`. -/
def inclusion? : List TokenKind → Option String
  | [.identifier name, .parenOpen, .string specifier, .parenClose] =>
      if name = "import" then some specifier else none
  | _ => none

mutual

/-- The specifiers of a value: one for each `import ( STRING )` that stands
where a value begins, derived as an inclusion or as a call. -/
def Value.specifiers : Value → List String
  | .inclusion specifier => [specifier]
  | .call callee arguments =>
      (inclusion? (callKinds callee arguments)).toList ++ argumentSpecifiers arguments
  | .object _ => []
  | .parenthesized _ => []
  | .list entries => entrySpecifiers entries
  | .listFor body _ source => body.specifiers ++ source.specifiers
  | .string _ => []

def entrySpecifiers : List Value → List String
  | [] => []
  | value :: values => value.specifiers ++ entrySpecifiers values

def Argument.specifiers : Argument → List String
  | .keyword _ value => value.specifiers
  | .positional value => value.specifiers

def argumentSpecifiers : List Argument → List String
  | [] => []
  | argument :: arguments => argument.specifiers ++ argumentSpecifiers arguments

end

/-- The specifiers of a statement. A call that is a statement begins no
value. -/
def Statement.specifiers : Statement → List String
  | .assignment _ value => value.specifiers
  | .call _ arguments => argumentSpecifiers arguments

def programSpecifiers (statements : List Statement) : List String :=
  statements.flatMap Statement.specifiers

/-- The tree that attributes make of an owner: each name goes around what
stands before it. -/
def AttributesHaveTree (owner : Node) : List String → Node → Prop
  | [], node => node = owner
  | name :: names, node =>
      ∃ location, AttributesHaveTree ⟨.object, location, some name, [owner]⟩ names node

def Path.HasTree (path : Path) (node : Node) : Prop :=
  ∃ location, AttributesHaveTree ⟨.object, location, some path.name, []⟩ path.attributes node

section Trees

variable (included : String → Node → Prop)

mutual

/-- The tree of a value, wherever its nodes are located. Names, contents and
order are kept, punctuation is gone, and so are the parentheses around an
object. The trees of an inclusion are given by `included`. -/
def Value.HasTree : Value → Node → Prop
  | .inclusion specifier, node => included specifier node
  | .call callee arguments, node =>
      ∃ location object nodes, node = ⟨.call, location, none, object :: nodes⟩ ∧
        callee.HasTree object ∧ ArgumentsHaveTrees arguments nodes
  | .object path, node => path.HasTree node
  | .parenthesized path, node => path.HasTree node
  | .list entries, node =>
      ∃ location nodes, node = ⟨.list, location, none, nodes⟩ ∧ EntriesHaveTrees entries nodes
  | .listFor body element source, node =>
      ∃ location place bodyNode sourceNode,
        node = ⟨.listFor, location, none,
          [bodyNode, ⟨.binder, place, some element, []⟩, sourceNode]⟩ ∧
        body.HasTree bodyNode ∧ source.HasTree sourceNode
  | .string text, node => ∃ location, node = ⟨.string, location, some text, []⟩

def EntriesHaveTrees : List Value → List Node → Prop
  | [], nodes => nodes = []
  | value :: values, nodes =>
      ∃ node rest, nodes = node :: rest ∧ value.HasTree node ∧ EntriesHaveTrees values rest

def Argument.HasTree : Argument → Node → Prop
  | .keyword name value, node =>
      ∃ location valueNode, node = ⟨.keyword, location, some name, [valueNode]⟩ ∧
        value.HasTree valueNode
  | .positional value, node => value.HasTree node

def ArgumentsHaveTrees : List Argument → List Node → Prop
  | [], nodes => nodes = []
  | argument :: arguments, nodes =>
      ∃ node rest, nodes = node :: rest ∧ argument.HasTree node ∧
        ArgumentsHaveTrees arguments rest

end

def Statement.HasTree : Statement → Node → Prop
  | .assignment target value, node =>
      ∃ location place valueNode,
        node = ⟨.assignment, location, none, [⟨.binder, place, some target, []⟩, valueNode]⟩ ∧
        value.HasTree included valueNode
  | .call callee arguments, node =>
      ∃ location object nodes, node = ⟨.call, location, none, object :: nodes⟩ ∧
        callee.HasTree object ∧ ArgumentsHaveTrees included arguments nodes

def ProgramHasTree (statements : List Statement) (node : Node) : Prop :=
  ∃ location nodes, node = ⟨.program, location, none, nodes⟩ ∧
    List.Forall₂ (Statement.HasTree included) statements nodes

end Trees

section Mono

variable {included included' : String → Node → Prop}

mutual

theorem Value.HasTree.mono (h : ∀ s node, included s node → included' s node) :
    ∀ {value : Value} {node : Node}, value.HasTree included node → value.HasTree included' node
  | .inclusion specifier, node, htree => h specifier node htree
  | .call _ _, _, ⟨location, object, nodes, hnode, hcallee, harguments⟩ =>
      ⟨location, object, nodes, hnode, hcallee, ArgumentsHaveTrees.mono h harguments⟩
  | .object _, _, htree => htree
  | .parenthesized _, _, htree => htree
  | .list _, _, ⟨location, nodes, hnode, hentries⟩ =>
      ⟨location, nodes, hnode, EntriesHaveTrees.mono h hentries⟩
  | .listFor _ _ _, _, ⟨location, place, bodyNode, sourceNode, hnode, hbody, hsource⟩ =>
      ⟨location, place, bodyNode, sourceNode, hnode, hbody.mono h, hsource.mono h⟩
  | .string _, _, htree => htree

theorem EntriesHaveTrees.mono (h : ∀ s node, included s node → included' s node) :
    ∀ {values : List Value} {nodes : List Node}, EntriesHaveTrees included values nodes →
      EntriesHaveTrees included' values nodes
  | [], _, hnodes => hnodes
  | _ :: _, _, ⟨node, rest, hnodes, hvalue, hvalues⟩ =>
      ⟨node, rest, hnodes, hvalue.mono h, hvalues.mono h⟩

theorem Argument.HasTree.mono (h : ∀ s node, included s node → included' s node) :
    ∀ {argument : Argument} {node : Node}, argument.HasTree included node →
      argument.HasTree included' node
  | .keyword _ _, _, ⟨location, valueNode, hnode, hvalue⟩ =>
      ⟨location, valueNode, hnode, hvalue.mono h⟩
  | .positional value, node, hvalue =>
      Value.HasTree.mono h (show value.HasTree included node from hvalue)

theorem ArgumentsHaveTrees.mono (h : ∀ s node, included s node → included' s node) :
    ∀ {arguments : List Argument} {nodes : List Node}, ArgumentsHaveTrees included arguments nodes →
      ArgumentsHaveTrees included' arguments nodes
  | [], _, hnodes => hnodes
  | _ :: _, _, ⟨node, rest, hnodes, hargument, harguments⟩ =>
      ⟨node, rest, hnodes, hargument.mono h, harguments.mono h⟩

end

theorem Statement.HasTree.mono (h : ∀ s node, included s node → included' s node)
    {statement : Statement} {node : Node} (htree : statement.HasTree included node) :
    statement.HasTree included' node := by
  cases statement with
  | assignment target value =>
      obtain ⟨location, place, valueNode, hnode, hvalue⟩ := htree
      exact ⟨location, place, valueNode, hnode, hvalue.mono h⟩
  | call callee arguments =>
      obtain ⟨location, object, nodes, hnode, hcallee, harguments⟩ := htree
      exact ⟨location, object, nodes, hnode, hcallee, harguments.mono h⟩

theorem ProgramHasTree.mono (h : ∀ s node, included s node → included' s node)
    {statements : List Statement} {node : Node} (htree : ProgramHasTree included statements node) :
    ProgramHasTree included' statements node := by
  obtain ⟨location, nodes, hnode, hall⟩ := htree
  exact ⟨location, nodes, hnode, hall.imp fun _ _ => Statement.HasTree.mono h⟩

end Mono

end BuildScript.Derivation
