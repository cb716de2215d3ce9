import BuildScript.Proofs.PreferredDerivation
import BuildScript.Proofs.SpelledTrees

namespace BuildScript.Derivation

/-- The tree that attributes make of an owner. Each is located at its name. -/
def AttributesPlaced (owner : Node) : List String → Node → List Token → Prop
  | [], node, used => node = owner ∧ used = []
  | name :: names, node, used =>
      ∃ dot word others, used = dot :: word :: others ∧ dot.kind = .dot ∧
        word.kind = .identifier name ∧
        AttributesPlaced ⟨.object, word.location, some name, [owner]⟩ names node others

def Path.Placed (path : Path) (node : Node) (used : List Token) : Prop :=
  ∃ word others, used = word :: others ∧ word.kind = .identifier path.name ∧
    AttributesPlaced ⟨.object, word.location, some path.name, []⟩ path.attributes node others

section Placed

variable (included : String → Location → Node → Prop)

mutual

def Value.Placed : Value → Node → List Token → Prop
  | .inclusion specifier, node, used =>
      ∃ word opening text closing, used = [word, opening, text, closing] ∧
        word.kind = .identifier "import" ∧ opening.kind = .parenOpen ∧
        text.kind = .string specifier ∧ closing.kind = .parenClose ∧
        included specifier word.location node
  | .call callee arguments, node, used =>
      ∃ calleeUsed opening inner closing object nodes,
        used = calleeUsed ++ opening :: (inner ++ [closing]) ∧ callee.Placed object calleeUsed ∧
        opening.kind = .parenOpen ∧ ArgumentsPlaced arguments nodes inner ∧
        closing.kind = .parenClose ∧
        ∃ first ∈ calleeUsed.head?, node = ⟨.call, first.location, none, object :: nodes⟩
  | .object path, node, used => path.Placed node used
  | .parenthesized path, node, used =>
      ∃ opening inner closing, used = opening :: (inner ++ [closing]) ∧
        opening.kind = .parenOpen ∧ path.Placed node inner ∧ closing.kind = .parenClose
  | .list entries, node, used =>
      ∃ opening inner closing nodes, used = opening :: (inner ++ [closing]) ∧
        opening.kind = .bracketOpen ∧ EntriesPlaced entries nodes inner ∧
        closing.kind = .bracketClose ∧ node = ⟨.list, opening.location, none, nodes⟩
  | .listFor body element source, node, used =>
      ∃ opening bodyUsed forToken word inToken sourceUsed closing bodyNode sourceNode,
        used = opening :: (bodyUsed ++ forToken :: word :: inToken :: (sourceUsed ++ [closing])) ∧
        opening.kind = .bracketOpen ∧ body.Placed bodyNode bodyUsed ∧
        forToken.kind = .forKeyword ∧ word.kind = .identifier element ∧
        inToken.kind = .inKeyword ∧ source.Placed sourceNode sourceUsed ∧
        closing.kind = .bracketClose ∧
        node = ⟨.listFor, opening.location, none,
          [bodyNode, ⟨.binder, word.location, some element, []⟩, sourceNode]⟩
  | .string text, node, used =>
      ∃ token, used = [token] ∧ token.kind = .string text ∧
        node = ⟨.string, token.location, some text, []⟩

def EntriesPlaced : List Value → List Node → List Token → Prop
  | [], nodes, used => nodes = [] ∧ used = []
  | value :: values, nodes, used =>
      ∃ node first others rest, nodes = node :: others ∧ used = first ++ rest ∧
        value.Placed node first ∧ EntriesPlaced values others rest

def Argument.Placed : Argument → Node → List Token → Prop
  | .keyword name value, node, used =>
      ∃ word equals others valueNode, used = word :: equals :: others ∧
        word.kind = .identifier name ∧ equals.kind = .assign ∧ value.Placed valueNode others ∧
        node = ⟨.keyword, word.location, some name, [valueNode]⟩
  | .positional value, node, used => value.Placed node used

def ArgumentsPlaced : List Argument → List Node → List Token → Prop
  | [], nodes, used => nodes = [] ∧ used = []
  | argument :: arguments, nodes, used =>
      ∃ node first others rest, nodes = node :: others ∧ used = first ++ rest ∧
        argument.Placed node first ∧ ArgumentsPlaced arguments others rest

end

def Statement.Placed : Statement → Node → List Token → Prop
  | .assignment target value, node, used =>
      ∃ word equals others valueNode, used = word :: equals :: others ∧
        word.kind = .identifier target ∧ equals.kind = .assign ∧
        value.Placed included valueNode others ∧
        node = ⟨.assignment, word.location, none,
          [⟨.binder, word.location, some target, []⟩, valueNode]⟩
  | .call callee arguments, node, used =>
      (Value.call callee arguments).Placed included node used

def StatementsPlaced : List Statement → List Node → List Token → Prop
  | [], nodes, used => nodes = [] ∧ used = []
  | statement :: statements, nodes, used =>
      ∃ node first others rest, nodes = node :: others ∧ used = first ++ rest ∧
        statement.Placed included node first ∧ StatementsPlaced statements others rest

end Placed

section Kinds

variable {included : String → Location → Node → Prop}

theorem map_kind_of_attributesPlaced {owner node : Node} {names : List String}
    {used : List Token} (h : AttributesPlaced owner names node used) :
    used.map Token.kind = attributeKinds names := by
  induction names generalizing owner used with
  | nil =>
      obtain ⟨-, rfl⟩ := h
      rfl
  | cons name names ih =>
      obtain ⟨dot, word, others, rfl, hdot, hword, hothers⟩ := h
      rw [List.map_cons, List.map_cons, hdot, hword, ih hothers]
      rfl

theorem Path.Placed.map_kind {path : Path} {node : Node} {used : List Token}
    (h : path.Placed node used) : used.map Token.kind = path.kinds := by
  obtain ⟨word, others, rfl, hword, hothers⟩ := h
  rw [List.map_cons, hword, map_kind_of_attributesPlaced hothers]
  rfl

mutual

/-- The leaves of a derivation are the tokens it is placed on. -/
theorem Value.Placed.map_kind : ∀ {value : Value} {node : Node} {used : List Token},
    value.Placed included node used → used.map Token.kind = value.kinds
  | .inclusion specifier, node, used => by
      rintro ⟨word, opening, text, closing, rfl, hword, hopening, htext, hclosing, -⟩
      simp [Value.kinds, hword, hopening, htext, hclosing]
  | .call callee arguments, node, used => by
      rintro ⟨calleeUsed, opening, inner, closing, object, nodes, rfl, hcallee, hopening,
        harguments, hclosing, -⟩
      simp [Value.kinds, hcallee.map_kind, hopening, ArgumentsPlaced.map_kind harguments, hclosing]
  | .object path, node, used => fun h => Path.Placed.map_kind h
  | .parenthesized path, node, used => by
      rintro ⟨opening, inner, closing, rfl, hopening, hpath, hclosing⟩
      simp [Value.kinds, hopening, hpath.map_kind, hclosing]
  | .list entries, node, used => by
      rintro ⟨opening, inner, closing, nodes, rfl, hopening, hentries, hclosing, -⟩
      simp [Value.kinds, hopening, EntriesPlaced.map_kind hentries, hclosing]
  | .listFor body element source, node, used => by
      rintro ⟨opening, bodyUsed, forToken, word, inToken, sourceUsed, closing, bodyNode,
        sourceNode, rfl, hopening, hbody, hfor, hword, hin, hsource, hclosing, -⟩
      simp [Value.kinds, hopening, hbody.map_kind, hfor, hword, hin, hsource.map_kind, hclosing]
  | .string text, node, used => by
      rintro ⟨token, rfl, htoken, -⟩
      simp [Value.kinds, htoken]

theorem EntriesPlaced.map_kind : ∀ {values : List Value} {nodes : List Node} {used : List Token},
    EntriesPlaced included values nodes used → used.map Token.kind = entryKinds values
  | [], nodes, used => by
      rintro ⟨-, rfl⟩
      rfl
  | value :: values, nodes, used => by
      rintro ⟨node, first, others, rest, rfl, rfl, hvalue, hvalues⟩
      rw [List.map_append, hvalue.map_kind, EntriesPlaced.map_kind hvalues, entryKinds]

theorem Argument.Placed.map_kind : ∀ {argument : Argument} {node : Node} {used : List Token},
    argument.Placed included node used → used.map Token.kind = argument.kinds
  | .keyword name value, node, used => by
      rintro ⟨word, equals, others, valueNode, rfl, hword, hequals, hvalue, -⟩
      simp [Argument.kinds, hword, hequals, hvalue.map_kind]
  | .positional value, node, used => fun h =>
      (show value.Placed included node used from h).map_kind

theorem ArgumentsPlaced.map_kind : ∀ {arguments : List Argument} {nodes : List Node}
    {used : List Token}, ArgumentsPlaced included arguments nodes used →
      used.map Token.kind = argumentKinds arguments
  | [], nodes, used => by
      rintro ⟨-, rfl⟩
      rfl
  | argument :: arguments, nodes, used => by
      rintro ⟨node, first, others, rest, rfl, rfl, hargument, harguments⟩
      rw [List.map_append, hargument.map_kind, ArgumentsPlaced.map_kind harguments,
        argumentKinds]

end

theorem Statement.Placed.map_kind {statement : Statement} {node : Node} {used : List Token}
    (h : statement.Placed included node used) : used.map Token.kind = statement.kinds := by
  cases statement with
  | assignment target value =>
      obtain ⟨word, equals, others, valueNode, rfl, hword, hequals, hvalue, -⟩ := h
      simp [Statement.kinds, hword, hequals, hvalue.map_kind]
  | call callee arguments =>
      exact (show (Value.call callee arguments).Placed included node used from h).map_kind

theorem StatementsPlaced.map_kind {statements : List Statement} {nodes : List Node}
    {used : List Token} (h : StatementsPlaced included statements nodes used) :
    used.map Token.kind = statementKinds statements := by
  induction statements generalizing nodes used with
  | nil =>
      obtain ⟨-, rfl⟩ := h
      rfl
  | cons statement statements ih =>
      obtain ⟨node, first, others, rest, rfl, rfl, hstatement, hstatements⟩ := h
      rw [List.map_append, hstatement.map_kind, ih hstatements, statementKinds_cons]

theorem StatementsPlaced.eq_nil_or_cons {statements : List Statement} {nodes : List Node}
    {used : List Token} (h : StatementsPlaced included statements nodes used) :
    (nodes = [] ∧ used = []) ∨
      ∃ name first others, nodes ≠ [] ∧ used = first :: others ∧ first.kind = .identifier name := by
  cases statements with
  | nil => exact .inl h
  | cons statement statements =>
      obtain ⟨node, used, others, rest, rfl, rfl, hstatement, -⟩ := h
      obtain ⟨name, kinds, hkinds⟩ := statement.kinds_eq_cons
      have hmap := hstatement.map_kind.trans hkinds
      obtain ⟨first, used', rfl, hfirst, -⟩ := List.map_eq_cons_iff.mp hmap
      exact .inr ⟨name, first, used' ++ rest, List.cons_ne_nil _ _, rfl, hfirst⟩

end Kinds

section Trees

variable {included : String → Location → Node → Prop} {shown : String → Node → Prop}

theorem attributesHaveTree_of_placed {owner node : Node} {names : List String}
    {used : List Token} (h : AttributesPlaced owner names node used) :
    AttributesHaveTree owner names node := by
  induction names generalizing owner used with
  | nil => exact h.1
  | cons name names ih =>
      obtain ⟨dot, word, others, -, -, -, hothers⟩ := h
      exact ⟨word.location, ih hothers⟩

theorem Path.Placed.hasTree {path : Path} {node : Node} {used : List Token}
    (h : path.Placed node used) : path.HasTree node := by
  obtain ⟨word, others, -, -, hothers⟩ := h
  exact ⟨word.location, attributesHaveTree_of_placed hothers⟩

mutual

/-- A tree that is placed on tokens is the tree of its derivation. -/
theorem Value.Placed.hasTree
    (h : ∀ s location node, included s location node → shown s node) :
    ∀ {value : Value} {node : Node} {used : List Token},
      value.Placed included node used → value.HasTree shown node
  | .inclusion specifier, node, used => by
      rintro ⟨word, opening, text, closing, -, -, -, -, -, htree⟩
      exact h specifier word.location node htree
  | .call callee arguments, node, used => by
      rintro ⟨calleeUsed, opening, inner, closing, object, nodes, -, hcallee, -, harguments, -,
        first, -, rfl⟩
      exact ⟨_, object, nodes, rfl, hcallee.hasTree, harguments.haveTrees h⟩
  | .object path, node, used => fun hpath => Path.Placed.hasTree hpath
  | .parenthesized path, node, used => by
      rintro ⟨opening, inner, closing, -, -, hpath, -⟩
      exact hpath.hasTree
  | .list entries, node, used => by
      rintro ⟨opening, inner, closing, nodes, -, -, hentries, -, rfl⟩
      exact ⟨_, nodes, rfl, hentries.haveTrees h⟩
  | .listFor body element source, node, used => by
      rintro ⟨opening, bodyUsed, forToken, word, inToken, sourceUsed, closing, bodyNode,
        sourceNode, -, -, hbody, -, -, -, hsource, -, rfl⟩
      exact ⟨_, _, bodyNode, sourceNode, rfl, hbody.hasTree h, hsource.hasTree h⟩
  | .string text, node, used => by
      rintro ⟨token, -, -, rfl⟩
      exact ⟨_, rfl⟩

theorem EntriesPlaced.haveTrees
    (h : ∀ s location node, included s location node → shown s node) :
    ∀ {values : List Value} {nodes : List Node} {used : List Token},
      EntriesPlaced included values nodes used → EntriesHaveTrees shown values nodes
  | [], nodes, used => fun hnodes => hnodes.1
  | value :: values, nodes, used => by
      rintro ⟨node, first, others, rest, rfl, -, hvalue, hvalues⟩
      exact ⟨node, others, rfl, hvalue.hasTree h, hvalues.haveTrees h⟩

theorem Argument.Placed.hasTree
    (h : ∀ s location node, included s location node → shown s node) :
    ∀ {argument : Argument} {node : Node} {used : List Token},
      argument.Placed included node used → argument.HasTree shown node
  | .keyword name value, node, used => by
      rintro ⟨word, equals, others, valueNode, -, -, -, hvalue, rfl⟩
      exact ⟨_, valueNode, rfl, hvalue.hasTree h⟩
  | .positional value, node, used => fun hvalue =>
      Value.Placed.hasTree h (show value.Placed included node used from hvalue)

theorem ArgumentsPlaced.haveTrees
    (h : ∀ s location node, included s location node → shown s node) :
    ∀ {arguments : List Argument} {nodes : List Node} {used : List Token},
      ArgumentsPlaced included arguments nodes used → ArgumentsHaveTrees shown arguments nodes
  | [], nodes, used => fun hnodes => hnodes.1
  | argument :: arguments, nodes, used => by
      rintro ⟨node, first, others, rest, rfl, -, hargument, harguments⟩
      exact ⟨node, others, rfl, hargument.hasTree h, harguments.haveTrees h⟩

end

theorem Statement.Placed.hasTree
    (h : ∀ s location node, included s location node → shown s node) {statement : Statement}
    {node : Node} {used : List Token} (hplaced : statement.Placed included node used) :
    statement.HasTree shown node := by
  cases statement with
  | assignment target value =>
      obtain ⟨word, equals, others, valueNode, -, -, -, hvalue, rfl⟩ := hplaced
      exact ⟨_, _, valueNode, rfl, hvalue.hasTree h⟩
  | call callee arguments =>
      exact Value.Placed.hasTree h
        (show (Value.call callee arguments).Placed _ node used from hplaced)

theorem StatementsPlaced.haveTrees
    (h : ∀ s location node, included s location node → shown s node)
    {statements : List Statement} {nodes : List Node} {used : List Token}
    (hplaced : StatementsPlaced included statements nodes used) :
    List.Forall₂ (Statement.HasTree shown) statements nodes := by
  induction statements generalizing nodes used with
  | nil =>
      obtain ⟨rfl, -⟩ := hplaced
      exact .nil
  | cons statement statements ih =>
      obtain ⟨node, first, others, rest, rfl, -, hstatement, hstatements⟩ := hplaced
      exact .cons (hstatement.hasTree h) (ih hstatements)

end Trees

theorem StatementsPlaced.included_of_mem {included : String → Location → Node → Prop}
    {statements : List Statement} {nodes : List Node} {used : List Token}
    (h : StatementsPlaced included statements nodes used)
    (hpreferred : ∀ statement ∈ statements, statement.Preferred) :
    ∀ specifier ∈ programSpecifiers statements,
      ∃ node location, included specifier location node :=
  included_of_mem_programSpecifiers (h.haveTrees fun _ location _ hnode => ⟨location, hnode⟩)
    hpreferred

end BuildScript.Derivation
