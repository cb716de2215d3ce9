import BuildScript.Proofs.Spelling
import BuildScript.Proofs.ImportFree
import BuildScript.Proofs.Relocation
import BuildScript.Proofs.Arity

namespace BuildScript

open BuildScript.Derivation

namespace Node

/-- What holds of a node as soon as it holds of its children holds of all
nodes. -/
theorem induction {P : Node → Prop}
    (h : ∀ node : Node, (∀ child ∈ node.children, P child) → P node) (node : Node) : P node :=
  h node fun child _ => induction h child
termination_by sizeOf node
decreasing_by
  rename_i hchild
  have hsize := List.sizeOf_lt_of_mem hchild
  rcases node with ⟨kind, location, text?, children⟩
  simp only [Node.mk.sizeOf_spec] at hsize ⊢
  omega

def Everywhere (P : Node → Prop) (node : Node) : Prop :=
  ∀ path below, node.descend? path = some below → P below

theorem everywhere_iff {P : Node → Prop} {node : Node} :
    node.Everywhere P ↔ P node ∧ ∀ child ∈ node.children, child.Everywhere P := by
  constructor
  · intro h
    refine ⟨h [] node rfl, fun child hchild path below hbelow => ?_⟩
    obtain ⟨i, hi⟩ := List.mem_iff_getElem?.mp hchild
    exact h (i :: path) below (Option.bind_eq_some_iff.mpr ⟨child, hi, hbelow⟩)
  · rintro ⟨hnode, hchildren⟩ path below hbelow
    cases path with
    | nil =>
        cases hbelow
        exact hnode
    | cons i path =>
        obtain ⟨child, hchild, hbelow⟩ := Option.bind_eq_some_iff.mp hbelow
        exact hchildren child (List.mem_of_getElem? hchild) path below hbelow

theorem everywhere_mk {P : Node → Prop} {kind : NodeKind} {location : Location}
    {text? : Option String} {children : List Node} :
    Everywhere P ⟨kind, location, text?, children⟩ ↔
      P ⟨kind, location, text?, children⟩ ∧ ∀ child ∈ children, child.Everywhere P :=
  everywhere_iff

mutual

/-- The tokens of a tree in the order of the grammar. Objects stand without
parentheses, the innermost one first. -/
def tokens : Node → List TokenKind
  | ⟨.program, _, _, statements⟩ => tokensAll statements
  | ⟨.assignment, _, _, target :: value :: _⟩ => target.tokens ++ .assign :: value.tokens
  | ⟨.call, _, _, callee :: arguments⟩ =>
      callee.tokens ++ .parenOpen :: (tokensAll arguments ++ [.parenClose])
  | ⟨.keyword, _, text?, value :: _⟩ => .identifier (text?.getD "") :: .assign :: value.tokens
  | ⟨.list, _, _, entries⟩ => .bracketOpen :: (tokensAll entries ++ [.bracketClose])
  | ⟨.listFor, _, _, body :: element :: source :: _⟩ =>
      .bracketOpen :: (body.tokens ++ .forKeyword :: (element.tokens ++ .inKeyword ::
        (source.tokens ++ [.bracketClose])))
  | ⟨.object, _, text?, []⟩ => [.identifier (text?.getD "")]
  | ⟨.object, _, text?, owner :: _⟩ => owner.tokens ++ [.dot, .identifier (text?.getD "")]
  | ⟨.binder, _, text?, _⟩ => [.identifier (text?.getD "")]
  | ⟨.string, _, text?, _⟩ => [.string (text?.getD "")]
  | _ => []

def tokensAll : List Node → List TokenKind
  | [] => []
  | node :: nodes => node.tokens ++ tokensAll nodes

end

/-- A tree written out: its tokens with a space between them. -/
def spelling (node : Node) : String := spell node.tokens

/-- The column of texts in the arity table: a text is there where the table has
one, and nowhere else. -/
def TextObeys (node : Node) : Prop :=
  match node.kind with
  | .keyword | .object | .binder | .string => node.text? ≠ none
  | _ => node.text? = none

/-- A call of the bare object `import` with a string and nothing else. Where a
value stands, an import is written the same way. -/
def IsImportCall : Node → Prop
  | ⟨.call, _, _, [⟨.object, _, some "import", []⟩, ⟨.string, _, _, _⟩]⟩ => True
  | _ => False

/-- Trees of programs that can be written out: they obey the arity table, no
program stands inside them, and what looks like an import stands where a
statement stands, if anywhere. -/
structure IsSpellable (program : Node) : Prop where
  kind : program.kind = .program
  shape : program.WellShaped
  texts : program.Everywhere TextObeys
  programs : ∀ statement ∈ program.children, statement.Everywhere (·.kind ≠ .program)
  calls : ∀ statement ∈ program.children, ∀ child ∈ statement.children,
    child.Everywhere (¬IsImportCall ·)

structure IsPlain (node : Node) : Prop where
  obeys : node.Obeys
  text : node.TextObeys
  inner : node.kind ≠ .program
  call : ¬node.IsImportCall

theorem IsSpellable.plain {program statement child : Node} (h : program.IsSpellable)
    (hstatement : statement ∈ program.children) (hchild : child ∈ statement.children) :
    child.Everywhere IsPlain := by
  have htexts := (everywhere_iff.mp ((everywhere_iff.mp h.texts).2 statement hstatement)).2
  have hprograms := (everywhere_iff.mp (h.programs statement hstatement)).2
  have hshape := (h.shape.child hstatement).child hchild
  intro path below hbelow
  exact ⟨hshape.obeys_descend hbelow, htexts child hchild path below hbelow,
    hprograms child hchild path below hbelow,
    h.calls statement hstatement child hchild path below hbelow⟩

theorem tokensAll_eq_flatMap (nodes : List Node) : tokensAll nodes = nodes.flatMap tokens := by
  induction nodes with
  | nil => rfl
  | cons node nodes ih => rw [tokensAll, ih, List.flatMap_cons]

theorem isWritable_tokens (node : Node) (h : node.WellShaped) :
    ∀ kind ∈ node.tokens, kind.IsWritable := by
  induction node using Node.induction with
  | h node ih =>
    have hbelow : ∀ child ∈ node.children, ∀ kind ∈ child.tokens, kind.IsWritable :=
      fun child hchild => ih child hchild (h.child hchild)
    have hall : ∀ nodes ⊆ node.children, ∀ kind ∈ tokensAll nodes, kind.IsWritable := by
      intro nodes hnodes kind hkind
      rw [tokensAll_eq_flatMap] at hkind
      obtain ⟨child, hchild, hkind⟩ := List.mem_flatMap.mp hkind
      exact hbelow child (hnodes hchild) kind hkind
    have hobeys := h.obeys
    rcases node with ⟨kind, location, text?, children⟩
    cases kind with
    | program => exact hall children (List.Subset.refl _)
    | assignment =>
        obtain ⟨target, value, rfl, -, -⟩ := hobeys
        rw [tokens]
        refine List.forall_mem_append.mpr ⟨hbelow target (by simp), ?_⟩
        exact List.forall_mem_cons.mpr ⟨trivial, hbelow value (by simp)⟩
    | call =>
        obtain ⟨callee, arguments, rfl, -, -⟩ := hobeys
        rw [tokens]
        refine List.forall_mem_append.mpr ⟨hbelow callee (by simp), ?_⟩
        refine List.forall_mem_cons.mpr ⟨trivial, List.forall_mem_append.mpr ⟨?_, ?_⟩⟩
        · exact hall arguments (by simp)
        · exact List.forall_mem_singleton.mpr trivial
    | keyword =>
        obtain ⟨⟨name, rfl, hname⟩, value, rfl, -⟩ := hobeys
        rw [tokens]
        refine List.forall_mem_cons.mpr ⟨hname, ?_⟩
        exact List.forall_mem_cons.mpr ⟨trivial, hbelow value (by simp)⟩
    | list =>
        rw [tokens]
        refine List.forall_mem_cons.mpr ⟨trivial, List.forall_mem_append.mpr ⟨?_, ?_⟩⟩
        · exact hall children (List.Subset.refl _)
        · exact List.forall_mem_singleton.mpr trivial
    | listFor =>
        obtain ⟨body, element, source, rfl, -, -, -⟩ := hobeys
        rw [tokens]
        refine List.forall_mem_cons.mpr ⟨trivial, List.forall_mem_append.mpr ⟨?_, ?_⟩⟩
        · exact hbelow body (by simp)
        refine List.forall_mem_cons.mpr ⟨trivial, List.forall_mem_append.mpr ⟨?_, ?_⟩⟩
        · exact hbelow element (by simp)
        refine List.forall_mem_cons.mpr ⟨trivial, List.forall_mem_append.mpr ⟨?_, ?_⟩⟩
        · exact hbelow source (by simp)
        · exact List.forall_mem_singleton.mpr trivial
    | object =>
        obtain ⟨⟨name, rfl, hname⟩, rfl | ⟨owner, rfl, -⟩⟩ := hobeys
        · exact List.forall_mem_singleton.mpr hname
        · rw [tokens]
          refine List.forall_mem_append.mpr ⟨hbelow owner (by simp), ?_⟩
          exact List.forall_mem_cons.mpr ⟨trivial, List.forall_mem_singleton.mpr hname⟩
    | binder =>
        obtain ⟨⟨name, rfl, hname⟩, rfl⟩ := hobeys
        exact List.forall_mem_singleton.mpr hname
    | string => exact List.forall_mem_singleton.mpr trivial

end Node

namespace Derivation

open Node

theorem AttributesHaveTree.snoc {names : List String} {owner node : Node}
    (h : AttributesHaveTree owner names node) (location : Location) (name : String) :
    AttributesHaveTree owner (names ++ [name]) ⟨.object, location, some name, [node]⟩ := by
  induction names generalizing owner with
  | nil =>
      obtain rfl : node = owner := h
      exact ⟨location, rfl⟩
  | cons first names ih =>
      obtain ⟨place, h⟩ := h
      exact ⟨place, ih h⟩

theorem exists_path (node : Node) (h : node.Everywhere Obeys) (hkind : node.kind = .object) :
    ∃ path : Path, path.kinds = node.tokens ∧ path.HasTree node := by
  induction node using Node.induction with
  | h node ih =>
    obtain ⟨hobeys, hbelow⟩ := everywhere_iff.mp h
    rcases node with ⟨_, location, text?, children⟩
    obtain rfl : _ = NodeKind.object := hkind
    obtain ⟨⟨name, rfl, -⟩, rfl | ⟨owner, rfl, howner⟩⟩ := hobeys
    · exact ⟨⟨name, []⟩, rfl, location, rfl⟩
    · obtain ⟨path, hkinds, place, htree⟩ :=
        ih owner List.mem_cons_self (hbelow owner List.mem_cons_self) howner
      refine ⟨⟨path.name, path.attributes ++ [name]⟩, ?_, place, htree.snoc location name⟩
      rw [tokens, ← hkinds]
      simp [Path.kinds, attributeKinds]

/-- A derivation of an argument with the tokens and the tree of a node, and
without imports. -/
structure Spells (node : Node) (argument : Argument) : Prop where
  kinds : argument.kinds = node.tokens
  tree : argument.HasTree (fun _ _ => False) node
  preferred : argument.Preferred
  specifiers : argument.specifiers = []
  unparenthesized : argument.isParenthesized = false

structure SpellsAll (nodes : List Node) (arguments : List Argument) : Prop where
  kinds : argumentKinds arguments = tokensAll nodes
  trees : ArgumentsHaveTrees (fun _ _ => False) arguments nodes
  preferred : PreferredArguments arguments
  specifiers : argumentSpecifiers arguments = []
  unparenthesized : ∀ argument ∈ arguments.head?, argument.isParenthesized = false

theorem SpellsAll.nil : SpellsAll [] [] := ⟨rfl, rfl, trivial, rfl, by simp⟩

theorem SpellsAll.cons {node : Node} {nodes : List Node} {argument : Argument}
    {arguments : List Argument} (h : Spells node argument) (hall : SpellsAll nodes arguments) :
    SpellsAll (node :: nodes) (argument :: arguments) := by
  constructor
  · rw [argumentKinds, tokensAll, h.kinds, hall.kinds]
  · exact ⟨node, nodes, rfl, h.tree, hall.trees⟩
  · exact ⟨h.preferred, hall.preferred, fun _ => hall.unparenthesized⟩
  · rw [argumentSpecifiers, h.specifiers, hall.specifiers]
    rfl
  · rintro first hfirst
    obtain rfl : argument = first := by simpa using hfirst
    exact h.unparenthesized

-- Entries of a list are derived as positional arguments are.
section Positional

theorem argumentKinds_positional (values : List Value) :
    argumentKinds (values.map .positional) = entryKinds values := by
  induction values with
  | nil => rfl
  | cons value values ih => rw [List.map_cons, argumentKinds, entryKinds, ih, Argument.kinds]

theorem argumentSpecifiers_positional (values : List Value) :
    argumentSpecifiers (values.map .positional) = entrySpecifiers values := by
  induction values with
  | nil => rfl
  | cons value values ih =>
      rw [List.map_cons, argumentSpecifiers, entrySpecifiers, ih, Argument.specifiers]

theorem preferredArguments_positional (values : List Value) :
    PreferredArguments (values.map .positional) ↔ PreferredEntries values := by
  induction values with
  | nil => exact Iff.rfl
  | cons value values ih =>
      rw [List.map_cons, PreferredArguments, PreferredEntries, ih]
      cases values with
      | nil => simp [Argument.Preferred, Argument.isBare]
      | cons next values =>
          simp [Argument.Preferred, Argument.isBare, Argument.isParenthesized]

theorem argumentsHaveTrees_positional {included : String → Node → Prop} (values : List Value)
    (nodes : List Node) :
    ArgumentsHaveTrees included (values.map .positional) nodes ↔
      EntriesHaveTrees included values nodes := by
  induction values generalizing nodes with
  | nil => exact Iff.rfl
  | cons value values ih =>
      rw [List.map_cons, ArgumentsHaveTrees, EntriesHaveTrees]
      simp only [ih, Argument.HasTree]

end Positional

theorem exists_spellsAll {nodes : List Node}
    (h : ∀ node ∈ nodes, ∃ argument, Spells node argument) :
    ∃ arguments, SpellsAll nodes arguments := by
  induction nodes with
  | nil => exact ⟨[], .nil⟩
  | cons node nodes ih =>
      obtain ⟨⟨argument, hargument⟩, hnodes⟩ := List.forall_mem_cons.mp h
      obtain ⟨arguments, harguments⟩ := ih hnodes
      exact ⟨argument :: arguments, .cons hargument harguments⟩

theorem exists_values {nodes : List Node}
    (h : ∀ node ∈ nodes, ∃ value : Value, Spells node (.positional value)) :
    ∃ values : List Value, SpellsAll nodes (values.map .positional) := by
  induction nodes with
  | nil => exact ⟨[], .nil⟩
  | cons node nodes ih =>
      obtain ⟨⟨value, hvalue⟩, hnodes⟩ := List.forall_mem_cons.mp h
      obtain ⟨values, hvalues⟩ := ih hnodes
      exact ⟨value :: values, .cons hvalue hvalues⟩

theorem Path.eq_of_hasTree_import {object : Node} (h : Path.HasTree ⟨"import", []⟩ object) :
    ∃ location, object = ⟨.object, location, some "import", []⟩ := by
  obtain ⟨location, hobject⟩ := h
  exact ⟨location, hobject⟩

/-- Only a call that is written as an import is written is derived as one. -/
theorem inclusion?_of_not_isImportCall {callee : Path} {arguments : List Argument} {object : Node}
    {nodes : List Node} {location : Location} (hcallee : callee.HasTree object)
    (htrees : ArgumentsHaveTrees (fun _ _ => False) arguments nodes)
    (h : ¬IsImportCall ⟨.call, location, none, object :: nodes⟩) :
    inclusion? (callKinds callee arguments) = none := by
  cases hinclusion : inclusion? (callKinds callee arguments) with
  | none => rfl
  | some specifier =>
      have hkinds : callKinds callee arguments ++ [] = (Value.inclusion specifier).kinds ++ [] := by
        rw [inclusion?_eq_some hinclusion]
      obtain ⟨rfl, rfl⟩ := call_eq_of_append hkinds
      obtain ⟨place, rfl⟩ := Path.eq_of_hasTree_import hcallee
      obtain ⟨node, _, rfl, ⟨_, rfl⟩, rfl⟩ := htrees
      exact absurd trivial h

/-- A value or keyword argument that can be written out has a derivation, and a
value one as a positional argument. -/
theorem exists_spells (node : Node) (h : node.Everywhere IsPlain) (hkind : IsArgument node.kind) :
    ∃ argument, Spells node argument ∧
      (node.kind.isValue = true → ∃ value, argument = .positional value) := by
  induction node using Node.induction with
  | h node ih =>
    obtain ⟨⟨hobeys, htext, hinner, hcall⟩, hbelow⟩ := everywhere_iff.mp h
    have hvalue : ∀ child ∈ node.children, child.kind.isValue = true →
        ∃ value, Spells child (.positional value) := by
      intro child hchild hisValue
      obtain ⟨argument, hargument, hpositional⟩ :=
        ih child hchild (hbelow child hchild) (.inr hisValue)
      obtain ⟨value, rfl⟩ := hpositional hisValue
      exact ⟨value, hargument⟩
    have hobject : ∀ below : Node, below.Everywhere IsPlain → below.kind = .object →
        ∃ path : Path, path.kinds = below.tokens ∧ path.HasTree below :=
      fun below hplain => exists_path below fun path n hn => (hplain path n hn).obeys
    rcases node with ⟨kind, location, text?, children⟩
    cases kind with
    | program => exact absurd rfl hinner
    | assignment => rcases hkind with hkind | hkind <;> cases hkind
    | binder => rcases hkind with hkind | hkind <;> cases hkind
    | call =>
        obtain ⟨callee, nodes, rfl, hcallee, harguments⟩ := hobeys
        obtain rfl : text? = none := htext
        obtain ⟨path, hpathKinds, hpath⟩ := hobject callee (hbelow callee (by simp)) hcallee
        obtain ⟨arguments, hall⟩ := exists_spellsAll fun node hnode => by
          have hchild : node ∈ callee :: nodes := List.mem_cons_of_mem callee hnode
          obtain ⟨argument, hargument, -⟩ :=
            ih node hchild (hbelow node hchild) (harguments node hnode)
          exact ⟨argument, hargument⟩
        have hinclusion := inclusion?_of_not_isImportCall hpath hall.trees hcall
        refine ⟨.positional (.call path arguments), ⟨?_, ?_, ?_, ?_, rfl⟩, fun _ => ⟨_, rfl⟩⟩
        · rw [Argument.kinds, Value.kinds, tokens, hpathKinds, hall.kinds]
        · exact ⟨location, callee, nodes, rfl, hpath, hall.trees⟩
        · exact ⟨hinclusion, hall.preferred⟩
        · rw [Argument.specifiers, Value.specifiers, hinclusion, hall.specifiers]
          rfl
    | keyword =>
        obtain ⟨⟨name, rfl, -⟩, child, rfl, hchild⟩ := hobeys
        obtain ⟨value, hspells⟩ := hvalue child (by simp) hchild
        refine ⟨.keyword name value, ⟨?_, ?_, hspells.preferred, hspells.specifiers, rfl⟩, ?_⟩
        · rw [Argument.kinds, tokens, ← hspells.kinds]
          rfl
        · exact ⟨location, child, rfl, hspells.tree⟩
        · exact fun hisValue => by cases hisValue
    | list =>
        obtain rfl : text? = none := htext
        obtain ⟨values, hall⟩ :=
          exists_values fun node hnode => hvalue node hnode (hobeys node hnode)
        refine ⟨.positional (.list values), ⟨?_, ?_, ?_, ?_, rfl⟩, fun _ => ⟨_, rfl⟩⟩
        · rw [Argument.kinds, Value.kinds, tokens, ← hall.kinds, argumentKinds_positional]
        · exact ⟨location, children, rfl, (argumentsHaveTrees_positional _ _).mp hall.trees⟩
        · exact (preferredArguments_positional values).mp hall.preferred
        · exact (argumentSpecifiers_positional values).symm.trans hall.specifiers
    | listFor =>
        obtain ⟨body, element, source, rfl, hbody, helement, hsource⟩ := hobeys
        obtain rfl : text? = none := htext
        obtain ⟨bodyValue, hbodySpells⟩ := hvalue body (by simp) hbody
        obtain ⟨sourceValue, hsourceSpells⟩ := hvalue source (by simp) hsource
        have hbinder := (everywhere_iff.mp (hbelow element (by simp))).1.obeys
        rcases element with ⟨_, place, _, _⟩
        obtain rfl : _ = NodeKind.binder := helement
        obtain ⟨⟨name, rfl, -⟩, rfl⟩ := hbinder
        refine ⟨.positional (.listFor bodyValue name sourceValue), ⟨?_, ?_, ?_, ?_, rfl⟩,
          fun _ => ⟨_, rfl⟩⟩
        · rw [Argument.kinds, Value.kinds, tokens, ← hbodySpells.kinds, ← hsourceSpells.kinds]
          rfl
        · exact ⟨location, place, body, source, rfl, hbodySpells.tree, hsourceSpells.tree⟩
        · exact ⟨hbodySpells.preferred, hsourceSpells.preferred⟩
        · rw [Argument.specifiers, Value.specifiers,
            show bodyValue.specifiers = [] from hbodySpells.specifiers,
            show sourceValue.specifiers = [] from hsourceSpells.specifiers]
          rfl
    | object =>
        obtain ⟨path, hpathKinds, hpath⟩ := hobject _ h rfl
        exact ⟨.positional (.object path), ⟨hpathKinds, hpath, trivial, rfl, rfl⟩,
          fun _ => ⟨_, rfl⟩⟩
    | string =>
        obtain ⟨text, rfl⟩ := Option.ne_none_iff_exists'.mp htext
        obtain rfl : children = [] := hobeys
        exact ⟨.positional (.string text), ⟨rfl, ⟨location, rfl⟩, trivial, rfl, rfl⟩,
          fun _ => ⟨_, rfl⟩⟩

structure SpellsStatement (node : Node) (statement : Statement) : Prop where
  kinds : statement.kinds = node.tokens
  tree : statement.HasTree (fun _ _ => False) node
  preferred : statement.Preferred
  specifiers : statement.specifiers = []

/-- A statement all of whose children can be written out has a derivation. Its
own call may look like an import. -/
theorem exists_spellsStatement {node : Node} (hobeys : node.Obeys) (htext : node.TextObeys)
    (hbelow : ∀ child ∈ node.children, child.Everywhere IsPlain) (hkind : IsStatement node.kind) :
    ∃ statement, SpellsStatement node statement := by
  rcases node with ⟨_, location, text?, children⟩
  rcases hkind with hkind | hkind
  · obtain rfl : _ = NodeKind.assignment := hkind
    obtain ⟨target, child, rfl, htarget, hchild⟩ := hobeys
    obtain rfl : text? = none := htext
    obtain ⟨_, hspells, hpositional⟩ := exists_spells child (hbelow child (by simp)) (.inr hchild)
    obtain ⟨value, rfl⟩ := hpositional hchild
    have hbinder := (everywhere_iff.mp (hbelow target (by simp))).1.obeys
    rcases target with ⟨_, place, _, _⟩
    obtain rfl : _ = NodeKind.binder := htarget
    obtain ⟨⟨name, rfl, -⟩, rfl⟩ := hbinder
    refine ⟨.assignment name value, ⟨?_, ?_, hspells.preferred, hspells.specifiers⟩⟩
    · rw [Statement.kinds, tokens, ← hspells.kinds]
      rfl
    · exact ⟨location, place, child, rfl, hspells.tree⟩
  · obtain rfl : _ = NodeKind.call := hkind
    obtain ⟨callee, nodes, rfl, hcallee, harguments⟩ := hobeys
    obtain rfl : text? = none := htext
    obtain ⟨path, hpathKinds, hpath⟩ :=
      exists_path callee (fun place n hn => (hbelow callee (by simp) place n hn).obeys) hcallee
    obtain ⟨arguments, hall⟩ := exists_spellsAll fun node hnode => by
      obtain ⟨argument, hargument, -⟩ := exists_spells node
        (hbelow node (List.mem_cons_of_mem callee hnode)) (harguments node hnode)
      exact ⟨argument, hargument⟩
    refine ⟨.call path arguments, ⟨?_, ?_, hall.preferred, hall.specifiers⟩⟩
    · rw [Statement.kinds, callKinds, tokens, hpathKinds, hall.kinds]
    · exact ⟨location, callee, nodes, rfl, hpath, hall.trees⟩

theorem exists_statements {nodes : List Node}
    (h : ∀ node ∈ nodes, ∃ statement, SpellsStatement node statement) :
    ∃ statements, statementKinds statements = tokensAll nodes ∧
      List.Forall₂ (Statement.HasTree fun _ _ => False) statements nodes ∧
      (∀ statement ∈ statements, statement.Preferred) ∧ programSpecifiers statements = [] := by
  induction nodes with
  | nil => exact ⟨[], rfl, .nil, by simp, rfl⟩
  | cons node nodes ih =>
      obtain ⟨⟨statement, hspells⟩, hnodes⟩ := List.forall_mem_cons.mp h
      obtain ⟨statements, hkinds, htrees, hpreferred, hspecifiers⟩ := ih hnodes
      refine ⟨statement :: statements, ?_, .cons hspells.tree htrees,
        List.forall_mem_cons.mpr ⟨hspells.preferred, hpreferred⟩, ?_⟩
      · rw [statementKinds_cons, tokensAll, hspells.kinds, hkinds]
      · rw [programSpecifiers, List.flatMap_cons, hspells.specifiers]
        exact hspecifiers

end Derivation

namespace Node.IsSpellable

variable {program : Node}

theorem exists_statements (h : program.IsSpellable) :
    ∃ statements, statementKinds statements = program.tokens ∧
      ProgramHasTree (fun _ _ => False) statements program ∧
      (∀ statement ∈ statements, statement.Preferred) ∧ programSpecifiers statements = [] := by
  rcases program with ⟨_, location, text?, nodes⟩
  obtain rfl : _ = NodeKind.program := h.kind
  obtain ⟨rfl, hkinds⟩ := h.shape.obeys
  have hstatement : ∀ node ∈ nodes, ∃ statement, SpellsStatement node statement := by
    intro node hnode
    have htext := (everywhere_iff.mp ((everywhere_iff.mp h.texts).2 node hnode)).1
    exact exists_spellsStatement (h.shape.child hnode).obeys htext
      (fun child hchild => h.plain hnode hchild) (hkinds node hnode)
  obtain ⟨statements, hkinds, htrees, hpreferred, hspecifiers⟩ :=
    Derivation.exists_statements hstatement
  exact ⟨statements, hkinds, ⟨location, nodes, rfl, htrees⟩, hpreferred, hspecifiers⟩

end Node.IsSpellable

/-- A tree that is written out is read back, whatever imports stand for and
without asking for any: the result differs in the locations of its nodes
only. -/
theorem parse_spelling {program : Node} (h : program.IsSpellable) {source : Source}
    (htext : source.text = program.spelling) (resolve : String → Resolution) (depth : Nat)
    (journal : Journal) :
    ∃ node, (parse resolve (depth + 1) source journal).1 = .ok node ∧
      (parse resolve (depth + 1) source journal).2.resolved = journal.resolved ∧
      node.Matches program := by
  obtain ⟨statements, hkinds, htree, hpreferred, hnone⟩ := h.exists_statements
  have hlexes : Lexes source.text.toList (program.tokens ++ [.endOfStream]) := by
    rw [htext]
    exact lexes_spell (Node.isWritable_tokens program h.shape)
  obtain ⟨tokens, htokens, hread⟩ := Source.tokenize_of_lexes hlexes
  have hderives : Derives source statements := by
    refine ⟨tokens, htokens, ?_⟩
    rw [programKinds, hkinds, hread]
  obtain ⟨node, hparse, hasked, htree'⟩ :=
    parse_of_importFree hderives hpreferred hnone resolve depth journal
  obtain ⟨_, nodes, rfl, htrees⟩ := htree
  obtain ⟨_, nodes', rfl, htrees'⟩ := htree'
  exact ⟨_, hparse, hasked, rfl, rfl, statementTrees_match (fun _ _ _ h => h.elim) htrees' htrees⟩

/-- A quote in a list beside an attribute, and a call of an object that happens
to have the name of imports. -/
theorem parse_spelling_quote :
    ∃ program node : Node, ∃ source : Source,
      program.IsSpellable ∧ source.text = program.spelling ∧
      program.spelling = "x = [ y . z \"\\\"\" ] import ( \"a\" )" ∧
      (parse (fun _ => .external) 1 source {}).1 = .ok node ∧ node.Matches program := by
  let here := Location.startOf (.ofText "")
  let list : Node := ⟨.list, here, none, [
    ⟨.object, here, some "z", [⟨.object, here, some "y", []⟩]⟩, ⟨.string, here, some "\"", []⟩]⟩
  let program : Node := ⟨.program, here, none, [
    ⟨.assignment, here, none, [⟨.binder, here, some "x", []⟩, list]⟩,
    ⟨.call, here, none, [⟨.object, here, some "import", []⟩, ⟨.string, here, some "a", []⟩]⟩]⟩
  have hnames : IsName "x" ∧ IsName "y" ∧ IsName "z" ∧ IsName "import" := by decide
  have hspellable : program.IsSpellable := by
    refine ⟨rfl, ?_, ?_, ?_, ?_⟩
    · simp [program, list, Node.WellShaped, Node.WellShapedAll, Node.Obeys, Node.IsNamed,
        NodeKind.isValue, hnames]
    · simp [program, list, Node.everywhere_mk, Node.TextObeys]
    · simp [program, list, Node.everywhere_mk]
    · simp [program, list, Node.everywhere_mk, Node.IsImportCall]
  have htext : (Source.ofText program.spelling).text = program.spelling := rfl
  obtain ⟨node, hparse, -, hmatches⟩ := parse_spelling hspellable htext (fun _ => .external) 0 {}
  exact ⟨program, node, _, hspellable, htext, by decide +kernel, hparse, hmatches⟩

end BuildScript
