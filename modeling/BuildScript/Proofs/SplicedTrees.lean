import BuildScript.Proofs.ParsedShape

namespace BuildScript

theorem Node.descend?_append (path path' : List Nat) (node : Node) :
    node.descend? (path ++ path') = (node.descend? path).bind (descend? path') := by
  induction path generalizing node with
  | nil => rfl
  | cons i path ih =>
      rw [List.cons_append, descend?, descend?, Option.bind_assoc]
      congr 1
      funext child
      exact ih child

/-- What is of another kind than a node is below one of its children. -/
theorem Node.exists_child {path : List Nat} {node below : Node}
    (hpath : node.descend? path = some below) (hkind : node.kind ≠ below.kind) :
    ∃ i rest child, path = i :: rest ∧ node.children[i]? = some child ∧
      child.descend? rest = some below := by
  cases path with
  | nil =>
      cases hpath
      exact absurd rfl hkind
  | cons i rest =>
      obtain ⟨child, hchild, hbelow⟩ := Option.bind_eq_some_iff.mp hpath
      exact ⟨i, rest, child, rfl, hchild, hbelow⟩

namespace Derivation

mutual

/-- The specifier of the import whose tree is at the end of a path in the tree
of a value. -/
def Value.specifierAt? : Value → List Nat → Option String
  | .inclusion specifier, [] => some specifier
  | .call _ arguments, (i + 1) :: path => argumentSpecifierAt? arguments i path
  | .list entries, i :: path => entrySpecifierAt? entries i path
  | .listFor body _ _, 0 :: path => body.specifierAt? path
  | .listFor _ _ source, 2 :: path => source.specifierAt? path
  | _, _ => none

def entrySpecifierAt? : List Value → Nat → List Nat → Option String
  | [], _, _ => none
  | value :: _, 0, path => value.specifierAt? path
  | _ :: values, i + 1, path => entrySpecifierAt? values i path

def Argument.specifierAt? : Argument → List Nat → Option String
  | .keyword _ value, 0 :: path => value.specifierAt? path
  | .keyword _ _, _ => none
  | .positional value, path => value.specifierAt? path

def argumentSpecifierAt? : List Argument → Nat → List Nat → Option String
  | [], _, _ => none
  | argument :: _, 0, path => argument.specifierAt? path
  | _ :: arguments, i + 1, path => argumentSpecifierAt? arguments i path

end

def Statement.specifierAt? : Statement → List Nat → Option String
  | .assignment _ value, 1 :: path => value.specifierAt? path
  | .call _ arguments, (i + 1) :: path => argumentSpecifierAt? arguments i path
  | _, _ => none

/-- The specifier of the import whose tree is at the end of a path in the tree
of a program. -/
def programSpecifierAt? (statements : List Statement) : List Nat → Option String
  | [] => none
  | i :: path => statements[i]?.bind (·.specifierAt? path)

/-- What is at the end of a path below a node is in the tree of an import, and
that tree is at the end of a first part of the path. -/
def InImport (included : String → Node → Prop) (specifierAt? : List Nat → Option String)
    (node : Node) (path : List Nat) (below : Node) : Prop :=
  ∃ outer inner specifier tree, path = outer ++ inner ∧ specifierAt? outer = some specifier ∧
    node.descend? outer = some tree ∧ included specifier tree ∧ tree.descend? inner = some below

section

variable {included : String → Node → Prop}

theorem InImport.of_child {at? childAt? : List Nat → Option String} {node child below : Node}
    {i : Nat} {path : List Nat} (h : InImport included childAt? child path below)
    (hchild : node.children[i]? = some child) (hat : ∀ outer, at? (i :: outer) = childAt? outer) :
    InImport included at? node (i :: path) below := by
  obtain ⟨outer, inner, specifier, tree, rfl, hspecifier, houter, htree, hinner⟩ := h
  refine ⟨i :: outer, inner, specifier, tree, rfl, ?_, ?_, htree, hinner⟩
  · rw [hat, hspecifier]
  · rw [Node.descend?, hchild]
    exact houter

theorem AttributesHaveTree.kind_below {owner node : Node} {names : List String}
    (howner : ∀ path below, owner.descend? path = some below → below.kind = .object)
    (h : AttributesHaveTree owner names node) {path : List Nat} {below : Node}
    (hpath : node.descend? path = some below) : below.kind = .object := by
  induction names generalizing owner with
  | nil =>
      obtain rfl : node = owner := h
      exact howner path below hpath
  | cons name names ih =>
      obtain ⟨location, h⟩ := h
      refine ih (fun path below hpath => ?_) h
      by_contra hkind
      obtain ⟨i, rest, child, rfl, hchild, hbelow⟩ := Node.exists_child hpath (Ne.symm hkind)
      obtain rfl : owner = child := by
        cases i with
        | zero => exact Option.some.inj hchild
        | succ i => simp at hchild
      exact hkind (howner rest below hbelow)

theorem Path.HasTree.kind_below {object : Path} {node : Node} (h : object.HasTree node)
    {path : List Nat} {below : Node} (hpath : node.descend? path = some below) :
    below.kind = .object := by
  obtain ⟨location, h⟩ := h
  refine h.kind_below (fun path below hpath => ?_) hpath
  by_contra hkind
  obtain ⟨i, rest, child, rfl, hchild, -⟩ := Node.exists_child hpath (Ne.symm hkind)
  simp at hchild

theorem kind_below_binder {place : Location} {text? : Option String} {path : List Nat}
    {below : Node}
    (hpath : Node.descend? path ⟨.binder, place, text?, []⟩ = some below) :
    below.kind ≠ .program := by
  intro hkind
  obtain ⟨i, rest, child, rfl, hchild, -⟩ := Node.exists_child hpath (by simp [hkind])
  simp at hchild

theorem call_inImport {callee : Path} {arguments : List Argument} {location : Location}
    {object : Node} {nodes : List Node} {at? : List Nat → Option String}
    (hat : ∀ i outer, at? ((i + 1) :: outer) = argumentSpecifierAt? arguments i outer)
    (hcallee : callee.HasTree object)
    (harguments : ∀ i child path below, nodes[i]? = some child →
      child.descend? path = some below → below.kind = .program →
      InImport included (argumentSpecifierAt? arguments i) child path below)
    {path : List Nat} {below : Node}
    (hpath : Node.descend? path ⟨.call, location, none, object :: nodes⟩ = some below)
    (hkind : below.kind = .program) :
    InImport included at? ⟨.call, location, none, object :: nodes⟩ path below := by
  obtain ⟨i, rest, child, rfl, hchild, hbelow⟩ := Node.exists_child hpath (by simp [hkind])
  cases i with
  | zero =>
      cases hchild
      simp [hcallee.kind_below hbelow] at hkind
  | succ i => exact (harguments i child rest below hchild hbelow hkind).of_child hchild (hat i)

mutual

theorem Value.HasTree.inImport :
    ∀ {value : Value} {node : Node}, value.HasTree included node →
      ∀ {path : List Nat} {below : Node}, node.descend? path = some below →
      below.kind = .program → InImport included value.specifierAt? node path below
  | .inclusion specifier, node, htree, path, below, hpath, hkind =>
      ⟨[], path, specifier, node, rfl, rfl, rfl, htree, hpath⟩
  | .call callee arguments, _, ⟨_, _, _, hnode, hcallee, harguments⟩, path, below, hpath,
      hkind => by
      subst hnode
      exact call_inImport (fun _ _ => rfl) hcallee
        (fun _ _ _ _ hchild => harguments.inImport hchild) hpath hkind
  | .object _, _, htree, path, below, hpath, hkind => by
      simp [Path.HasTree.kind_below htree hpath] at hkind
  | .parenthesized _, _, htree, path, below, hpath, hkind => by
      simp [Path.HasTree.kind_below htree hpath] at hkind
  | .list _, _, ⟨_, _, hnode, hentries⟩, path, below, hpath, hkind => by
      subst hnode
      obtain ⟨i, rest, child, rfl, hchild, hbelow⟩ := Node.exists_child hpath (by simp [hkind])
      exact (hentries.inImport hchild hbelow hkind).of_child hchild fun _ => rfl
  | .listFor _ _ _, _, ⟨_, _, _, _, hnode, hbody, hsource⟩, path, below, hpath, hkind => by
      subst hnode
      obtain ⟨i, rest, child, rfl, hchild, hbelow⟩ := Node.exists_child hpath (by simp [hkind])
      match i with
      | 0 =>
          cases hchild
          exact (hbody.inImport hbelow hkind).of_child rfl fun _ => rfl
      | 1 =>
          cases hchild
          exact absurd hkind (kind_below_binder hbelow)
      | 2 =>
          cases hchild
          exact (hsource.inImport hbelow hkind).of_child rfl fun _ => rfl
      | i + 3 => simp at hchild
  | .string _, _, ⟨_, hnode⟩, path, below, hpath, hkind => by
      subst hnode
      obtain ⟨i, rest, child, rfl, hchild, -⟩ := Node.exists_child hpath (by simp [hkind])
      simp at hchild

theorem EntriesHaveTrees.inImport :
    ∀ {values : List Value} {nodes : List Node}, EntriesHaveTrees included values nodes →
      ∀ {i : Nat} {child : Node}, nodes[i]? = some child →
      ∀ {path : List Nat} {below : Node}, child.descend? path = some below →
      below.kind = .program → InImport included (entrySpecifierAt? values i) child path below
  | [], _, hnodes, i, child, hchild, _, _, _, _ => by
      subst hnodes
      simp at hchild
  | _ :: _, _, ⟨_, _, hnodes, hvalue, hvalues⟩, i, child, hchild, path, below, hpath, hkind => by
      subst hnodes
      cases i with
      | zero =>
          cases hchild
          exact hvalue.inImport hpath hkind
      | succ i => exact hvalues.inImport hchild hpath hkind

theorem Argument.HasTree.inImport :
    ∀ {argument : Argument} {node : Node}, argument.HasTree included node →
      ∀ {path : List Nat} {below : Node}, node.descend? path = some below →
      below.kind = .program → InImport included argument.specifierAt? node path below
  | .keyword _ _, _, ⟨_, _, hnode, hvalue⟩, path, below, hpath, hkind => by
      subst hnode
      obtain ⟨i, rest, child, rfl, hchild, hbelow⟩ := Node.exists_child hpath (by simp [hkind])
      cases i with
      | zero =>
          cases hchild
          exact (hvalue.inImport hbelow hkind).of_child rfl fun _ => rfl
      | succ i => simp at hchild
  | .positional value, node, hvalue, path, below, hpath, hkind =>
      Value.HasTree.inImport (show value.HasTree included node from hvalue) hpath hkind

theorem ArgumentsHaveTrees.inImport :
    ∀ {arguments : List Argument} {nodes : List Node}, ArgumentsHaveTrees included arguments nodes →
      ∀ {i : Nat} {child : Node}, nodes[i]? = some child →
      ∀ {path : List Nat} {below : Node}, child.descend? path = some below →
      below.kind = .program → InImport included (argumentSpecifierAt? arguments i) child path below
  | [], _, hnodes, i, child, hchild, _, _, _, _ => by
      subst hnodes
      simp at hchild
  | _ :: _, _, ⟨_, _, hnodes, hargument, harguments⟩, i, child, hchild, path, below, hpath,
      hkind => by
      subst hnodes
      cases i with
      | zero =>
          cases hchild
          exact hargument.inImport hpath hkind
      | succ i => exact harguments.inImport hchild hpath hkind

end

theorem Statement.HasTree.inImport {statement : Statement} {node : Node}
    (h : statement.HasTree included node) {path : List Nat} {below : Node}
    (hpath : node.descend? path = some below) (hkind : below.kind = .program) :
    InImport included statement.specifierAt? node path below := by
  cases statement with
  | assignment target value =>
      obtain ⟨_, _, _, rfl, hvalue⟩ := h
      obtain ⟨i, rest, child, rfl, hchild, hbelow⟩ := Node.exists_child hpath (by simp [hkind])
      match i with
      | 0 =>
          cases hchild
          exact absurd hkind (kind_below_binder hbelow)
      | 1 =>
          cases hchild
          exact (hvalue.inImport hbelow hkind).of_child rfl fun _ => rfl
      | i + 2 => simp at hchild
  | call callee arguments =>
      obtain ⟨_, _, _, rfl, hcallee, harguments⟩ := h
      exact call_inImport (fun _ _ => rfl) hcallee
        (fun _ _ _ _ hchild => harguments.inImport hchild) hpath hkind

/-- A program strictly inside the tree of a program is in the tree of one of
its imports. -/
theorem ProgramHasTree.inImport {statements : List Statement} {node : Node}
    (h : ProgramHasTree included statements node) {path : List Nat} {below : Node}
    (hpath : node.descend? path = some below) (hkind : below.kind = .program) (hne : path ≠ []) :
    InImport included (programSpecifierAt? statements) node path below := by
  obtain ⟨location, nodes, rfl, htrees⟩ := h
  cases path with
  | nil => exact absurd rfl hne
  | cons i path =>
      obtain ⟨child, hchild, hbelow⟩ := Option.bind_eq_some_iff.mp hpath
      obtain ⟨hi, hget⟩ := List.getElem?_eq_some_iff.mp hchild
      have hi' : i < statements.length := htrees.length_eq ▸ hi
      have htree : (statements[i]).HasTree included child := by
        rw [← hget]
        exact htrees.get hi' hi
      refine (htree.inImport hbelow hkind).of_child hchild fun outer => ?_
      simp [programSpecifierAt?, hi']

end

end Derivation

end BuildScript
