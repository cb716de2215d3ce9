import Mathlib.Data.List.Infix
import BuildScript.Proofs.Placement

namespace BuildScript.Derivation

/-- What a node is read from. -/
inductive Phrase where
  | assignment (target : String) (value : Value)
  | keyword (name : String) (value : Value)
  | value (value : Value)
  | binder (name : String)

def Argument.phrase : Argument → Phrase
  | .keyword name value => .keyword name value
  | .positional value => .value value

def Statement.phrase : Statement → Phrase
  | .assignment target value => .assignment target value
  | .call callee arguments => .value (.call callee arguments)

def Path.last (path : Path) : String := path.attributes.getLastD path.name

namespace Phrase

def nodeKind : Phrase → NodeKind
  | .assignment _ _ => .assignment
  | .keyword _ _ => .keyword
  | .binder _ => .binder
  | .value (.inclusion _) => .program
  | .value (.call _ _) => .call
  | .value (.object _) => .object
  | .value (.parenthesized _) => .object
  | .value (.list _) => .list
  | .value (.listFor _ _ _) => .listFor
  | .value (.string _) => .string

/-- The token of a phrase that its node is located at: the last one of an
object, the last one in the parentheses around an object, and else the first. -/
def place : Phrase → List Token → Option Token
  | .value (.object _), used => used.getLast?
  | .value (.parenthesized _), used => used.dropLast.getLast?
  | _, used => used.head?

def placeKind : Phrase → TokenKind
  | .assignment target _ => .identifier target
  | .keyword name _ => .identifier name
  | .binder name => .identifier name
  | .value (.inclusion _) => .identifier "import"
  | .value (.call callee _) => .identifier callee.name
  | .value (.object path) => .identifier path.last
  | .value (.parenthesized path) => .identifier path.last
  | .value (.list _) => .bracketOpen
  | .value (.listFor _ _ _) => .bracketOpen
  | .value (.string text) => .string text

theorem exists_inclusion {phrase : Phrase} (h : phrase.nodeKind = .program) :
    ∃ specifier, phrase = .value (.inclusion specifier) := by
  cases phrase with
  | value derived =>
      cases derived with
      | inclusion specifier => exact ⟨specifier, rfl⟩
      | _ => cases h
  | _ => cases h

end Phrase

section Placed

variable (included : String → Location → Node → Prop)

def Phrase.Placed : Phrase → Node → List Token → Prop
  | .assignment target derived, node, used =>
      (Statement.assignment target derived).Placed included node used
  | .keyword name derived, node, used =>
      (Argument.keyword name derived).Placed included node used
  | .value derived, node, used => derived.Placed included node used
  | .binder name, node, used => ∃ word, used = [word] ∧ word.kind = .identifier name ∧
      node = ⟨.binder, word.location, some name, []⟩

/-- Nodes whose phrases stand one after another among the tokens. -/
inductive Row : List Node → List Token → Prop where
  | nil : Row [] []
  | skip (token : Token) {nodes : List Node} {used : List Token} (h : Row nodes used) :
      Row nodes (token :: used)
  | cons {phrase : Phrase} {node : Node} {nodes : List Node} {first rest : List Token}
      (hnode : phrase.Placed included node first) (h : Row nodes rest) :
      Row (node :: nodes) (first ++ rest)

end Placed

variable {included : String → Location → Node → Prop} {phrase : Phrase} {node : Node}
  {nodes others : List Node} {used more tokens : List Token}

theorem Argument.placed_phrase {argument : Argument} :
    argument.phrase.Placed included node used ↔ argument.Placed included node used := by
  cases argument with
  | keyword name value => exact Iff.rfl
  | positional value => exact Iff.rfl

theorem Statement.placed_phrase {statement : Statement} :
    statement.phrase.Placed included node used ↔ statement.Placed included node used := by
  cases statement with
  | assignment target value => exact Iff.rfl
  | call callee arguments => exact Iff.rfl

/-! ## Objects from their last name -/

inductive Path.Ends : Path → Node → List Token → Prop where
  | name {name : String} {word : Token} (hword : word.kind = .identifier name) :
      Path.Ends ⟨name, []⟩ ⟨.object, word.location, some name, []⟩ [word]
  | owned {owner : Path} {inner : Node} {used : List Token} {dot word : Token} {name : String}
      (howner : owner.Placed inner used) (hdot : dot.kind = .dot)
      (hword : word.kind = .identifier name) :
      Path.Ends ⟨owner.name, owner.attributes ++ [name]⟩
        ⟨.object, word.location, some name, [inner]⟩ (used ++ [dot, word])

theorem attributesPlaced_snoc {owner : Node} {names : List String} {name : String}
    (h : AttributesPlaced owner (names ++ [name]) node used) :
    ∃ inner before dot word, used = before ++ [dot, word] ∧
      AttributesPlaced owner names inner before ∧ dot.kind = .dot ∧
      word.kind = .identifier name ∧ node = ⟨.object, word.location, some name, [inner]⟩ := by
  induction names generalizing owner used with
  | nil =>
      obtain ⟨dot, word, _, rfl, hdot, hword, rfl, rfl⟩ := h
      exact ⟨owner, [], dot, word, rfl, ⟨rfl, rfl⟩, hdot, hword, rfl⟩
  | cons first names ih =>
      obtain ⟨dot, word, others, rfl, hdot, hword, hothers⟩ := h
      obtain ⟨inner, before, dot', word', rfl, hbefore, hdot', hword', rfl⟩ := ih hothers
      exact ⟨inner, dot :: word :: before, dot', word', rfl,
        ⟨dot, word, before, rfl, hdot, hword, hbefore⟩, hdot', hword', rfl⟩

theorem Path.Placed.ends {path : Path} (h : path.Placed node used) : path.Ends node used := by
  obtain ⟨name, attributes⟩ := path
  obtain ⟨word, others, rfl, hword, hothers⟩ := h
  obtain rfl | ⟨names, last, rfl⟩ := attributes.eq_nil_or_concat
  · obtain ⟨rfl, rfl⟩ := hothers
    exact .name hword
  · rw [List.concat_eq_append] at hothers ⊢
    obtain ⟨inner, before, dot, word', rfl, hbefore, hdot, hword', rfl⟩ :=
      attributesPlaced_snoc hothers
    have howner : (⟨name, names⟩ : Path).Placed inner (word :: before) :=
      ⟨word, before, rfl, hword, hbefore⟩
    exact .owned howner hdot hword'

/-! ## The phrases inside of a phrase -/

namespace Row

theorem skipped (used : List Token) : Row included [] used := by
  induction used with
  | nil => exact .nil
  | cons token used ih => exact .skip token ih

theorem append (h : Row included nodes used) (h' : Row included others more) :
    Row included (nodes ++ others) (used ++ more) := by
  induction h with
  | nil => exact h'
  | skip token _ ih => exact .skip token ih
  | cons hnode _ ih =>
      rw [List.append_assoc]
      exact .cons hnode ih

theorem single (h : phrase.Placed included node used) : Row included [node] used := by
  have hrow : Row included [node] (used ++ []) := .cons h .nil
  rwa [List.append_nil] at hrow

theorem before (h : Row included nodes used) (more : List Token) :
    Row included nodes (used ++ more) := by
  have hrow := h.append (.skipped more)
  rwa [List.append_nil] at hrow

theorem value {derived : Value} (h : derived.Placed included node used) :
    Row included [node] used :=
  have hphrase : Phrase.Placed included (.value derived) node used := h
  single hphrase

theorem object {path : Path} (h : path.Placed node used) : Row included [node] used :=
  have hvalue : (Value.object path).Placed included node used := h
  value hvalue

theorem binder {name : String} {word : Token} (hword : word.kind = .identifier name) :
    Row included [⟨.binder, word.location, some name, []⟩] [word] :=
  have hphrase : Phrase.Placed included (.binder name) ⟨.binder, word.location, some name, []⟩
    [word] := ⟨word, rfl, hword, rfl⟩
  single hphrase

end Row

theorem EntriesPlaced.row {values : List Value} (h : EntriesPlaced included values nodes used) :
    Row included nodes used := by
  induction values generalizing nodes used with
  | nil =>
      obtain ⟨rfl, rfl⟩ := h
      exact .nil
  | cons value values ih =>
      obtain ⟨node, first, others, rest, rfl, rfl, hvalue, hvalues⟩ := h
      exact (Row.value hvalue).append (ih hvalues)

theorem ArgumentsPlaced.row {arguments : List Argument}
    (h : ArgumentsPlaced included arguments nodes used) : Row included nodes used := by
  induction arguments generalizing nodes used with
  | nil =>
      obtain ⟨rfl, rfl⟩ := h
      exact .nil
  | cons argument arguments ih =>
      obtain ⟨node, first, others, rest, rfl, rfl, hargument, harguments⟩ := h
      exact .cons (Argument.placed_phrase.mpr hargument) (ih harguments)

theorem StatementsPlaced.row {statements : List Statement}
    (h : StatementsPlaced included statements nodes used) : Row included nodes used := by
  induction statements generalizing nodes used with
  | nil =>
      obtain ⟨rfl, rfl⟩ := h
      exact .nil
  | cons statement statements ih =>
      obtain ⟨node, first, others, rest, rfl, rfl, hstatement, hstatements⟩ := h
      exact .cons (Statement.placed_phrase.mpr hstatement) (ih hstatements)

theorem Path.Placed.row {path : Path} (h : path.Placed node used) :
    Row included node.children used := by
  cases h.ends with
  | name _ => exact .skipped _
  | @owned owner inner used dot word name howner _ _ => exact (Row.object howner).before [dot, word]

/-- The nodes below a node are read from phrases inside of its own. -/
theorem Phrase.Placed.row (h : phrase.Placed included node used)
    (hphrase : phrase.nodeKind ≠ .program) : Row included node.children used := by
  cases phrase with
  | assignment target derived =>
      obtain ⟨word, equals, others, valueNode, rfl, hword, -, hvalue, rfl⟩ := h
      exact (Row.binder hword).append (.skip equals (.value hvalue))
  | keyword name derived =>
      obtain ⟨word, equals, others, valueNode, rfl, -, -, hvalue, rfl⟩ := h
      exact .skip word (.skip equals (.value hvalue))
  | binder name =>
      obtain ⟨word, rfl, -, rfl⟩ := h
      exact .skipped [word]
  | value derived =>
      cases derived with
      | inclusion specifier => exact absurd rfl hphrase
      | call callee arguments =>
          obtain ⟨calleeUsed, opening, inner, closing, object, nodes, rfl, hcallee, -, harguments,
            -, first, -, rfl⟩ := h
          exact (Row.object hcallee).append (.skip opening (harguments.row.before [closing]))
      | object path => exact Path.Placed.row h
      | parenthesized path =>
          obtain ⟨opening, inner, closing, rfl, -, hpath, -⟩ := h
          exact .skip opening (hpath.row.before [closing])
      | list entries =>
          obtain ⟨opening, inner, closing, nodes, rfl, -, hentries, -, rfl⟩ := h
          exact .skip opening (hentries.row.before [closing])
      | listFor body element source =>
          obtain ⟨opening, bodyUsed, forToken, word, inToken, sourceUsed, closing, bodyNode,
            sourceNode, rfl, -, hbody, -, hword, -, hsource, -, rfl⟩ := h
          have hbehind := (Row.value hsource).before [closing]
          have hinner := (Row.binder hword).append (.skip inToken hbehind)
          exact .skip opening ((Row.value hbody).append (.skip forToken hinner))
      | string text =>
          obtain ⟨token, rfl, -, rfl⟩ := h
          exact .skipped [token]

theorem Path.Placed.exists_place {path : Path} (h : path.Placed node used) :
    ∃ token ∈ used.getLast?, token.kind = .identifier path.last ∧ node.location = token.location ∧
      node.kind = .object := by
  cases h.ends with
  | name hword => exact ⟨_, by simp, hword, rfl, rfl⟩
  | owned _ _ hword =>
    refine ⟨_, by simp, ?_, rfl, rfl⟩
    simp [hword, Path.last]

/-- The node of a phrase is located at the place of the phrase. -/
theorem Phrase.Placed.exists_place (h : phrase.Placed included node used)
    (hphrase : phrase.nodeKind ≠ .program) :
    ∃ token ∈ phrase.place used, token.kind = phrase.placeKind ∧ node.location = token.location ∧
      node.kind = phrase.nodeKind := by
  cases phrase with
  | assignment target derived =>
      obtain ⟨word, equals, others, valueNode, rfl, hword, -, -, rfl⟩ := h
      exact ⟨word, rfl, hword, rfl, rfl⟩
  | keyword name derived =>
      obtain ⟨word, equals, others, valueNode, rfl, hword, -, -, rfl⟩ := h
      exact ⟨word, rfl, hword, rfl, rfl⟩
  | binder name =>
      obtain ⟨word, rfl, hword, rfl⟩ := h
      exact ⟨word, rfl, hword, rfl, rfl⟩
  | value derived =>
      cases derived with
      | inclusion specifier => exact absurd rfl hphrase
      | call callee arguments =>
          obtain ⟨calleeUsed, opening, inner, closing, object, nodes, rfl, hcallee, -, -, -, first,
            hfirst, rfl⟩ := h
          obtain ⟨word, others, rfl, hword, -⟩ := hcallee
          obtain rfl : word = first := Option.mem_some.mp hfirst
          exact ⟨word, rfl, hword, rfl, rfl⟩
      | object path =>
          obtain ⟨token, htoken, hkind, hlocation, hnode⟩ := Path.Placed.exists_place h
          exact ⟨token, htoken, hkind, hlocation, hnode⟩
      | parenthesized path =>
          obtain ⟨opening, inner, closing, rfl, -, hpath, -⟩ := h
          obtain ⟨token, htoken, hkind, hlocation, hnode⟩ := hpath.exists_place
          refine ⟨token, ?_, hkind, hlocation, hnode⟩
          rw [Phrase.place, ← List.cons_append, List.dropLast_concat, List.getLast?_cons]
          rw [Option.mem_def] at htoken ⊢
          simp [htoken]
      | list entries =>
          obtain ⟨opening, inner, closing, nodes, rfl, hopening, -, -, rfl⟩ := h
          exact ⟨opening, rfl, hopening, rfl, rfl⟩
      | listFor body element source =>
          obtain ⟨opening, bodyUsed, forToken, word, inToken, sourceUsed, closing, bodyNode,
            sourceNode, rfl, hopening, -, -, -, -, -, -, rfl⟩ := h
          exact ⟨opening, rfl, hopening, rfl, rfl⟩
      | string text =>
          obtain ⟨token, rfl, htoken, rfl⟩ := h
          exact ⟨token, rfl, htoken, rfl, rfl⟩

theorem Row.exists_phrase (h : Row included nodes used) (hmem : node ∈ nodes) :
    ∃ phrase first, Phrase.Placed included phrase node first ∧ first <:+: used := by
  induction h with
  | nil => cases hmem
  | skip token _ ih =>
      obtain ⟨phrase, first, hplaced, hfirst⟩ := ih hmem
      exact ⟨phrase, first, hplaced, hfirst.trans (List.suffix_cons token _).isInfix⟩
  | @cons phrase _ _ first rest hnode _ ih =>
      obtain rfl | hmem := List.mem_cons.mp hmem
      · exact ⟨phrase, first, hnode, (List.prefix_append first rest).isInfix⟩
      · obtain ⟨phrase', first', hplaced, hfirst'⟩ := ih hmem
        exact ⟨phrase', first', hplaced, hfirst'.trans (List.suffix_append first rest).isInfix⟩

section Everywhere

variable {Q : Node → Prop}

/-- What is true of the node of every phrase and of the trees of the inclusions
is true everywhere. -/
theorem Phrase.Placed.everywhere
    (hincluded : ∀ s location tree, included s location tree → tree.Everywhere Q)
    (hphrases : ∀ (phrase : Phrase) (node : Node) (used : List Token),
      phrase.nodeKind ≠ .program → phrase.Placed included node used → used <:+: tokens → Q node)
    (h : phrase.Placed included node used) (hused : used <:+: tokens) : node.Everywhere Q := by
  induction node using Node.induction generalizing phrase used with
  | h node ih =>
    by_cases hphrase : phrase.nodeKind = .program
    · obtain ⟨specifier, rfl⟩ := exists_inclusion hphrase
      obtain ⟨word, opening, text, closing, -, -, -, -, -, htree⟩ := h
      exact hincluded specifier word.location node htree
    · rw [Node.everywhere_iff]
      refine ⟨hphrases phrase node used hphrase h hused, fun child hchild => ?_⟩
      obtain ⟨phrase', used', hplaced, hinside⟩ := (h.row hphrase).exists_phrase hchild
      exact ih child hchild hplaced (hinside.trans hused)

theorem Row.everywhere
    (hincluded : ∀ s location tree, included s location tree → tree.Everywhere Q)
    (hphrases : ∀ (phrase : Phrase) (node : Node) (used : List Token),
      phrase.nodeKind ≠ .program → phrase.Placed included node used → used <:+: tokens → Q node)
    (h : Row included nodes used) (hused : used <:+: tokens) :
    ∀ node ∈ nodes, node.Everywhere Q := by
  intro node hnode
  obtain ⟨phrase, first, hplaced, hfirst⟩ := h.exists_phrase hnode
  exact hplaced.everywhere hincluded hphrases (hfirst.trans hused)

end Everywhere

/-! ## The order of the places -/

theorem Phrase.mem_of_mem_place {token : Token} (h : token ∈ phrase.place used) : token ∈ used := by
  unfold Phrase.place at h
  split at h
  · exact List.mem_of_mem_getLast? h
  · exact List.mem_of_mem_dropLast (List.mem_of_mem_getLast? h)
  · exact List.mem_of_mem_head? h

/-- Nodes that are read one after another are located one after another. The
trees of the inclusions are located elsewhere. -/
theorem Row.sublist_locations
    (hincluded : ∀ s location tree, included s location tree → tree.kind = .program)
    (h : Row included nodes used) :
    ((nodes.filter (·.kind ≠ .program)).map Node.location).Sublist (used.map Token.location) := by
  induction h with
  | nil => exact .slnil
  | skip token _ ih => exact ih.cons _
  | @cons phrase node nodes first rest hnode _ ih =>
      rw [List.map_append]
      by_cases hphrase : phrase.nodeKind = .program
      · obtain ⟨specifier, rfl⟩ := Phrase.exists_inclusion hphrase
        obtain ⟨word, opening, text, closing, -, -, -, -, -, htree⟩ := hnode
        rw [List.filter_cons_of_neg (by simp [hincluded _ _ _ htree])]
        exact ih.trans (List.sublist_append_right _ _)
      · obtain ⟨token, htoken, -, hlocation, hkind⟩ := hnode.exists_place hphrase
        have hmem : node.location ∈ first.map Token.location :=
          List.mem_map.mpr ⟨token, Phrase.mem_of_mem_place htoken, hlocation.symm⟩
        rw [List.filter_cons_of_pos (by simpa [hkind] using hphrase), List.map_cons]
        exact (List.singleton_sublist.mpr hmem).append ih

/-- The object that a name is an attribute of stands before the name. -/
theorem Path.Placed.sublist_locations {path : Path} (h : path.Placed node used) :
    ∀ child ∈ node.children, [child.location, node.location].Sublist (used.map Token.location) := by
  cases h.ends with
  | name => simp
  | @owned owner inner used dot word name howner _ _ =>
      intro child hchild
      obtain rfl : child = inner := List.mem_singleton.mp hchild
      obtain ⟨token, htoken, -, hlocation, -⟩ := howner.exists_place
      have hmem : child.location ∈ used.map Token.location :=
        List.mem_map.mpr ⟨token, List.mem_of_mem_getLast? htoken, hlocation.symm⟩
      rw [List.map_append]
      exact (List.singleton_sublist.mpr hmem).append (by simp)

theorem Phrase.Placed.sublist_locations (h : phrase.Placed included node used)
    (hkind : phrase.nodeKind = .object) :
    ∀ child ∈ node.children, [child.location, node.location].Sublist (used.map Token.location) := by
  cases phrase with
  | value derived =>
      cases derived with
      | object path => exact Path.Placed.sublist_locations h
      | parenthesized path =>
          obtain ⟨opening, inner, closing, rfl, -, hpath, -⟩ := h
          intro child hchild
          apply (hpath.sublist_locations child hchild).trans
          apply List.Sublist.map
          exact (List.sublist_append_left inner [closing]).cons opening
      | _ => cases hkind
  | _ => cases hkind

end BuildScript.Derivation
