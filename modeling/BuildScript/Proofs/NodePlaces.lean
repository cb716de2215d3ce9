import BuildScript.Proofs.LexicalGrammar
import BuildScript.Proofs.PlacedLoading

namespace BuildScript

open LexicalGrammar BuildScript.Derivation

/-- One location is further to the front of its text than another. -/
def Location.Before (l l' : Location) : Prop := l.position.offset < l'.position.offset

section Tokens

/-- The tokens of a split text begin behind the first layout, each further on
than those before it. -/
theorem LexicalGrammar.Splits.tokens_before {cs w : List Char} {pieces : List Piece}
    (h : Splits cs w pieces) (source : Source) (passed : List Char) :
    (∀ token ∈ tokensAfter source passed w pieces,
      (Position.start.advanceAll (passed ++ w)).offset ≤ token.location.position.offset) ∧
    ((tokensAfter source passed w pieces).map Token.location).Pairwise Location.Before := by
  induction h generalizing passed with
  | last => simp [tokensAfter]
  | @piece w lexeme rest v kind pieces _ hlexeme _ ih =>
      obtain ⟨hbehind, hlater⟩ := ih (passed ++ w ++ lexeme)
      have hfurther : ∀ token ∈ tokensAfter source (passed ++ w ++ lexeme) v pieces,
          (Position.start.advanceAll (passed ++ w)).offset < token.location.position.offset := by
        intro token htoken
        calc (Position.start.advanceAll (passed ++ w)).offset
          _ < ((Position.start.advanceAll (passed ++ w)).advanceAll lexeme).offset :=
            offset_lt_advanceAll _ hlexeme.ne_nil
          _ ≤ (((Position.start.advanceAll (passed ++ w)).advanceAll lexeme).advanceAll v).offset :=
            offset_le_advanceAll _ v
          _ = (Position.start.advanceAll (passed ++ w ++ lexeme ++ v)).offset := by
            simp only [Position.advanceAll_append]
          _ ≤ token.location.position.offset := hbehind token htoken
      constructor
      · intro token htoken
        obtain rfl | htoken := List.mem_cons.mp htoken
        · exact Nat.le_refl _
        · exact Nat.le_of_lt (hfurther token htoken)
      · rw [tokensAfter, List.map_cons, List.pairwise_cons]
        refine ⟨?_, hlater⟩
        intro location hlocation
        obtain ⟨token, htoken, rfl⟩ := List.mem_map.mp hlocation
        exact hfurther token htoken

theorem Source.tokens_before {source : Source} {tokens : List Token}
    (h : source.tokenize = .ok tokens) : (tokens.map Token.location).Pairwise Location.Before := by
  obtain ⟨w, pieces, hsplits, rfl⟩ := exists_splits_of_tokenize h
  exact (hsplits.tokens_before source []).2

end Tokens

section Nodes

/-- The token that a node is located at: for a program the first one of its
source, and for any other node the place of the phrase it was read from. -/
inductive LocatedAmong (resolve : String → Resolution) (tokens : List Token) : Node → Prop where
  | program {depth : Nat} {statements : List Statement} {node : Node} {used : List Token}
      {first last : Token} (htokens : tokens = used ++ [last]) (hlast : last.kind = .endOfStream)
      (hkind : node.kind = .program)
      (hstatements : StatementsPlaced (LoadedAs resolve depth) statements node.children used)
      (hfirst : tokens.head? = some first) (hlocation : node.location = first.location)
      (hempty : first.kind = .endOfStream ↔ node.children = []) : LocatedAmong resolve tokens node
  | phrase {depth : Nat} {phrase : Phrase} {node : Node} {used : List Token} {token : Token}
      (hused : used <:+: tokens) (hkind : node.kind = phrase.nodeKind)
      (hphrase : phrase.nodeKind ≠ .program)
      (hplaced : phrase.Placed (LoadedAs resolve depth) node used)
      (htoken : phrase.place used = some token) (hlocation : node.location = token.location)
      (hplace : token.kind = phrase.placeKind) : LocatedAmong resolve tokens node

/-- The children of a node are programs that its source imports, or they were
read from its source in the order they have. The owner of an object stands
before it. -/
structure InOrder (resolve : String → Resolution) (node : Node) : Prop where
  imported : ∀ child ∈ node.children, child.kind = .program →
    Imports resolve child.location.source node.location.source
  own : ∀ child ∈ node.children, child.kind ≠ .program →
    child.location.source = node.location.source
  increasing : ((node.children.filter (·.kind ≠ .program)).map Node.location).Pairwise
    Location.Before
  inward : node.kind = .object → ∀ child ∈ node.children, child.location.Before node.location

def IsPlaced (resolve : String → Resolution) (node : Node) : Prop :=
  InOrder resolve node ∧
    ∃ tokens, node.location.source.tokenize = .ok tokens ∧ LocatedAmong resolve tokens node

variable {resolve : String → Resolution} {depth : Nat} {source : Source} {node : Node}
  {journal : Journal} {tokens used : List Token} {phrase : Phrase}

theorem LoadedAs.program {specifier : String} {location : Location}
    (h : LoadedAs resolve depth specifier location node) :
    node.kind = .program ∧ resolve specifier = .program node.location.source := by
  obtain ⟨found, hresolve, hloads⟩ := h
  obtain ⟨hkind, rfl⟩ := program_of_load (hloads.outcome_eq {})
  exact ⟨hkind, hresolve⟩

theorem source_of_mem_tokenize (htokenize : source.tokenize = .ok tokens) {token : Token}
    (htoken : token ∈ tokens) : token.location.source = source := by
  apply Source.location_of_mem_scan
  rwa [Source.tokenize_eq_ok_iff.mp htokenize]

/-- A tree is a program that was imported, or it was read from the source. -/
theorem imports_or_source_eq (htokenize : source.tokenize = .ok tokens)
    (hplaced : phrase.Placed (LoadedAs resolve depth) node used) (hused : used <:+: tokens) :
    node.kind = .program ∧ Imports resolve node.location.source source ∨
      node.kind ≠ .program ∧ node.location.source = source := by
  by_cases hphrase : phrase.nodeKind = .program
  · obtain ⟨specifier, rfl⟩ := Phrase.exists_inclusion hphrase
    obtain ⟨word, opening, text, closing, rfl, -, -, htext, -, hloaded⟩ := hplaced
    obtain ⟨hkind, hresolve⟩ := hloaded.program
    refine .inl ⟨hkind, text, ?_, specifier, htext, hresolve⟩
    rw [Source.tokenize_eq_ok_iff.mp htokenize]
    exact hused.subset (by simp)
  · obtain ⟨token, htoken, -, hlocation, hkind⟩ := hplaced.exists_place hphrase
    refine .inr ⟨hkind ▸ hphrase, ?_⟩
    rw [hlocation]
    exact source_of_mem_tokenize htokenize (hused.subset (Phrase.mem_of_mem_place htoken))

theorem inOrder_of_row (htokenize : source.tokenize = .ok tokens)
    (hsource : node.location.source = source)
    (hrow : Row (LoadedAs resolve depth) node.children used) (hused : used <:+: tokens)
    (hinward : node.kind = .object → ∀ child ∈ node.children, child.location.Before node.location) :
    InOrder resolve node := by
  have htokens := Source.tokens_before htokenize
  constructor
  case inward => exact hinward
  case increasing =>
    have hsub := hrow.sublist_locations fun _ _ _ h => h.program.1
    exact htokens.sublist (hsub.trans (hused.sublist.map Token.location))
  case own =>
    intro child hchild hkind
    obtain ⟨phrase, first, hplaced, hfirst⟩ := hrow.exists_phrase hchild
    obtain ⟨hprogram, -⟩ | ⟨-, hchildSource⟩ :=
      imports_or_source_eq htokenize hplaced (hfirst.trans hused)
    · exact absurd hprogram hkind
    · rw [hchildSource, hsource]
  case imported =>
    intro child hchild hkind
    obtain ⟨phrase, first, hplaced, hfirst⟩ := hrow.exists_phrase hchild
    obtain ⟨-, himports⟩ | ⟨hother, -⟩ :=
      imports_or_source_eq htokenize hplaced (hfirst.trans hused)
    · rwa [hsource]
    · exact absurd hkind hother

theorem isPlaced_of_phrase (htokenize : source.tokenize = .ok tokens)
    (hphrase : phrase.nodeKind ≠ .program)
    (hplaced : phrase.Placed (LoadedAs resolve depth) node used) (hused : used <:+: tokens) :
    IsPlaced resolve node := by
  obtain ⟨token, htoken, hplace, hlocation, hkind⟩ := hplaced.exists_place hphrase
  have hsource : node.location.source = source := by
    rw [hlocation]
    exact source_of_mem_tokenize htokenize (hused.subset (Phrase.mem_of_mem_place htoken))
  constructor
  · apply inOrder_of_row htokenize hsource (hplaced.row hphrase) hused
    intro hobject child hchild
    have hsub := hplaced.sublist_locations (hkind.symm.trans hobject) child hchild
    have hpair := (Source.tokens_before htokenize).sublist
      (hsub.trans (hused.sublist.map Token.location))
    exact List.pairwise_pair.mp hpair
  · refine ⟨tokens, hsource ▸ htokenize, ?_⟩
    exact .phrase hused hkind hphrase hplaced htoken hlocation hplace

theorem everywhere_isPlaced (h : outcome (load resolve depth source journal) = .ok node) :
    node.Everywhere (IsPlaced resolve) := by
  induction depth generalizing source node journal with
  | zero => cases h
  | succ depth ih =>
      obtain ⟨nodes, first, others, last, after, hfirst, rfl, htaken, hlast⟩ := load_placed h
      obtain ⟨used, statements, hscan, hstatements, -⟩ := htaken
      obtain ⟨htokenize, rfl⟩ := Source.tokenize_of_end hscan hlast
      have hused : used <:+: used ++ [last] := (List.prefix_append used [last]).isInfix
      rw [hscan] at hfirst
      have hsource : first.location.source = source :=
        source_of_mem_tokenize htokenize (by simp [hfirst])
      rw [Node.everywhere_iff]
      refine ⟨⟨?_, used ++ [last], ?_, ?_⟩, ?_⟩
      · exact inOrder_of_row htokenize hsource hstatements.row hused nofun
      · exact hsource ▸ htokenize
      · apply LocatedAmong.program rfl hlast rfl hstatements (by simp [hfirst]) rfl
        obtain ⟨rfl, rfl⟩ | ⟨name, word, rest, hnodes, rfl, hword⟩ := hstatements.eq_nil_or_cons
        · obtain ⟨rfl, -⟩ := List.cons.inj hfirst
          exact iff_of_true hlast rfl
        · obtain ⟨rfl, -⟩ := List.cons.inj hfirst
          exact iff_of_false (by simp [hword]) hnodes
      · refine hstatements.row.everywhere ?_ ?_ hused
        · rintro specifier location tree ⟨found, -, hloads⟩
          exact ih (hloads.outcome_eq {})
        · intro phrase inner innerUsed hphrase hplaced hinside
          exact isPlaced_of_phrase htokenize hphrase hplaced hinside

end Nodes

/-- Each node of a program that was parsed is located at a token of its own
source, and the kind of the node says at which one of those it was read from.
The children that were read from the same source are in the order of their
offsets, and the names of an object go towards the front of the text from the
outside in. -/
theorem parse_located {resolve : String → Resolution} {depth : Nat} {source : Source}
    {journal : Journal} {program : Node}
    (h : (parse resolve depth source journal).1 = .ok program) :
    program.kind = .program ∧ program.location.source = source ∧
      program.Everywhere (IsPlaced resolve) := by
  have hload := outcome_eq_ok_iff.mpr (parse_eq_ok_iff.mp h)
  obtain ⟨hkind, hsource⟩ := program_of_load hload
  exact ⟨hkind, hsource, everywhere_isPlaced hload⟩

/-- An object in parentheses, at its last name, and an import of an empty
source. -/
theorem parse_located_parenthesized :
    let resolve := (ImportTable.mk [("lib", .program ⟨"lib", "# ", 1⟩)]).resolve
    let source : Source := .ofText "x = [(a.b) import(\"lib\") c]"
    ∃ program object imported, (parse resolve 2 source {}).1 = .ok program ∧
      program.Everywhere (IsPlaced resolve) ∧
      program.descend? [0, 1, 0] = some object ∧ object.location = ⟨source, ⟨8, 0, 1, 9⟩⟩ ∧
      program.descend? [0, 1, 1] = some imported ∧
      imported.location = ⟨⟨"lib", "# ", 1⟩, ⟨2, 0, 1, 3⟩⟩ := by
  intro resolve source
  obtain ⟨program, hparse, hchecks⟩ := exists_of_any
    (show (parse resolve 2 source {}).1.toOption.any (fun program =>
        ((program.descend? [0, 1, 0]).any (·.location == ⟨source, ⟨8, 0, 1, 9⟩⟩)) &&
          (program.descend? [0, 1, 1]).any (·.location == ⟨⟨"lib", "# ", 1⟩, ⟨2, 0, 1, 3⟩⟩)) = true
      by decide +kernel)
  obtain ⟨hobject, himported⟩ := Bool.and_eq_true_iff.mp hchecks
  obtain ⟨object, hdescend, hat⟩ := Option.any_eq_true .. |>.mp hobject
  obtain ⟨imported, hdescend', hat'⟩ := Option.any_eq_true .. |>.mp himported
  obtain ⟨-, -, hplaced⟩ := parse_located hparse
  exact ⟨program, object, imported, hparse, hplaced, hdescend, beq_iff_eq.mp hat, hdescend',
    beq_iff_eq.mp hat'⟩

end BuildScript
