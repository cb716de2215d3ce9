import BuildScript.Proofs.LexicalGrammar

namespace BuildScript.LexicalGrammar

variable {w lexeme rest front : List Char} {kind : TokenKind}

theorem head?_of_isPrefix {α : Type} {front rest : List α} (h : front <+: rest) :
    ∀ a ∈ front.head?, a ∈ rest.head? := by
  obtain ⟨back, rfl⟩ := h
  cases front with
  | nil => exact fun a ha => nomatch ha
  | cons b front => exact fun a ha => ha

/-- Layout looks no further than to the character after it. -/
theorem Layout.of_head (h : Layout w rest) (hhead : ∀ c ∈ front.head?, c ∈ rest.head?) :
    Layout w front := by
  induction h with
  | nothing rest => exact .nothing front
  | blank hc _ ih => exact .blank hc (ih hhead)
  | @line body w rest hbody hend _ ih =>
      refine .line hbody ?_ (ih hhead)
      cases w with
      | nil =>
          cases front with
          | nil => exact .inl rfl
          | cons c front =>
              have hc := hhead c rfl
              rcases hend with hnil | ⟨cs, hcs⟩
              · rw [List.nil_append] at hnil
                subst hnil
                cases hc
              · rw [List.nil_append] at hcs
                subst hcs
                cases hc
                exact .inr ⟨front, rfl⟩
      | cons c w =>
          rcases hend with hnil | ⟨cs, hcs⟩
          · cases hnil
          · exact .inr ⟨w ++ front, by rw [List.cons_append, (List.cons.inj hcs).1]⟩
  | block hfirst _ ih => exact .block hfirst (ih hhead)

theorem Lexeme.of_head (h : Lexeme lexeme rest kind)
    (hhead : ∀ c ∈ front.head?, c ∈ rest.head?) : Lexeme lexeme front kind := by
  cases h with
  | mark hmark => exact .mark hmark
  | word hc hcs hrest => exact .word hc hcs fun d hd => hrest d (hhead d hd)
  | quoted hcontents => exact .quoted hcontents

theorem Layout.cut (h : Layout w rest) (hfront : front <+: rest) : Layout w front :=
  h.of_head (head?_of_isPrefix hfront)

theorem Lexeme.cut (h : Lexeme lexeme rest kind) (hfront : front <+: rest) :
    Lexeme lexeme front kind :=
  h.of_head (head?_of_isPrefix hfront)

theorem exists_piece_of_next {source : Source} {cs : List Char} {p : Position} {token : Token}
    {lexer : Lexer} (h : Lexer.next ⟨source, ⟨cs, p⟩⟩ = (.ok token, lexer))
    (hkind : token.kind ≠ .endOfStream) :
    ∃ w lexeme rest, cs = w ++ lexeme ++ rest ∧ Layout w (lexeme ++ rest) ∧
      Lexeme lexeme rest token.kind ∧ token.location.position = p.advanceAll w ∧
      lexer = ⟨source, ⟨rest, p.advanceAll (w ++ lexeme)⟩⟩ := by
  obtain ⟨start, hskip, hread⟩ := next_eq_ok h
  obtain ⟨w, hw, hlayout⟩ := inLayout_of_skipLayout hskip
  obtain ⟨lexeme, hstart, hlexeme⟩ := exists_lexeme_of_readToken hread hkind
  obtain rfl : cs = w ++ start.rest := hw
  rw [hstart] at hlayout
  rw [hstart, ← List.append_assoc, next_of_piece hlayout hlexeme] at h
  obtain ⟨htoken, hlexer⟩ := Prod.mk.inj h
  refine ⟨w, lexeme, lexer.cursor.rest, ?_, hlayout, hlexeme, ?_, hlexer.symm⟩
  · rw [hstart, List.append_assoc]
  · rw [← Except.ok.inj htoken]

/-- The characters before a token that a lexer comes to can be split, into
pieces of the kinds of the tokens before it. -/
theorem exists_splits_before {n : Nat} {source : Source} {cs : List Char} {p : Position}
    {before after : List Token} {token : Token}
    (h : (Lexer.readAll n ⟨source, ⟨cs, p⟩⟩).1 = before ++ token :: after)
    (hkind : token.kind ≠ .endOfStream) :
    ∃ front back w pieces, cs = front ++ back ∧
      token.location.position = p.advanceAll front ∧ Splits front w pieces ∧
      pieces.map Piece.kind = before.map Token.kind := by
  induction n generalizing cs p before with
  | zero => simp [Lexer.readAll] at h
  | succ n ih =>
      rw [Lexer.readAll] at h
      cases hnext : Lexer.next ⟨source, ⟨cs, p⟩⟩ with
      | mk answer lexer =>
          rw [hnext] at h
          cases answer with
          | error e => simp at h
          | ok first =>
              have hfirst : first.kind ≠ .endOfStream := by
                intro hend
                simp only [Token.isEnd, hend, beq_self_eq_true, if_true] at h
                cases before with
                | nil => exact hkind ((List.cons.inj h).1 ▸ hend)
                | cons other before => simp at h
              obtain ⟨w, lexeme, rest, rfl, hlayout, hlexeme, hposition, rfl⟩ :=
                exists_piece_of_next hnext hfirst
              simp only [Token.isEnd, beq_false_of_ne hfirst, Bool.false_eq_true, if_false] at h
              cases before with
              | nil =>
                  obtain rfl := (List.cons.inj h).1
                  exact ⟨w, lexeme ++ rest, w, [], by simp, hposition,
                    .last (hlayout.cut List.nil_prefix), rfl⟩
              | cons other before =>
                  obtain ⟨rfl, hlater⟩ := List.cons.inj h
                  obtain ⟨front, back, v, pieces, rfl, hplace, hsplits, hkinds⟩ := ih hlater
                  have hfront : front <+: front ++ back := List.prefix_append front back
                  refine ⟨w ++ lexeme ++ front, back, w, ⟨lexeme, first.kind, v⟩ :: pieces,
                    by simp, ?_, .piece (hlayout.cut ?_) (hlexeme.cut hfront) hsplits, ?_⟩
                  · rw [hplace, ← Position.advanceAll_append]
                  · exact (List.prefix_append_right_inj lexeme).mpr hfront
                  · rw [List.map_cons, List.map_cons, hkinds]

/-- A source that is cut off where one of its tokens begins has the tokens before
that one, and then the end. -/
theorem tokenize_cut {source : Source} {before after : List Token} {token : Token}
    (h : source.scan.1 = before ++ token :: after) (hkind : token.kind ≠ .endOfStream) :
    ∃ front back, source.text.toList = front ++ back ∧
      token.location.position = Position.start.advanceAll front ∧
      ∀ cut : Source, cut.text = String.ofList front → ∃ tokens, cut.tokenize = .ok tokens ∧
        tokens.map Token.kind = before.map Token.kind ++ [.endOfStream] := by
  obtain ⟨front, back, w, pieces, htext, hposition, hsplits, hkinds⟩ :=
    exists_splits_before h hkind
  refine ⟨front, back, htext, hposition, fun cut hcut => ?_⟩
  have hscan : cut.scan = (tokensAfter cut [] w pieces, none) := by
    refine Splits.readAll_eq ?_ cut [] (Nat.lt_succ_self _)
    rwa [hcut, String.toList_ofList]
  obtain ⟨tokens, htokens, hsame⟩ := hsplits.tokensAfter_eq cut []
  refine ⟨_, Source.tokenize_eq_ok_iff.mpr hscan, ?_⟩
  rw [htokens, List.map_append, hsame, hkinds]
  rfl

end BuildScript.LexicalGrammar
