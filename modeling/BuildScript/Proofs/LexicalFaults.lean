import BuildScript.Proofs.LexerAnswers

/-!
Where the lexer fails. The characters before the first obstacle are split into
layout and lexemes, so the text that is cut off there has just the tokens that
were read before the error. Layout and lexemes look no further than to the
character after them, so a foreign character stops the lexer at its place
whatever stands behind it.
-/

namespace BuildScript

open Scanner

def Token.kindAndPosition (t : Token) : TokenKind × Position := (t.kind, t.location.position)

namespace LexicalGrammar

/-- Characters that are split into layout and one piece for each token as they
stand before `rest`. -/
inductive SplitsBefore (rest : List Char) : List Char → List Char → List Piece → Prop where
  | nothing {w : List Char} (layout : Layout w rest) : SplitsBefore rest w w []
  | piece {w lexeme front v : List Char} {kind : TokenKind} {pieces : List Piece}
      (layout : Layout w (lexeme ++ (front ++ rest))) (token : Lexeme lexeme (front ++ rest) kind)
      (later : SplitsBefore rest front v pieces) :
      SplitsBefore rest (w ++ lexeme ++ front) w (⟨lexeme, kind, v⟩ :: pieces)

variable {cs rest rest' front w before taken : List Char} {pieces : List Piece} {fault : LexFault}

theorem head?_append_of_head (hhead : ∀ c ∈ rest'.head?, c ∈ rest.head?) (cs : List Char) :
    ∀ c ∈ (cs ++ rest').head?, c ∈ (cs ++ rest).head? := by
  cases cs with
  | nil => exact hhead
  | cons d cs => exact fun c hc => hc

theorem SplitsBefore.of_head (h : SplitsBefore rest front w pieces)
    (hhead : ∀ c ∈ rest'.head?, c ∈ rest.head?) : SplitsBefore rest' front w pieces := by
  induction h with
  | nothing hlayout => exact .nothing (hlayout.of_head hhead)
  | @piece w lexeme front v kind pieces hlayout hlexeme _ ih =>
      have hfront := head?_append_of_head hhead front
      have hlayout' := hlayout.of_head (head?_append_of_head hfront lexeme)
      exact .piece hlayout' (hlexeme.of_head hfront) ih

theorem SplitsBefore.splits (h : SplitsBefore [] front w pieces) : Splits front w pieces := by
  induction h with
  | nothing hlayout => exact .last hlayout
  | piece hlayout hlexeme _ ih =>
      rw [List.append_nil] at hlayout hlexeme
      exact .piece hlayout hlexeme ih

/-- Any characters are split up to their end or up to the first obstacle. -/
theorem exists_splitsBefore (cs : List Char) :
    ∃ front rest w pieces, cs = front ++ rest ∧ SplitsBefore rest front w pieces ∧
      (rest = [] ∨ ∃ before taken fault, Obstacle rest before taken fault) := by
  induction hn : cs.length using Nat.strongRecOn generalizing cs with
  | ind n ih =>
      obtain ⟨before, taken, answer, hanswers⟩ := exists_answers cs
      cases hanswers with
      | last hlayout =>
          exact ⟨cs, [], cs, [], (List.append_nil cs).symm, .nothing hlayout, .inl rfl⟩
      | @fault w rest before taken fault hlayout hobstacle =>
          exact ⟨w, rest, w, [], rfl, .nothing hlayout, .inr ⟨before, taken, fault, hobstacle⟩⟩
      | @token w lexeme rest kind hlayout hlexeme =>
          have hlength := List.length_pos_iff.mpr hlexeme.ne_nil
          simp only [List.length_append] at hn
          obtain ⟨front, back, v, pieces, rfl, hsplits, hback⟩ := ih rest.length (by omega) rest rfl
          refine ⟨_, back, _, _, ?_, .piece hlayout hlexeme hsplits, hback⟩
          simp only [List.append_assoc]

/-- The tokens of the pieces are read, and then the fault of the obstacle. -/
theorem SplitsBefore.readAll_eq (h : SplitsBefore rest front w pieces)
    (hobstacle : Obstacle rest before taken fault) (source : Source) (passed : List Char) {n : Nat}
    (hn : (front ++ rest).length < n) :
    ∃ tokens, tokensAfter source passed w pieces = tokens ++
        [⟨.endOfStream, ⟨source, Position.start.advanceAll (passed ++ front)⟩⟩] ∧
      Lexer.readAll n ⟨source, ⟨front ++ rest, Position.start.advanceAll passed⟩⟩ =
        (tokens, some ⟨fault, source,
          Position.start.advanceAll (passed ++ front ++ before)⟩) := by
  induction h generalizing passed n with
  | nothing hlayout =>
      obtain ⟨n, rfl⟩ := Nat.exists_eq_succ_of_ne_zero (Nat.ne_zero_of_lt hn)
      obtain ⟨_, -, hnext⟩ := hobstacle.next_eq hlayout source (Position.start.advanceAll passed)
      refine ⟨[], rfl, ?_⟩
      rw [Lexer.readAll, hnext, ← Position.advanceAll_append, List.append_assoc]
  | @piece w lexeme front v kind pieces hlayout hlexeme _ ih =>
      obtain ⟨n, rfl⟩ := Nat.exists_eq_succ_of_ne_zero (Nat.ne_zero_of_lt hn)
      have hlength := List.length_pos_iff.mpr hlexeme.ne_nil
      simp only [List.length_append] at hn
      obtain ⟨tokens, htokens, hread⟩ := ih (passed ++ (w ++ lexeme)) (n := n)
        (by rw [List.length_append]; omega)
      have hend : Token.isEnd ⟨kind, source, Position.start.advanceAll (passed ++ w)⟩ = false := by
        simpa [Token.isEnd] using hlexeme.kind_ne_end
      refine ⟨⟨kind, ⟨source, Position.start.advanceAll (passed ++ w)⟩⟩ :: tokens, ?_, ?_⟩
      · simp only [tokensAfter, List.append_assoc, List.cons_append] at htokens ⊢
        rw [htokens]
      · have hnext := next_of_piece hlayout hlexeme source (Position.start.advanceAll passed)
        rw [← Position.advanceAll_append, ← Position.advanceAll_append] at hnext
        rw [List.append_assoc, Lexer.readAll, hnext]
        simp only [hend, Bool.false_eq_true, if_false, hread, List.append_assoc]

/-- Kinds and positions of tokens do not depend on the source they are in. -/
theorem kindsAndPositions_tokensAfter (source source' : Source) (passed w : List Char)
    (pieces : List Piece) :
    (tokensAfter source passed w pieces).map Token.kindAndPosition =
      (tokensAfter source' passed w pieces).map Token.kindAndPosition := by
  induction pieces generalizing passed w with
  | nil => rfl
  | cons piece pieces ih =>
      rw [tokensAfter, tokensAfter, List.map_cons, List.map_cons, ih]
      rfl

end LexicalGrammar

open LexicalGrammar

namespace Source

variable {source : Source} {e : LexError}

/-- A source has tokens of these kinds at these positions, and then it ends. -/
def EndsAfter (source : Source) (tokens : List Token) : Prop :=
  ∃ found last, source.tokenize = .ok (found ++ [last]) ∧ last.kind = .endOfStream ∧
    found.map Token.kindAndPosition = tokens.map Token.kindAndPosition

theorem tokenize_eq_error_iff : source.tokenize = .error e ↔ source.scan.2 = some e := by
  unfold tokenize
  rcases source.scan with ⟨tokens, _ | e'⟩
  · simp
  · simp

end Source

section Faults

variable {source : Source} {e : LexError} {tokens : List Token}
  {front rest w before taken : List Char} {pieces : List Piece} {fault : LexFault}

theorem LexicalGrammar.SplitsBefore.scan_eq (h : SplitsBefore rest front w pieces)
    (hobstacle : Obstacle rest before taken fault) (htext : source.text.toList = front ++ rest) :
    ∃ tokens, tokensAfter source [] w pieces =
        tokens ++ [⟨.endOfStream, ⟨source, Position.start.advanceAll front⟩⟩] ∧
      source.scan = (tokens, some ⟨fault, source,
        Position.start.advanceAll (front ++ before)⟩) := by
  have hread := h.readAll_eq hobstacle source [] (Nat.lt_succ_self _)
  rw [← htext] at hread
  exact hread

/-- A source that is cut off before the first obstacle ends after the tokens
that were read before the fault. -/
theorem LexicalGrammar.SplitsBefore.endsAfter (h : SplitsBefore rest front w pieces)
    {last : Token} (htokens : tokensAfter source [] w pieces = tokens ++ [last]) (cut : Source)
    (hcut : cut.text = String.ofList front) : cut.EndsAfter tokens := by
  have hsplits : Splits cut.text.toList w pieces := by
    rw [hcut, String.toList_ofList]
    exact (h.of_head (by simp)).splits
  obtain ⟨found, hfound, -⟩ := hsplits.tokensAfter_eq cut []
  refine ⟨found, ⟨.endOfStream, ⟨cut, Position.start.advanceAll cut.text.toList⟩⟩, ?_, rfl, ?_⟩
  · rw [List.nil_append] at hfound
    rw [Source.tokenize_eq_ok_iff, ← hfound]
    exact hsplits.readAll_eq cut [] (Nat.lt_succ_self _)
  · have hsame := kindsAndPositions_tokensAfter cut source [] w pieces
    rw [hfound, htokens, List.map_append, List.map_append] at hsame
    exact (List.append_inj_left' hsame rfl)

theorem exists_obstacle_of_tokenize (h : source.tokenize = .error e) :
    ∃ front rest w pieces before taken fault, source.text.toList = front ++ rest ∧
      SplitsBefore rest front w pieces ∧ Obstacle rest before taken fault := by
  obtain ⟨front, rest, w, pieces, htext, hsplits, rfl | ⟨before, taken, fault, hobstacle⟩⟩ :=
    exists_splitsBefore source.text.toList
  · rw [List.append_nil] at htext
    have hscan := hsplits.splits
    rw [← htext] at hscan
    have hread := hscan.readAll_eq source [] (Nat.lt_succ_self _)
    have hfault := Source.tokenize_eq_error_iff.mp h
    rw [show source.scan = _ from hread] at hfault
    cases hfault
  · exact ⟨front, rest, w, pieces, before, taken, fault, htext, hsplits, hobstacle⟩

end Faults

/-- Lexical errors are reported at the first place where the lexer cannot go on.
What is before that place has the tokens that were read. An unexpected character
is there, whatever comes after it, except that a slash is unexpected only if no
star comes after it; and an unexpected end is at the end of the text, while a
comment or a string that is never closed begins at that place. -/
theorem tokenize_error_at {source : Source} {e : LexError} (h : source.tokenize = .error e) :
    ∃ tokens before rest, source.text.toList = before ++ rest ∧
      ((Lexer.ofSource source).reads (tokens.length + 1)).1 = tokens.map .ok ++ [.error e] ∧
      e.location.source = source ∧
      (∀ cut : Source, cut.text = String.ofList before → cut.EndsAfter tokens) ∧
      (∀ c, e.fault = .unexpectedCharacter c →
        rest.head? = some c ∧ e.location.position = Position.start.advanceAll before ∧
        e.location.position.offset = (String.ofList before).utf8ByteSize ∧
        (c ≠ '/' → ∀ other : Source, before ++ [c] <+: other.text.toList →
          other.tokenize = .error ⟨e.fault, ⟨other, e.location.position⟩⟩) ∧
        (c = '/' → ¬ ['/', '*'] <+: rest)) ∧
      (e.fault = .unexpectedEnd →
        Unclosed rest ∧ (∃ w pieces, SplitsBefore rest before w pieces) ∧
        e.location.position = Position.start.advanceAll source.text.toList ∧
        e.location.position.offset = source.text.utf8ByteSize) := by
  obtain ⟨front, rest, w, pieces, before, taken, fault, htext, hsplits, hobstacle⟩ :=
    exists_obstacle_of_tokenize h
  obtain ⟨tokens, htokens, hscan⟩ := hsplits.scan_eq hobstacle htext
  have hpulls := source.pulls_scan
  have hfault := Source.tokenize_eq_error_iff.mp h
  rw [hscan] at hpulls hfault
  cases hfault
  refine ⟨tokens, front, rest, htext, Lexer.reads_of_fault hpulls, rfl,
    fun cut hcut => hsplits.endsAfter htokens cut hcut, ?_, ?_⟩
  · rintro c hc
    cases hobstacle with
    | slash hopen =>
        cases hc
        rw [List.append_nil]
        refine ⟨rfl, rfl, offset_start_advanceAll front, fun hslash => absurd rfl hslash, ?_⟩
        rintro - ⟨ds, hds⟩
        exact hopen ⟨ds, (List.cons.inj hds).2⟩
    | @foreign c' rest hforeign =>
        cases hc
        rw [List.append_nil]
        refine ⟨rfl, rfl, offset_start_advanceAll front, ?_, ?_⟩
        · rintro - other ⟨after, hafter⟩
          -- the same obstacle, with other characters behind it
          have hsplits' : SplitsBefore (c :: after) front w pieces := hsplits.of_head (by simp)
          have htext' : other.text.toList = front ++ c :: after := by simp [← hafter]
          obtain ⟨tokens', -, hscan'⟩ := hsplits'.scan_eq (.foreign hforeign) htext'
          rw [Source.tokenize_eq_error_iff, hscan', List.append_nil]
        · rintro rfl
          exact absurd hforeign.not_opening (by simp)
    | unclosed => cases hc
  · intro hend
    cases hobstacle with
    | slash => cases hend
    | foreign => cases hend
    | unclosed hopen =>
        rw [htext]
        refine ⟨hopen, ⟨w, pieces, hsplits⟩, rfl, ?_⟩
        rw [offset_start_advanceAll, ← htext, String.ofList_toList]

/-- A digit begins no token. The text before it has a string that looks like a
comment and a comment that looks like a string. -/
theorem tokenize_error_at_digit :
    let source : Source := .ofText "f(\"é #\" /*\"*/ 1)"
    let e : LexError := ⟨.unexpectedCharacter '1', ⟨source, ⟨15, 0, 1, 15⟩⟩⟩
    source.tokenize = .error e ∧
      ∃ tokens before rest, source.text.toList = before ++ rest ∧
        (∀ cut : Source, cut.text = String.ofList before → cut.EndsAfter tokens) ∧
        rest.head? = some '1' ∧
        ∀ other : Source, before ++ ['1'] <+: other.text.toList →
          other.tokenize = .error ⟨e.fault, ⟨other, e.location.position⟩⟩ := by
  intro source e
  have h : source.tokenize = .error e := Source.tokenize_eq_error_iff.mpr (by decide +kernel)
  obtain ⟨tokens, before, rest, htext, -, -, hcut, hcharacter, -⟩ := tokenize_error_at h
  obtain ⟨hhead, -, -, hother, -⟩ := hcharacter '1' rfl
  exact ⟨h, tokens, before, rest, htext, hcut, hhead, hother (by decide)⟩

end BuildScript
