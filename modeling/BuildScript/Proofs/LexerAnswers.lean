import BuildScript.Proofs.CutTexts

namespace BuildScript.LexicalGrammar

open Scanner

/-- A character that neither layout nor a lexeme begins with. -/
structure IsForeign (c : Char) : Prop where
  not_blank : c ∉ blanks
  not_opening : c ∉ ['#', '/', '"']
  not_mark : ∀ kind, (c, kind) ∉ marks
  not_letter : c.isAlpha = false

/-- A comment or a string that is opened, and its end does not come. -/
inductive Unclosed : List Char → Prop where
  | comment {body : List Char} (hopen : ¬ ['*', '/'] <:+: body) : Unclosed ('/' :: '*' :: body)
  | string {body : List Char} (hopen : ∀ inside text rest, Contents inside text →
      body ≠ inside ++ '"' :: rest) : Unclosed ('"' :: body)

/-- What keeps the lexer from reading a token: the characters it stands before,
those that are before the place of the fault, those that are read nevertheless,
and the fault. -/
inductive Obstacle : List Char → List Char → List Char → LexFault → Prop where
  | slash {rest : List Char} (hopen : ¬ ['*'] <+: rest) :
      Obstacle ('/' :: rest) [] ['/'] (.unexpectedCharacter '/')
  | foreign {c : Char} {rest : List Char} (hc : IsForeign c) :
      Obstacle (c :: rest) [] [] (.unexpectedCharacter c)
  | unclosed {cs : List Char} (hopen : Unclosed cs) : Obstacle cs cs cs .unexpectedEnd

/-- What a read answers before the given characters: the characters before the
place of the answer, those that are read, and the kind of the token or the
fault. -/
inductive Answers : List Char → List Char → List Char → Except LexFault TokenKind → Prop where
  | token {w lexeme rest : List Char} {kind : TokenKind} (layout : Layout w (lexeme ++ rest))
      (token : Lexeme lexeme rest kind) :
      Answers (w ++ lexeme ++ rest) w (w ++ lexeme) (.ok kind)
  | last {w : List Char} (layout : Layout w []) : Answers w w w (.ok .endOfStream)
  | fault {w rest before taken : List Char} {fault : LexFault} (layout : Layout w rest)
      (obstacle : Obstacle rest before taken fault) :
      Answers (w ++ rest) (w ++ before) (w ++ taken) (.error fault)

def answerAt (location : Location) : Except LexFault TokenKind → Except LexError Token
  | .ok kind => .ok ⟨kind, location⟩
  | .error fault => .error ⟨fault, location⟩

section Stops

variable {cs rest body : List Char}

inductive Stops : List Char → Prop where
  | solid {rest : List Char} (h : IsSolid rest) : Stops rest
  | slash {rest : List Char} (hopen : ¬ ['*'] <+: rest) : Stops ('/' :: rest)
  | comment {body : List Char} (hopen : ¬ ['*', '/'] <:+: body) : Stops ('/' :: '*' :: body)

/-- All characters are layout and then something that layout ends before. -/
theorem exists_inLayout (cs : List Char) : ∃ rest, InLayout cs rest ∧ Stops rest := by
  have hall : (∀ cs (_ : Position), ∃ rest, InLayout cs rest ∧ Stops rest) ∧
      (∀ cs (_ : Position), ∃ rest, InLine cs rest ∧ Stops rest) ∧
      ∀ cs (_ : Position), (∃ rest, InBlock cs rest ∧ Stops rest) ∨ ¬ ['*', '/'] <:+: cs := by
    apply skipLayout.mutual_induct
      (fun cs _ => ∃ rest, InLayout cs rest ∧ Stops rest)
      (fun cs _ => ∃ rest, InLine cs rest ∧ Stops rest)
      (fun cs _ => (∃ rest, InBlock cs rest ∧ Stops rest) ∨ ¬ ['*', '/'] <:+: cs)
    case case1 => exact fun _ => ⟨[], .nothing [], .solid isSolid_nil⟩
    case case2 =>
      rintro cs - (⟨rest, hblock, hstops⟩ | hopen)
      · exact ⟨rest, hblock.inLayout, hstops⟩
      · exact ⟨_, .nothing _, .comment hopen⟩
    case case3 =>
      rintro c cs - - hc ⟨rest, hlayout, hstops⟩
      exact ⟨rest, hlayout.blank (isBlank_iff.mp hc), hstops⟩
    case case4 =>
      rintro cs - - - ⟨rest, hline, hstops⟩
      exact ⟨rest, hline.inLayout, hstops⟩
    case case5 =>
      intro cs _ hslash _ _
      refine ⟨_, .nothing _, .slash ?_⟩
      rintro ⟨ds, rfl⟩
      exact hslash ds rfl rfl
    case case6 =>
      intro c cs _ _ hc hhash hslash
      refine ⟨_, .nothing _, .solid ?_⟩
      rintro d hd
      obtain rfl : c = d := by simpa using hd
      exact ⟨mt isBlank_iff.mpr hc, hhash, hslash⟩
    case case7 => exact fun _ => ⟨[], .nothing, .solid isSolid_nil⟩
    case case8 =>
      rintro cs - ⟨rest, hlayout, hstops⟩
      exact ⟨rest, .newline hlayout, hstops⟩
    case case9 =>
      rintro c cs - hc ⟨rest, hline, hstops⟩
      exact ⟨rest, hline.cons hc, hstops⟩
    case case10 => exact fun _ => .inr (by simp)
    case case11 =>
      rintro cs - ⟨rest, hlayout, hstops⟩
      exact .inl ⟨rest, .closed hlayout, hstops⟩
    case case12 =>
      rintro c cs - hc (⟨rest, hblock, hstops⟩ | hopen)
      · exact .inl ⟨rest, hblock.cons hc, hstops⟩
      · right
        rw [List.infix_cons_iff]
        rintro (⟨ds, hds⟩ | hinfix)
        · obtain ⟨rfl, rfl⟩ := List.cons.inj hds
          exact hc ds rfl rfl
        · exact hopen hinfix
  exact hall.1 cs .start

/-- Characters that go on with no layout begin with a lexeme, or with a string
that is not closed, or with a foreign character, unless there are none. -/
theorem exists_lexeme_of_solid (h : IsSolid cs) :
    cs = [] ∨ (∃ lexeme rest kind, cs = lexeme ++ rest ∧ Lexeme lexeme rest kind) ∨
      Unclosed cs ∨ ∃ c rest, cs = c :: rest ∧ IsForeign c := by
  rcases cs with _ | ⟨c, cs⟩
  · exact .inl rfl
  · right
    by_cases hmark : ∃ kind, (c, kind) ∈ marks
    · obtain ⟨kind, hkind⟩ := hmark
      exact .inl ⟨[c], cs, kind, rfl, .mark hkind⟩
    by_cases hquote : c = '"'
    · subst hquote
      by_cases hclosed : ∃ inside text rest, Contents inside text ∧ cs = inside ++ '"' :: rest
      · obtain ⟨inside, text, rest, hcontents, rfl⟩ := hclosed
        exact .inl ⟨'"' :: inside ++ ['"'], rest, _, by simp, .quoted hcontents⟩
      · right
        left
        apply Unclosed.string
        intro inside text rest hcontents heq
        exact hclosed ⟨inside, text, rest, hcontents, heq⟩
    by_cases hletter : c.isAlpha = true
    · left
      refine ⟨c :: cs.takeWhile isWordChar, cs.dropWhile isWordChar, _, ?_, .word hletter ?_ ?_⟩
      · rw [List.cons_append, List.takeWhile_append_dropWhile]
      · intro d hd
        exact isWordChar_iff.mp (List.all_eq_true.mp List.all_takeWhile d hd)
      · intro d hd
        have hhead := List.head?_dropWhile_not isWordChar cs
        rw [Option.mem_def.mp hd] at hhead
        rw [← isWordChar_iff, Bool.not_eq_true]
        exact hhead
    · obtain ⟨hblank, hhash, hslash⟩ := h c rfl
      right
      right
      refine ⟨c, cs, rfl, hblank, ?_, fun kind hkind => hmark ⟨kind, hkind⟩, ?_⟩
      · simp [hhash, hslash, hquote]
      · simpa using hletter

theorem exists_answers (cs : List Char) :
    ∃ before taken answer, Answers cs before taken answer := by
  obtain ⟨rest, ⟨w, rfl, hlayout⟩, hstops⟩ := exists_inLayout cs
  cases hstops with
  | slash hopen => exact ⟨_, _, _, .fault hlayout (.slash hopen)⟩
  | comment hopen => exact ⟨_, _, _, .fault hlayout (.unclosed (.comment hopen))⟩
  | solid hsolid =>
      rcases exists_lexeme_of_solid hsolid with
        rfl | ⟨lexeme, rest, kind, rfl, hlexeme⟩ | hopen | ⟨c, rest, rfl, hc⟩
      · rw [List.append_nil]
        exact ⟨_, _, _, .last hlayout⟩
      · rw [← List.append_assoc]
        exact ⟨_, _, _, .token hlayout hlexeme⟩
      · exact ⟨_, _, _, .fault hlayout (.unclosed hopen)⟩
      · exact ⟨_, _, _, .fault hlayout (.foreign hc)⟩

end Stops

section Reading

variable {cs rest body : List Char} {c : Char}

theorem skipLayout_slash (hopen : ¬ ['*'] <+: rest) (p : Position) :
    skipLayout ('/' :: rest) p =
      (some (.unexpectedCharacter '/', p), ⟨rest, p.advance '/'⟩) := by
  rw [skipLayout, if_neg (by decide), if_neg (by decide), if_pos rfl]
  rintro ds - rfl
  exact hopen ⟨ds, rfl⟩

theorem skipBlock_open (hopen : ¬ ['*', '/'] <:+: body) (p : Position) :
    skipBlock body p =
      (some (.unexpectedEnd, p.advanceAll body), ⟨[], p.advanceAll body⟩) := by
  induction body generalizing p with
  | nil => rw [skipBlock, Position.advanceAll_nil]
  | cons c body ih =>
      rw [skipBlock_other, ih fun hinfix => hopen (List.infix_cons hinfix),
        Position.advanceAll_cons]
      rintro ds rfl rfl
      exact hopen ⟨[], ds, rfl⟩

theorem readString_eq_none {cs : List Char} {p : Position} {cursor : Cursor}
    (h : readString cs p = (none, cursor)) : cursor = ⟨[], p.advanceAll cs⟩ := by
  fun_induction readString cs p generalizing cursor with
  | case1 p => exact (Prod.mk.inj h).2.symm
  | case2 p => exact (Prod.mk.inj h).2.symm
  | case3 c cs p text cursor' hread ih =>
      obtain ⟨htext, rfl⟩ := Prod.mk.inj h
      rw [Option.map_eq_none_iff] at htext
      subst htext
      exact ih hread
  | case4 cs p => cases h
  | case5 c cs p hlast hescape hquote text cursor' hread ih =>
      obtain ⟨htext, rfl⟩ := Prod.mk.inj h
      rw [Option.map_eq_none_iff] at htext
      subst htext
      exact ih hread

theorem readString_open
    (hopen : ∀ inside text rest, Contents inside text → body ≠ inside ++ '"' :: rest)
    (p : Position) : readString body p = (none, ⟨[], p.advanceAll body⟩) := by
  rcases hread : readString body p with ⟨_ | text, cursor⟩
  · rw [readString_eq_none hread]
  · obtain ⟨inside, hbody, hcontents⟩ := exists_contents_of_readString hread
    exact absurd hbody (hopen inside text cursor.rest hcontents)

theorem readToken_foreign (hc : IsForeign c) (p : Position) :
    Lexer.readToken (c :: rest) p = (.error (.unexpectedCharacter c, p), ⟨c :: rest, p⟩) := by
  have hmark : TokenKind.ofChar? c = none := by
    rw [Option.eq_none_iff_forall_not_mem]
    exact fun kind hkind => hc.not_mark kind (mem_marks_iff.mpr hkind)
  have hquote : c ≠ '"' := by
    rintro rfl
    exact hc.not_opening (by simp)
  simp only [Lexer.readToken, hmark, if_neg hquote, isLetter_eq, hc.not_letter]
  rfl

theorem IsForeign.isSolid (hc : IsForeign c) (rest : List Char) : IsSolid (c :: rest) := by
  rintro d hd
  obtain rfl : c = d := by simpa using hd
  have hopening := hc.not_opening
  simp only [List.mem_cons, not_or] at hopening
  exact ⟨hc.not_blank, hopening.1, hopening.2.1⟩

theorem Obstacle.next_eq {w before taken : List Char} {fault : LexFault} (hlayout : Layout w cs)
    (h : Obstacle cs before taken fault) (source : Source) (p : Position) :
    ∃ rest, cs = taken ++ rest ∧ Lexer.next ⟨source, ⟨w ++ cs, p⟩⟩ =
      (.error ⟨fault, ⟨source, p.advanceAll (w ++ before)⟩⟩,
        ⟨source, ⟨rest, p.advanceAll (w ++ taken)⟩⟩) := by
  rw [Position.advanceAll_append, Position.advanceAll_append]
  cases h with
  | @slash rest hopen =>
      refine ⟨rest, rfl, ?_⟩
      rw [Lexer.next, hlayout.skipLayout_append, skipLayout_slash hopen]
      rfl
  | @foreign c rest hc =>
      refine ⟨c :: rest, rfl, ?_⟩
      rw [Lexer.next, hlayout.skipLayout_eq (hc.isSolid _)]
      simp only [readToken_foreign hc]
      rfl
  | unclosed hopen =>
      refine ⟨[], (List.append_nil cs).symm, ?_⟩
      cases hopen with
      | comment hopen =>
          rw [Lexer.next, hlayout.skipLayout_append, skipLayout.eq_2, skipBlock_open hopen]
          rfl
      | @string body hopen =>
          have hsolid : IsSolid ('"' :: body) := by
            rintro d hd
            obtain rfl : '"' = d := by simpa using hd
            decide
          rw [Lexer.next, hlayout.skipLayout_eq hsolid]
          simp only [Lexer.readToken, readString_open hopen]
          rfl

theorem Answers.next_eq {before taken : List Char} {answer : Except LexFault TokenKind}
    (h : Answers cs before taken answer) (source : Source) (p : Position) :
    ∃ rest, cs = taken ++ rest ∧ Lexer.next ⟨source, ⟨cs, p⟩⟩ =
      (answerAt ⟨source, p.advanceAll before⟩ answer, ⟨source, ⟨rest, p.advanceAll taken⟩⟩) := by
  cases h with
  | token hlayout hlexeme => exact ⟨_, rfl, next_of_piece hlayout hlexeme source p⟩
  | last hlayout => exact ⟨[], (List.append_nil _).symm, next_of_last hlayout source p⟩
  | fault hlayout hobstacle =>
      obtain ⟨rest, rfl, hnext⟩ := hobstacle.next_eq hlayout source p
      exact ⟨rest, (List.append_assoc _ _ _).symm, hnext⟩

end Reading

end BuildScript.LexicalGrammar
