import BuildScript.Proofs.Spelling

namespace BuildScript

open Scanner

namespace LexicalGrammar

def blanks : List Char := [' ', '\t', '\n', '\x0b', '\x0c', '\r']

def marks : List (Char × TokenKind) :=
  [('.', .dot), ('[', .bracketOpen), (']', .bracketClose), ('(', .parenOpen), (')', .parenClose),
    ('=', .assign)]

def keywords : List (String × TokenKind) := [("for", .forKeyword), ("in", .inKeyword)]

def IsWordPart (c : Char) : Prop := c.isAlphanum = true ∨ c = '_'

/-- Characters that are layout, with the characters that come after them: a
line comment goes up to a newline or to the end of all, and a block comment to
the first end of a comment after its beginning. -/
inductive Layout : List Char → List Char → Prop where
  | nothing (rest : List Char) : Layout [] rest
  | blank {c : Char} {w rest : List Char} (hc : c ∈ blanks) (later : Layout w rest) :
      Layout (c :: w) rest
  | line {body w rest : List Char} (hbody : '\n' ∉ body)
      (hend : w ++ rest = [] ∨ ∃ cs, w ++ rest = '\n' :: cs) (later : Layout w rest) :
      Layout ('#' :: body ++ w) rest
  | block {body w rest : List Char} (hfirst : ¬ ['*', '/'] <:+: body ++ ['*'])
      (later : Layout w rest) : Layout ('/' :: '*' :: body ++ '*' :: '/' :: w) rest

/-- What stands between the quotes of a string, with its contents: a backslash
is dropped and the character after it kept, whichever it is. -/
inductive Contents : List Char → List Char → Prop where
  | nothing : Contents [] []
  | plain {c : Char} {body text : List Char} (hquote : c ≠ '"') (hslash : c ≠ '\\')
      (later : Contents body text) : Contents (c :: body) (c :: text)
  | escaped {c : Char} {body text : List Char} (later : Contents body text) :
      Contents ('\\' :: c :: body) (c :: text)

/-- The characters of one token, with the characters that come after them and
the kind of the token. -/
inductive Lexeme : List Char → List Char → TokenKind → Prop where
  | mark {c : Char} {kind : TokenKind} {rest : List Char} (h : (c, kind) ∈ marks) :
      Lexeme [c] rest kind
  | word {c : Char} {cs rest : List Char} (hc : c.isAlpha = true) (hcs : ∀ d ∈ cs, IsWordPart d)
      (hrest : ∀ d ∈ rest.head?, ¬ IsWordPart d) :
      Lexeme (c :: cs) rest ((keywords.lookup (String.ofList (c :: cs))).getD
        (.identifier (String.ofList (c :: cs))))
  | quoted {body text rest : List Char} (h : Contents body text) :
      Lexeme ('"' :: body ++ ['"']) rest (.string (String.ofList text))

structure Piece where
  lexeme : List Char
  kind : TokenKind
  layout : List Char

/-- A text, split into the layout at its beginning and one piece for each
token. -/
inductive Splits : List Char → List Char → List Piece → Prop where
  | last {w : List Char} (layout : Layout w []) : Splits w w []
  | piece {w lexeme rest v : List Char} {kind : TokenKind} {pieces : List Piece}
      (layout : Layout w (lexeme ++ rest)) (token : Lexeme lexeme rest kind)
      (later : Splits rest v pieces) : Splits (w ++ lexeme ++ rest) w (⟨lexeme, kind, v⟩ :: pieces)

/-- The tokens of a split text that begins after some characters of a source:
one for each piece, and then the end of the stream. Each is located behind all
the characters before it. -/
def tokensAfter (source : Source) (before : List Char) : List Char → List Piece → List Token
  | w, [] => [⟨.endOfStream, ⟨source, Position.start.advanceAll (before ++ w)⟩⟩]
  | w, piece :: pieces =>
      ⟨piece.kind, ⟨source, Position.start.advanceAll (before ++ w)⟩⟩ ::
        tokensAfter source (before ++ w ++ piece.lexeme) piece.layout pieces

section Characters

theorem isBlank_iff {c : Char} : isBlank c = true ↔ c ∈ blanks := by
  constructor
  · intro h
    simp only [isBlank, Bool.or_eq_true, beq_iff_eq, Bool.and_eq_true, decide_eq_true_eq] at h
    rcases h with rfl | ⟨hlow, hhigh⟩
    · decide
    · have hc : c.toNat = 9 ∨ c.toNat = 10 ∨ c.toNat = 11 ∨ c.toNat = 12 ∨ c.toNat = 13 := by omega
      rw [← Char.ofNat_toNat c]
      rcases hc with hc | hc | hc | hc | hc <;> rw [hc] <;> decide
  · intro h
    simp only [blanks, List.mem_cons, List.not_mem_nil, or_false] at h
    rcases h with rfl | rfl | rfl | rfl | rfl | rfl <;> rfl

theorem isLetter_eq (c : Char) : isLetter c = c.isAlpha := by
  have hupper : c.isUpper = decide (c.val ≥ 'A'.val ∧ c.val ≤ 'Z'.val) := rfl
  have hlower : c.isLower = (decide (c.val ≥ 'a'.val) && decide (c.val ≤ 'z'.val)) := rfl
  have halpha : c.isAlpha = (c.isUpper || c.isLower) := rfl
  rw [Bool.eq_iff_iff, halpha, hupper, hlower]
  simp only [isLetter, Bool.or_eq_true, Bool.and_eq_true, decide_eq_true_eq, ge_iff_le,
    UInt32.le_iff_toNat_le]
  exact or_comm

theorem isWordChar_iff {c : Char} : isWordChar c = true ↔ IsWordPart c := by
  simp only [isWordChar, IsWordPart, Char.isAlphanum, Char.isDigit, isLetter_eq, Bool.or_eq_true,
    Bool.and_eq_true, decide_eq_true_eq, beq_iff_eq, ge_iff_le, UInt32.le_iff_toNat_le]
  rfl

theorem breaks_iff {cs : List Char} : Breaks cs ↔ ∀ d ∈ cs.head?, ¬ IsWordPart d := by
  refine forall₂_congr fun d _ => ?_
  rw [← isWordChar_iff, Bool.not_eq_true]

theorem mem_marks_iff {c : Char} {kind : TokenKind} :
    (c, kind) ∈ marks ↔ TokenKind.ofChar? c = some kind := by
  constructor
  · intro h
    simp only [marks, List.mem_cons, List.not_mem_nil, or_false, Prod.mk.injEq] at h
    rcases h with h | h | h | h | h | h <;> obtain ⟨rfl, rfl⟩ := h <;> rfl
  · intro h
    unfold TokenKind.ofChar? at h
    split at h <;> cases h <;> decide

theorem ofWord_eq (word : List Char) :
    TokenKind.ofWord word =
      (keywords.lookup (String.ofList word)).getD (.identifier (String.ofList word)) := by
  unfold TokenKind.ofWord
  split
  · rename_i h
    subst h
    decide
  · rename_i hfor
    split
    · rename_i h
      subst h
      decide
    · rename_i hin
      have hfor' : (String.ofList word == "for") = false :=
        beq_false_of_ne fun h => hfor (by simpa using congrArg String.toList h)
      have hin' : (String.ofList word == "in") = false :=
        beq_false_of_ne fun h => hin (by simpa using congrArg String.toList h)
      simp [keywords, List.lookup_cons, hfor', hin']

end Characters

section Layout

variable {w rest body cs : List Char}

theorem skipLine_body (hbody : '\n' ∉ body)
    (hend : cs = [] ∨ ∃ ds, cs = '\n' :: ds) (p : Position) :
    skipLine (body ++ cs) p = skipLayout cs (p.advanceAll body) := by
  induction body generalizing p with
  | nil =>
      rcases hend with rfl | ⟨ds, rfl⟩
      · simp [skipLine, skipLayout]
      · rw [skipLayout_blank rfl, List.nil_append, skipLine, if_pos rfl, Position.advanceAll_nil]
  | cons c body ih =>
      obtain ⟨hc, hbody⟩ := not_or.mp (mt List.mem_cons.mpr hbody)
      rw [List.cons_append, skipLine, if_neg (Ne.symm hc), ih hbody, Position.advanceAll_cons]

theorem skipBlock_body (hfirst : ¬ ['*', '/'] <:+: body ++ ['*']) (cs : List Char)
    (p : Position) :
    skipBlock (body ++ '*' :: '/' :: cs) p =
      skipLayout cs (p.advanceAll (body ++ ['*', '/'])) := by
  induction body generalizing p with
  | nil => simp [skipBlock]
  | cons c body ih =>
      have hlater : ¬ ['*', '/'] <:+: body ++ ['*'] := fun h => hfirst (List.infix_cons h)
      rw [List.cons_append, skipBlock_other, ih hlater]
      · rfl
      · -- a comment that ended here would have ended before its body did
        rintro ds rfl hds
        cases body with
        | nil => cases hds
        | cons d body =>
            obtain rfl := (List.cons.inj hds).1
            exact hfirst ⟨[], body ++ ['*'], by simp⟩

def IsSolid (cs : List Char) : Prop := ∀ c ∈ cs.head?, c ∉ blanks ∧ c ≠ '#' ∧ c ≠ '/'

theorem skipLayout_solid (h : IsSolid cs) (p : Position) : skipLayout cs p = (none, ⟨cs, p⟩) := by
  cases cs with
  | nil => rw [skipLayout]
  | cons c cs =>
      obtain ⟨hblank, hhash, hslash⟩ := h c rfl
      exact skipLayout_other (Bool.eq_false_iff.mpr (mt isBlank_iff.mp hblank)) hhash hslash cs p

theorem Layout.skipLayout_append (h : Layout w rest) (p : Position) :
    skipLayout (w ++ rest) p = skipLayout rest (p.advanceAll w) := by
  induction h generalizing p with
  | nothing rest => simp
  | blank hc _ ih =>
      rw [List.cons_append, skipLayout_blank (isBlank_iff.mpr hc), ih, Position.advanceAll_cons]
  | @line body w rest hbody hend _ ih =>
      rw [List.cons_append, List.cons_append, skipLayout_hash, List.append_assoc,
        skipLine_body hbody hend, ih, Position.advanceAll_cons, Position.advanceAll_append]
  | @block body w rest hfirst _ ih =>
      have hskip := skipBlock_body hfirst (w ++ rest) ((p.advance '/').advance '*')
      rw [show '/' :: '*' :: body ++ '*' :: '/' :: w ++ rest =
        '/' :: '*' :: (body ++ '*' :: '/' :: (w ++ rest)) by simp, skipLayout.eq_2, hskip, ih]
      simp [Position.advanceAll_append]

theorem Layout.skipLayout_eq (h : Layout w rest) (hrest : IsSolid rest) (p : Position) :
    skipLayout (w ++ rest) p = (none, ⟨rest, p.advanceAll w⟩) := by
  rw [h.skipLayout_append, skipLayout_solid hrest]

theorem Layout.unique {w' rest' : List Char} (h : Layout w rest) (hrest : IsSolid rest)
    (h' : Layout w' rest') (hrest' : IsSolid rest') (heq : w ++ rest = w' ++ rest') :
    w = w' ∧ rest = rest' := by
  -- the lexer passes over either of them and stops at one place
  have hskip := h.skipLayout_eq hrest .start
  rw [heq, h'.skipLayout_eq hrest' .start] at hskip
  have hsame : rest = rest' := (congrArg Cursor.rest (Prod.mk.inj hskip).2).symm
  rw [hsame] at heq
  exact ⟨List.append_cancel_right heq, hsame⟩

/-- Layout up to the characters `rest`. -/
def InLayout (cs rest : List Char) : Prop := ∃ w, cs = w ++ rest ∧ Layout w rest

/-- What is left of a line comment, and layout after it. -/
def InLine (cs rest : List Char) : Prop :=
  ∃ body w, cs = body ++ w ++ rest ∧ '\n' ∉ body ∧
    (w ++ rest = [] ∨ ∃ ds, w ++ rest = '\n' :: ds) ∧ Layout w rest

/-- What is left of a block comment, and layout after it. -/
def InBlock (cs rest : List Char) : Prop :=
  ∃ body w, cs = body ++ '*' :: '/' :: w ++ rest ∧ ¬ ['*', '/'] <:+: body ++ ['*'] ∧ Layout w rest

theorem InLayout.nothing (rest : List Char) : InLayout rest rest := ⟨[], rfl, .nothing rest⟩

theorem InLayout.blank {c : Char} (hc : c ∈ blanks) (h : InLayout cs rest) :
    InLayout (c :: cs) rest := by
  obtain ⟨w, rfl, hlayout⟩ := h
  exact ⟨c :: w, rfl, .blank hc hlayout⟩

theorem InLine.nothing : InLine [] [] := ⟨[], [], rfl, by simp, .inl rfl, .nothing []⟩

theorem InLine.newline (h : InLayout cs rest) : InLine ('\n' :: cs) rest := by
  obtain ⟨w, rfl, hlayout⟩ := h
  exact ⟨[], '\n' :: w, rfl, by simp, .inr ⟨w ++ rest, rfl⟩, .blank (by decide) hlayout⟩

theorem InLine.cons {c : Char} (hc : c ≠ '\n') (h : InLine cs rest) : InLine (c :: cs) rest := by
  obtain ⟨body, w, rfl, hbody, hend, hlayout⟩ := h
  refine ⟨c :: body, w, rfl, ?_, hend, hlayout⟩
  simpa [Ne.symm hc] using hbody

theorem InLine.inLayout (h : InLine cs rest) : InLayout ('#' :: cs) rest := by
  obtain ⟨body, w, rfl, hbody, hend, hlayout⟩ := h
  exact ⟨'#' :: body ++ w, by simp, .line hbody hend hlayout⟩

theorem InBlock.closed (h : InLayout cs rest) : InBlock ('*' :: '/' :: cs) rest := by
  obtain ⟨w, rfl, hlayout⟩ := h
  exact ⟨[], w, rfl, by decide, hlayout⟩

theorem InBlock.cons {c : Char} (hc : ∀ ds, c = '*' → cs = '/' :: ds → False)
    (h : InBlock cs rest) : InBlock (c :: cs) rest := by
  obtain ⟨body, w, rfl, hfirst, hlayout⟩ := h
  refine ⟨c :: body, w, rfl, ?_, hlayout⟩
  rw [List.cons_append, List.infix_cons_iff]
  rintro (⟨ds, hds⟩ | hinfix)
  · obtain ⟨hstar, htail⟩ := List.cons.inj hds
    cases body with
    | nil => cases htail
    | cons d body =>
        obtain rfl := (List.cons.inj htail).1
        exact hc (body ++ '*' :: '/' :: w ++ rest) hstar.symm rfl
  · exact hfirst hinfix

theorem InBlock.inLayout (h : InBlock cs rest) : InLayout ('/' :: '*' :: cs) rest := by
  obtain ⟨body, w, rfl, hfirst, hlayout⟩ := h
  exact ⟨'/' :: '*' :: body ++ '*' :: '/' :: w, by simp, .block hfirst hlayout⟩

private theorem skip_sound :
    (∀ cs p rest q, skipLayout cs p = (none, ⟨rest, q⟩) → InLayout cs rest) ∧
    (∀ cs p rest q, skipLine cs p = (none, ⟨rest, q⟩) → InLine cs rest) ∧
    ∀ cs p rest q, skipBlock cs p = (none, ⟨rest, q⟩) → InBlock cs rest := by
  apply skipLayout.mutual_induct
    (fun cs p => ∀ rest q, skipLayout cs p = (none, ⟨rest, q⟩) → InLayout cs rest)
    (fun cs p => ∀ rest q, skipLine cs p = (none, ⟨rest, q⟩) → InLine cs rest)
    (fun cs p => ∀ rest q, skipBlock cs p = (none, ⟨rest, q⟩) → InBlock cs rest)
  case case1 =>
    intro p rest q h
    rw [skipLayout] at h
    cases h
    exact .nothing []
  case case2 =>
    intro cs p ih rest q h
    rw [skipLayout] at h
    exact (ih rest q h).inLayout
  case case3 =>
    intro c cs p _ hc ih rest q h
    rw [skipLayout_blank hc] at h
    exact (ih rest q h).blank (isBlank_iff.mp hc)
  case case4 =>
    intro cs p _ _ ih rest q h
    rw [skipLayout_hash] at h
    exact (ih rest q h).inLayout
  case case5 =>
    intro cs p hslash hc hhash rest q h
    rw [skipLayout, if_neg hc, if_neg hhash, if_pos rfl] at h
    · cases h
    · exact hslash
  case case6 =>
    intro c cs p _ hc hhash hslash rest q h
    rw [skipLayout_other (by simpa using hc) hhash hslash] at h
    cases h
    exact .nothing _
  case case7 =>
    intro p rest q h
    rw [skipLine] at h
    cases h
    exact .nothing
  case case8 =>
    intro cs p ih rest q h
    rw [skipLine, if_pos rfl] at h
    exact .newline (ih rest q h)
  case case9 =>
    intro c cs p hc ih rest q h
    rw [skipLine, if_neg hc] at h
    exact (ih rest q h).cons hc
  case case10 =>
    intro p rest q h
    rw [skipBlock] at h
    cases h
  case case11 =>
    intro cs p ih rest q h
    rw [skipBlock] at h
    exact .closed (ih rest q h)
  case case12 =>
    intro c cs p hc ih rest q h
    rw [skipBlock_other hc] at h
    exact (ih rest q h).cons hc

theorem inLayout_of_skipLayout {p : Position} {cursor : Cursor}
    (h : skipLayout cs p = (none, cursor)) : InLayout cs cursor.rest :=
  skip_sound.1 cs p cursor.rest cursor.position h

end Layout

section Lexemes

variable {cs rest body text lexeme : List Char} {kind : TokenKind}

theorem Contents.readString_eq (h : Contents body text) (rest : List Char) (p : Position) :
    readString (body ++ '"' :: rest) p = (some text, ⟨rest, p.advanceAll (body ++ ['"'])⟩) := by
  induction h generalizing p with
  | nothing => simp [readString]
  | @plain c body text hquote hslash _ ih =>
      rw [List.cons_append, readString, if_neg hquote, ih]
      · rfl
      · exact fun h => absurd h hslash
      · exact fun _ _ h => absurd h hslash
  | @escaped c body text _ ih =>
      rw [List.cons_append, List.cons_append, readString, ih]
      rfl

theorem exists_contents_of_readString {p : Position} {cursor : Cursor}
    (h : readString cs p = (some text, cursor)) :
    ∃ body, cs = body ++ '"' :: cursor.rest ∧ Contents body text := by
  fun_induction readString cs p generalizing text cursor with
  | case1 p => cases h
  | case2 p => cases h
  | case3 c cs p found cursor' hread ih =>
      obtain ⟨htext, rfl⟩ := Prod.mk.inj h
      obtain ⟨text, rfl, rfl⟩ := Option.map_eq_some_iff.mp htext
      obtain ⟨body, rfl, hcontents⟩ := ih hread
      exact ⟨'\\' :: c :: body, rfl, .escaped hcontents⟩
  | case4 cs p =>
      cases h
      exact ⟨[], rfl, .nothing⟩
  | case5 c cs p hlast hescape hquote found cursor' hread ih =>
      obtain ⟨htext, rfl⟩ := Prod.mk.inj h
      obtain ⟨text, rfl, rfl⟩ := Option.map_eq_some_iff.mp htext
      obtain ⟨body, rfl, hcontents⟩ := ih hread
      refine ⟨c :: body, rfl, .plain hquote ?_ hcontents⟩
      rintro rfl
      cases body with
      | nil => exact hescape '"' _ rfl rfl
      | cons d body => exact hescape d _ rfl rfl

theorem Lexeme.readToken_eq (h : Lexeme lexeme rest kind) (p : Position) :
    Lexer.readToken (lexeme ++ rest) p = (.ok kind, ⟨rest, p.advanceAll lexeme⟩) := by
  cases h with
  | mark hmark =>
      rw [List.singleton_append, Lexer.readToken, mem_marks_iff.mp hmark]
      rfl
  | word hc hcs hrest =>
      rw [← ofWord_eq]
      refine readToken_word ?_ (fun d hd => isWordChar_iff.mpr (hcs d hd)) (breaks_iff.mpr hrest) p
      rw [isLetter_eq, hc]
  | quoted hcontents =>
      rw [List.append_assoc, List.cons_append, Lexer.readToken, List.singleton_append,
        hcontents.readString_eq]
      rfl

theorem Lexeme.isSolid (h : Lexeme lexeme rest kind) : IsSolid (lexeme ++ rest) := by
  cases h with
  | @mark c _ _ hmark =>
      rintro d hd
      obtain rfl : c = d := by simpa using hd
      simp only [marks, List.mem_cons, List.not_mem_nil, or_false, Prod.mk.injEq] at hmark
      rcases hmark with h | h | h | h | h | h <;> obtain ⟨rfl, -⟩ := h <;> decide
  | @word c cs _ hc _ _ =>
      rintro d hd
      obtain rfl : c = d := by simpa using hd
      refine ⟨?_, ?_, ?_⟩
      · intro hblank
        have hword : isWordChar c = true := by simp [isWordChar, isLetter_eq, hc]
        rw [← isBlank_iff, isBlank_of_isWordChar hword] at hblank
        cases hblank
      · rintro rfl
        cases hc
      · rintro rfl
        cases hc
  | quoted =>
      rintro d hd
      obtain rfl : '"' = d := by simpa using hd
      decide

theorem Lexeme.ne_nil (h : Lexeme lexeme rest kind) : lexeme ≠ [] := by
  cases h with
  | _ => simp

theorem Lexeme.kind_ne_end (h : Lexeme lexeme rest kind) : kind ≠ .endOfStream := by
  rintro rfl
  have hnil := readToken_end (h.readToken_eq .start)
  exact h.ne_nil (List.append_eq_nil_iff.mp hnil).1

theorem Lexeme.unique {lexeme' rest' : List Char} {kind' : TokenKind} (h : Lexeme lexeme rest kind)
    (h' : Lexeme lexeme' rest' kind') (heq : lexeme ++ rest = lexeme' ++ rest') :
    lexeme = lexeme' ∧ rest = rest' ∧ kind = kind' := by
  have hread := h.readToken_eq .start
  rw [heq, h'.readToken_eq .start] at hread
  obtain ⟨hkind, hcursor⟩ := Prod.mk.inj hread
  have hsame : rest = rest' := (congrArg Cursor.rest hcursor).symm
  rw [hsame] at heq
  exact ⟨List.append_cancel_right heq, hsame, (Except.ok.inj hkind).symm⟩

theorem exists_lexeme_of_readToken {p : Position} {cursor : Cursor}
    (h : Lexer.readToken cs p = (.ok kind, cursor)) (hkind : kind ≠ .endOfStream) :
    ∃ lexeme, cs = lexeme ++ cursor.rest ∧ Lexeme lexeme cursor.rest kind := by
  rcases cs with _ | ⟨c, cs⟩
  · simp only [Lexer.readToken, Prod.mk.injEq, Except.ok.injEq] at h
    exact absurd h.1.symm hkind
  · simp only [Lexer.readToken] at h
    split at h
    · rename_i hmark
      cases h
      exact ⟨[c], rfl, .mark (mem_marks_iff.mpr hmark)⟩
    · split at h
      · rename_i hquote
        subst hquote
        split at h
        · rename_i hread
          cases h
          obtain ⟨body, rfl, hcontents⟩ := exists_contents_of_readString hread
          exact ⟨'"' :: body ++ ['"'], by simp, .quoted hcontents⟩
        · cases h
      · split at h
        · rename_i hletter
          cases h
          have hword : isWordChar c = true := by simp [isWordChar, hletter]
          rw [readWord, List.takeWhile_cons_of_pos hword, List.dropWhile_cons_of_pos hword,
            ofWord_eq]
          refine ⟨c :: cs.takeWhile isWordChar, ?_, .word ?_ ?_ ?_⟩
          · rw [List.cons_append, List.takeWhile_append_dropWhile]
          · rw [← isLetter_eq, hletter]
          · intro d hd
            exact isWordChar_iff.mp (List.all_eq_true.mp List.all_takeWhile d hd)
          · intro d hd
            rw [← isWordChar_iff, Bool.not_eq_true]
            have hhead := List.head?_dropWhile_not isWordChar cs
            rw [Option.mem_def.mp hd] at hhead
            exact hhead
        · cases h

end Lexemes

section Splits

variable {source : Source} {cs w w' rest lexeme : List Char} {kind : TokenKind}
  {pieces pieces' : List Piece}

theorem isSolid_nil : IsSolid [] := by simp [IsSolid]

theorem next_of_piece (hlayout : Layout w (lexeme ++ rest)) (hlexeme : Lexeme lexeme rest kind)
    (source : Source) (p : Position) :
    Lexer.next ⟨source, ⟨w ++ lexeme ++ rest, p⟩⟩ =
      (.ok ⟨kind, ⟨source, p.advanceAll w⟩⟩, ⟨source, ⟨rest, p.advanceAll (w ++ lexeme)⟩⟩) := by
  have hskip := hlayout.skipLayout_eq hlexeme.isSolid p
  rw [← List.append_assoc] at hskip
  rw [next_of_eq hskip (hlexeme.readToken_eq _) source, Position.advanceAll_append]

theorem next_of_last (hlayout : Layout w []) (source : Source) (p : Position) :
    Lexer.next ⟨source, ⟨w, p⟩⟩ =
      (.ok ⟨.endOfStream, ⟨source, p.advanceAll w⟩⟩, ⟨source, ⟨[], p.advanceAll w⟩⟩) := by
  have hskip := hlayout.skipLayout_eq isSolid_nil p
  rw [List.append_nil] at hskip
  exact next_of_eq hskip rfl source

/-- A text that is split is read as the tokens of its pieces. -/
theorem Splits.readAll_eq (h : Splits cs w pieces) (source : Source) (before : List Char) {n : Nat}
    (hn : cs.length < n) :
    Lexer.readAll n ⟨source, ⟨cs, Position.start.advanceAll before⟩⟩ =
      (tokensAfter source before w pieces, none) := by
  induction h generalizing before n with
  | last hlayout =>
      obtain ⟨n, rfl⟩ := Nat.exists_eq_succ_of_ne_zero (Nat.ne_zero_of_lt hn)
      rw [Lexer.readAll, next_of_last hlayout, ← Position.advanceAll_append]
      rfl
  | @piece w lexeme rest v kind pieces hlayout hlexeme _ ih =>
      obtain ⟨n, rfl⟩ := Nat.exists_eq_succ_of_ne_zero (Nat.ne_zero_of_lt hn)
      have hend : Token.isEnd ⟨kind, source, Position.start.advanceAll (before ++ w)⟩ = false := by
        simpa [Token.isEnd] using hlexeme.kind_ne_end
      have hlength := List.length_pos_iff.mpr hlexeme.ne_nil
      simp only [List.length_append] at hn
      have hlater := ih (before ++ w ++ lexeme) (n := n) (by omega)
      rw [Lexer.readAll, next_of_piece hlayout hlexeme, ← Position.advanceAll_append,
        ← Position.advanceAll_append, ← List.append_assoc]
      simp only [hend, Bool.false_eq_true, if_false, hlater, tokensAfter]

/-- A text that is read to its end can be split. -/
theorem exists_splits_of_readAll {n : Nat} {lexer : Lexer} (hn : lexer.cursor.rest.length < n)
    (h : (Lexer.readAll n lexer).2 = none) : ∃ w pieces, Splits lexer.cursor.rest w pieces := by
  induction n generalizing lexer with
  | zero => omega
  | succ n ih =>
      rw [Lexer.readAll] at h
      cases hnext : lexer.next with
      | mk answer lexer' =>
          rw [hnext] at h
          cases answer with
          | error e => cases h
          | ok token =>
              obtain ⟨start, hskip, hread⟩ := next_eq_ok hnext
              obtain ⟨w, hw, hlayout⟩ := inLayout_of_skipLayout hskip
              rw [hw]
              by_cases hend : token.isEnd = true
              · have hkind : token.kind = .endOfStream := by simpa [Token.isEnd] using hend
                rw [hkind] at hread
                rw [readToken_end hread, List.append_nil]
                rw [readToken_end hread] at hlayout
                exact ⟨w, [], .last hlayout⟩
              · have hkind : token.kind ≠ .endOfStream := by simpa [Token.isEnd] using hend
                have hlength := Lexer.next_length hnext (by simpa using hend)
                simp only [hend, Bool.false_eq_true, if_false] at h
                obtain ⟨v, pieces, hlater⟩ := ih (by omega) h
                obtain ⟨lexeme, hstart, hlexeme⟩ := exists_lexeme_of_readToken hread hkind
                rw [hstart] at hlayout ⊢
                rw [← List.append_assoc]
                exact ⟨w, _, .piece hlayout hlexeme hlater⟩

/-- There is one way to split a text. -/
theorem Splits.unique (h : Splits cs w pieces) (h' : Splits cs w' pieces') :
    w = w' ∧ pieces = pieces' := by
  induction h generalizing w' pieces' with
  | @last w hlayout =>
      generalize hcs : w = cs' at h'
      cases h' with
      | last _ => exact ⟨rfl, rfl⟩
      | @piece w' lexeme' rest' v' kind' pieces' hlayout' hlexeme' _ =>
          rw [List.append_assoc] at hcs
          have hnil := (hlayout.unique isSolid_nil hlayout' hlexeme'.isSolid
            ((List.append_nil w).trans hcs)).2
          exact absurd (List.append_eq_nil_iff.mp hnil.symm).1 hlexeme'.ne_nil
  | @piece w lexeme rest v kind pieces hlayout hlexeme _ ih =>
      generalize hcs : w ++ lexeme ++ rest = cs' at h'
      rw [List.append_assoc] at hcs
      cases h' with
      | last hlayout' =>
          have hnil := (hlayout.unique hlexeme.isSolid hlayout' isSolid_nil
            (hcs.trans (List.append_nil _).symm)).2
          exact absurd (List.append_eq_nil_iff.mp hnil).1 hlexeme.ne_nil
      | piece hlayout' hlexeme' hlater' =>
          rw [List.append_assoc] at hcs
          obtain ⟨rfl, hrest⟩ := hlayout.unique hlexeme.isSolid hlayout' hlexeme'.isSolid hcs
          obtain ⟨rfl, rfl, rfl⟩ := hlexeme.unique hlexeme' hrest
          obtain ⟨rfl, rfl⟩ := ih hlater'
          exact ⟨rfl, rfl⟩

theorem Splits.tokensAfter_eq (h : Splits cs w pieces) (source : Source) (before : List Char) :
    ∃ tokens, tokensAfter source before w pieces =
        tokens ++ [⟨.endOfStream, ⟨source, Position.start.advanceAll (before ++ cs)⟩⟩] ∧
      tokens.map Token.kind = pieces.map Piece.kind := by
  induction h generalizing before with
  | last => exact ⟨[], rfl, rfl⟩
  | @piece w lexeme rest v kind pieces _ _ _ ih =>
      obtain ⟨tokens, htokens, hkinds⟩ := ih (before ++ w ++ lexeme)
      refine ⟨⟨kind, ⟨source, Position.start.advanceAll (before ++ w)⟩⟩ :: tokens, ?_, ?_⟩
      · rw [tokensAfter, htokens, List.cons_append]
        simp only [List.append_assoc]
      · rw [List.map_cons, List.map_cons, hkinds]

theorem offset_advanceAll (p : Position) (cs : List Char) :
    (p.advanceAll cs).offset = p.offset + (String.ofList cs).utf8ByteSize := by
  induction cs generalizing p with
  | nil => simp
  | cons c cs ih =>
      rw [Position.advanceAll_cons, ih, Position.advance_offset, String.ofList_cons,
        String.utf8ByteSize_append, String.utf8ByteSize_singleton, Nat.add_assoc]

theorem offset_le_advanceAll (p : Position) (cs : List Char) :
    p.offset ≤ (p.advanceAll cs).offset := by
  rw [offset_advanceAll]
  exact Nat.le_add_right _ _

theorem offset_lt_advanceAll (p : Position) {cs : List Char} (hcs : cs ≠ []) :
    p.offset < (p.advanceAll cs).offset := by
  obtain ⟨c, cs, rfl⟩ := List.exists_cons_of_ne_nil hcs
  rw [Position.advanceAll_cons]
  apply Nat.lt_of_lt_of_le _ (offset_le_advanceAll _ cs)
  rw [Position.advance_offset]
  exact Nat.lt_add_of_pos_right c.utf8Size_pos

theorem offset_start_advanceAll (cs : List Char) :
    (Position.start.advanceAll cs).offset = (String.ofList cs).utf8ByteSize := by
  rw [offset_advanceAll]
  exact Nat.zero_add _

end Splits

end LexicalGrammar

open LexicalGrammar

theorem Source.exists_splits_of_tokenize {source : Source} {tokens : List Token}
    (h : source.tokenize = .ok tokens) :
    ∃ w pieces, Splits source.text.toList w pieces ∧ tokens = tokensAfter source [] w pieces := by
  have hscan := Source.tokenize_eq_ok_iff.mp h
  have hfault : (Lexer.readAll _ (Lexer.ofSource source)).2 = none := congrArg Prod.snd hscan
  obtain ⟨w, pieces, hsplits⟩ := exists_splits_of_readAll (Nat.lt_succ_self _) hfault
  have hread := hsplits.readAll_eq source [] (Nat.lt_succ_self _)
  exact ⟨w, pieces, hsplits, congrArg Prod.fst (hscan.symm.trans hread)⟩

/-- A source is tokenized just when its text can be split into layout and
lexemes, and then the tokens are those of the lexemes, each located behind the
characters before it. The end of the stream follows at the end of the text. A
text can be split in one way only, and the offset of a token is the number of
bytes before it. -/
theorem tokenize_iff_splits (source : Source) :
    (∀ tokens, source.tokenize = .ok tokens ↔ ∃ w pieces,
      Splits source.text.toList w pieces ∧ tokens = tokensAfter source [] w pieces) ∧
    (∀ w w' pieces pieces', Splits source.text.toList w pieces →
      Splits source.text.toList w' pieces' → w = w' ∧ pieces = pieces') ∧
    (∀ w pieces, Splits source.text.toList w pieces → ∃ tokens, tokensAfter source [] w pieces =
        tokens ++ [⟨.endOfStream, ⟨source, Position.start.advanceAll source.text.toList⟩⟩] ∧
      tokens.map Token.kind = pieces.map Piece.kind) ∧
    ∀ before, (Position.start.advanceAll before).offset = (String.ofList before).utf8ByteSize := by
  have hscan : ∀ w pieces, Splits source.text.toList w pieces →
      source.scan = (tokensAfter source [] w pieces, none) :=
    fun w pieces h => h.readAll_eq source [] (Nat.lt_succ_self _)
  refine ⟨fun tokens => ?_, fun w w' pieces pieces' h h' => h.unique h',
    fun w pieces h => h.tokensAfter_eq source [], offset_start_advanceAll⟩
  constructor
  · exact Source.exists_splits_of_tokenize
  · rintro ⟨w, pieces, hsplits, rfl⟩
    exact Source.tokenize_eq_ok_iff.mpr (hscan w pieces hsplits)

end BuildScript
