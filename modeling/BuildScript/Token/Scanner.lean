import BuildScript.Token.Basic

namespace BuildScript.Scanner

/-- The unread characters of a text and where they begin. -/
structure Cursor where
  rest : List Char
  position : Position
deriving DecidableEq

def isBlank (c : Char) : Bool :=
  c == ' ' || (9 ≤ c.toNat && c.toNat ≤ 13)

def isLetter (c : Char) : Bool :=
  ('a'.toNat ≤ c.toNat && c.toNat ≤ 'z'.toNat) || ('A'.toNat ≤ c.toNat && c.toNat ≤ 'Z'.toNat)

def isWordChar (c : Char) : Bool :=
  isLetter c || ('0'.toNat ≤ c.toNat && c.toNat ≤ '9'.toNat) || c == '_'

mutual

/-- Passes over layout. A slash that opens no comment is read and then
reported where it stands. -/
def skipLayout : List Char → Position → Option (LexFault × Position) × Cursor
  | [], p => (none, ⟨[], p⟩)
  | '/' :: '*' :: cs, p => skipBlock cs ((p.advance '/').advance '*')
  | c :: cs, p =>
    if isBlank c then skipLayout cs (p.advance c)
    else if c = '#' then skipLine cs (p.advance c)
    else if c = '/' then (some (.unexpectedCharacter c, p), ⟨cs, p.advance c⟩)
    else (none, ⟨c :: cs, p⟩)

def skipLine : List Char → Position → Option (LexFault × Position) × Cursor
  | [], p => (none, ⟨[], p⟩)
  | c :: cs, p =>
    if c = '\n' then skipLayout cs (p.advance c) else skipLine cs (p.advance c)

def skipBlock : List Char → Position → Option (LexFault × Position) × Cursor
  | [], p => (some (.unexpectedEnd, p), ⟨[], p⟩)
  | '*' :: '/' :: cs, p => skipLayout cs ((p.advance '*').advance '/')
  | c :: cs, p => skipBlock cs (p.advance c)

end

/-- Reads the contents of a string literal and its closing quote. A backslash
takes the next character as it is. No contents means that the quote never
came. -/
def readString : List Char → Position → Option (List Char) × Cursor
  | [], p => (none, ⟨[], p⟩)
  | ['\\'], p => (none, ⟨[], p.advance '\\'⟩)
  | '\\' :: c :: cs, p =>
    let (text, cursor) := readString cs ((p.advance '\\').advance c)
    (text.map (c :: ·), cursor)
  | c :: cs, p =>
    if c = '"' then (some [], ⟨cs, p.advance c⟩)
    else
      let (text, cursor) := readString cs (p.advance c)
      (text.map (c :: ·), cursor)

def readWord (cs : List Char) (p : Position) : List Char × Cursor :=
  let word := cs.takeWhile isWordChar
  (word, ⟨cs.dropWhile isWordChar, p.advanceAll word⟩)

/-- A cursor that was reached from the first character of `cs` at `p`: some
characters have been read, and the position counts just those. -/
def Cursor.Reached (cs : List Char) (p : Position) (cursor : Cursor) : Prop :=
  ∃ used, cs = used ++ cursor.rest ∧ cursor.position = p.advanceAll used

namespace Cursor.Reached

theorem refl (cs : List Char) (p : Position) : Reached cs p ⟨cs, p⟩ :=
  ⟨[], rfl, rfl⟩

theorem cons {c : Char} {cs : List Char} {p : Position} {cursor : Cursor}
    (h : Reached cs (p.advance c) cursor) : Reached (c :: cs) p cursor := by
  obtain ⟨used, hcs, hp⟩ := h
  exact ⟨c :: used, by rw [hcs, List.cons_append], by rw [hp, Position.advanceAll_cons]⟩

theorem trans {cs : List Char} {p : Position} {mid cursor : Cursor}
    (h : Reached cs p mid) (h' : Reached mid.rest mid.position cursor) :
    Reached cs p cursor := by
  obtain ⟨used, hcs, hp⟩ := h
  obtain ⟨used', hcs', hp'⟩ := h'
  refine ⟨used ++ used', ?_, ?_⟩
  · rw [List.append_assoc, ← hcs', hcs]
  · rw [hp', hp, Position.advanceAll_append]

theorem length_le {cs : List Char} {p : Position} {cursor : Cursor}
    (h : Reached cs p cursor) : cursor.rest.length ≤ cs.length := by
  obtain ⟨used, hcs, _⟩ := h
  rw [hcs, List.length_append]
  omega

end Cursor.Reached

private theorem skip_reached :
    (∀ cs p, Cursor.Reached cs p (skipLayout cs p).2) ∧
    (∀ cs p, Cursor.Reached cs p (skipLine cs p).2) ∧
    (∀ cs p, Cursor.Reached cs p (skipBlock cs p).2) := by
  apply skipLayout.mutual_induct
    (fun cs p => Cursor.Reached cs p (skipLayout cs p).2)
    (fun cs p => Cursor.Reached cs p (skipLine cs p).2)
    (fun cs p => Cursor.Reached cs p (skipBlock cs p).2)
  case case1 => exact fun p => by rw [skipLayout]; exact .refl [] p
  case case2 => exact fun cs p ih => by rw [skipLayout]; exact ih.cons.cons
  case case3 => exact fun c cs p h hc ih => by rw [skipLayout, if_pos hc]; exact ih.cons; exact h
  case case4 =>
    exact fun cs p h hc ih => by rw [skipLayout, if_neg hc, if_pos rfl]; exact ih.cons; exact h
  case case5 =>
    intro cs p h hc hc'
    rw [skipLayout, if_neg hc, if_neg hc', if_pos rfl]
    · exact (Cursor.Reached.refl cs (p.advance '/')).cons
    · exact h
  case case6 =>
    intro c cs p h hc hc' hc''
    rw [skipLayout, if_neg hc, if_neg hc', if_neg hc'']
    · exact .refl (c :: cs) p
    · exact h
  case case7 => exact fun p => by rw [skipLine]; exact .refl [] p
  case case8 => exact fun cs p ih => by rw [skipLine, if_pos rfl]; exact ih.cons
  case case9 => exact fun c cs p h ih => by rw [skipLine, if_neg h]; exact ih.cons
  case case10 => exact fun p => by rw [skipBlock]; exact .refl [] p
  case case11 => exact fun cs p ih => by rw [skipBlock]; exact ih.cons.cons
  case case12 => exact fun c cs p h ih => by rw [skipBlock]; exact ih.cons; exact h

theorem skipLayout_reached (cs : List Char) (p : Position) :
    Cursor.Reached cs p (skipLayout cs p).2 :=
  skip_reached.1 cs p

theorem readString_reached (cs : List Char) (p : Position) :
    Cursor.Reached cs p (readString cs p).2 := by
  fun_induction readString cs p with
  | case1 p => exact .refl [] p
  | case2 p => exact (Cursor.Reached.refl [] _).cons
  | case3 c cs p text cursor h ih =>
    rw [h] at ih
    exact ih.cons.cons
  | case4 cs p => exact (Cursor.Reached.refl cs _).cons
  | case5 c cs p _ _ _ text cursor h ih =>
    rw [h] at ih
    exact ih.cons

theorem readWord_reached (cs : List Char) (p : Position) :
    Cursor.Reached cs p (readWord cs p).2 :=
  ⟨cs.takeWhile isWordChar, (List.takeWhile_append_dropWhile).symm, rfl⟩

end BuildScript.Scanner
