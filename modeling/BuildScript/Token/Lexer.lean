import BuildScript.Token.Scanner

namespace BuildScript

open Scanner

structure Lexer where
  source : Source
  cursor : Cursor

namespace Lexer

def ofSource (source : Source) : Lexer :=
  ⟨source, ⟨source.text.toList, .start⟩⟩

/-- The token at a cursor that stands on no layout. A character that begins
no token stays unread. -/
def readToken : List Char → Position → Except (LexFault × Position) TokenKind × Cursor
  | [], p => (.ok .endOfStream, ⟨[], p⟩)
  | c :: cs, p =>
    match TokenKind.ofChar? c with
    | some kind => (.ok kind, ⟨cs, p.advance c⟩)
    | none =>
      if c = '"' then
        match readString cs (p.advance c) with
        | (some text, cursor) => (.ok (.string (String.ofList text)), cursor)
        | (none, cursor) => (.error (.unexpectedEnd, cursor.position), cursor)
      else if isLetter c then
        let (word, cursor) := readWord (c :: cs) p
        (.ok (.ofWord word), cursor)
      else (.error (.unexpectedCharacter c, p), ⟨c :: cs, p⟩)

def next (lexer : Lexer) : Except LexError Token × Lexer :=
  match skipLayout lexer.cursor.rest lexer.cursor.position with
  | (some (fault, p), cursor) => (.error ⟨fault, ⟨lexer.source, p⟩⟩, { lexer with cursor })
  | (none, start) =>
    match readToken start.rest start.position with
    | (.ok kind, cursor) => (.ok ⟨kind, ⟨lexer.source, start.position⟩⟩, { lexer with cursor })
    | (.error (fault, p), cursor) =>
      (.error ⟨fault, ⟨lexer.source, p⟩⟩, { lexer with cursor })

theorem readToken_reached (cs : List Char) (p : Position) :
    Cursor.Reached cs p (readToken cs p).2 := by
  unfold readToken
  split
  · exact .refl [] p
  · rename_i c cs
    split
    · exact (Cursor.Reached.refl cs _).cons
    · split
      · rename_i hc
        have h := (readString_reached cs (p.advance c)).cons
        split <;> rename_i heq <;> rw [heq] at h <;> exact h
      · split
        · exact readWord_reached (c :: cs) p
        · exact .refl (c :: cs) p

theorem next_reached (lexer : Lexer) :
    lexer.next.2.source = lexer.source ∧
      Cursor.Reached lexer.cursor.rest lexer.cursor.position lexer.next.2.cursor := by
  have hlayout := skipLayout_reached lexer.cursor.rest lexer.cursor.position
  unfold next
  split
  · rename_i heq
    rw [heq] at hlayout
    exact ⟨rfl, hlayout⟩
  · rename_i start heq
    rw [heq] at hlayout
    have htoken := readToken_reached start.rest start.position
    split <;> rename_i heq' <;> rw [heq'] at htoken <;> exact ⟨rfl, hlayout.trans htoken⟩

/-- The answers of `n` reads, one after the other, whatever they are. -/
def reads : Nat → Lexer → List (Except LexError Token) × Lexer
  | 0, lexer => ([], lexer)
  | n + 1, lexer =>
    let (answer, lexer) := lexer.next
    let (answers, lexer) := reads n lexer
    (answer :: answers, lexer)

/-- The tokens up to the end of the stream or the first fault, and the
fault. At most `n` reads are made. -/
def readAll : Nat → Lexer → List Token × Option LexError
  | 0, _ => ([], none)
  | n + 1, lexer =>
    match lexer.next with
    | (.error e, _) => ([], some e)
    | (.ok token, lexer) =>
      if token.isEnd then ([token], none)
      else
        let (tokens, fault) := readAll n lexer
        (token :: tokens, fault)

end Lexer

namespace Source

/-- The tokens a source yields before it ends or faults, the end included,
and the fault. Every token but the end takes a character, so one read more
than there are characters is enough. -/
def scan (source : Source) : List Token × Option LexError :=
  (Lexer.ofSource source).readAll (source.text.toList.length + 1)

def tokenize (source : Source) : Except LexError (List Token) :=
  match source.scan with
  | (tokens, none) => .ok tokens
  | (_, some e) => .error e

end Source

end BuildScript
