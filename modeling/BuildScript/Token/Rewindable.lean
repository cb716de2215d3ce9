import BuildScript.Token.Lexer

namespace BuildScript

/-- Something tokens can be pulled from, one at a time. -/
class TokenStream (τ : Type) where
  pull : τ → Except LexError Token × τ

instance : TokenStream Lexer := ⟨Lexer.next⟩

/-- A stream that counts its pulls, the failed ones included. -/
structure Metered (τ : Type) where
  stream : τ
  pulls : Nat := 0

instance {τ : Type} [TokenStream τ] : TokenStream (Metered τ) where
  pull m :=
    let (answer, stream) := TokenStream.pull m.stream
    (answer, ⟨stream, m.pulls + 1⟩)

/-- A stream, the tokens pulled from it so far, and the index of the token to
be read next. -/
structure Rewindable (τ : Type) where
  stream : τ
  buffer : Array Token := #[]
  cursor : Nat := 0

structure Mark where
  index : Nat
deriving DecidableEq

namespace Rewindable

variable {τ : Type}

def ofStream (stream : τ) : Rewindable τ := { stream }

/-- The token at the cursor. It is pulled if it has not been seen yet; a
failed pull leaves buffer and cursor as they are. -/
def peek [TokenStream τ] (r : Rewindable τ) : Except LexError Token × Rewindable τ :=
  match r.buffer[r.cursor]? with
  | some token => (.ok token, r)
  | none =>
    match TokenStream.pull r.stream with
    | (.ok token, stream) => (.ok token, { r with stream, buffer := r.buffer.push token })
    | (.error e, stream) => (.error e, { r with stream })

def next [TokenStream τ] (r : Rewindable τ) : Except LexError Token × Rewindable τ :=
  match r.peek with
  | (.ok token, r) => (.ok token, { r with cursor := r.cursor + 1 })
  | (.error e, r) => (.error e, r)

def mark (r : Rewindable τ) : Mark := ⟨r.cursor⟩

def rewind (r : Rewindable τ) (m : Mark) : Rewindable τ := { r with cursor := m.index }

/-- A token that has been pulled before is not pulled again. -/
theorem peek_of_buffered [TokenStream τ] {r : Rewindable τ} {token : Token}
    (h : r.buffer[r.cursor]? = some token) :
    r.peek = (.ok token, r) := by
  simp [peek, h]

@[simp] theorem rewind_mark (r : Rewindable τ) : r.rewind r.mark = r := rfl

end Rewindable

end BuildScript
