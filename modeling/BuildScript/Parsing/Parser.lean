import BuildScript.Token.Rewindable
import BuildScript.Parsing.Error
import BuildScript.Journal

/-!
Parsers with backtracking. A parser reads from a supply of tokens that can be
wound back, and ends in one of four ways: it matches, it does not match, it
meets an error that stops all reading, or it runs out of its budget.

Alternatives are tried in order, each from the same place. A repetition ends
at the first item that does not match.
-/

namespace BuildScript

/-- Tokens with a place in them to read at. The number of tokens fetched so
far tells whether reading one was the first time it was seen. -/
class TokenSupply (σ : Type) where
  peek : σ → Except LexError Token × σ
  next : σ → Except LexError Token × σ
  mark : σ → Mark
  rewind : σ → Mark → σ
  fetched : σ → Nat

instance {τ : Type} [TokenStream τ] : TokenSupply (Rewindable τ) where
  peek := Rewindable.peek
  next := Rewindable.next
  mark := Rewindable.mark
  rewind := Rewindable.rewind
  fetched r := r.buffer.size

/-- How a parser can fail to match. Only a mismatch lets another alternative
be tried. -/
inductive Failure where
  | mismatch (token : Token)
  | fatal (error : ParseError)
  | exhausted

structure ParserState (σ : Type) where
  supply : σ
  journal : Journal

abbrev Parser (σ : Type) := EStateM Failure (ParserState σ)

namespace Parser

variable {σ α : Type}

/-- Takes one answer of the supply. A token fetched for the first time is
recorded; a fault stops all reading. -/
def take [TokenSupply σ] (read : σ → Except LexError Token × σ) : Parser σ Token :=
  fun ⟨supply, journal⟩ =>
    let fetched := TokenSupply.fetched supply
    match read supply with
    | (.ok token, supply) =>
      let isNew := fetched < TokenSupply.fetched supply
      .ok token ⟨supply, if isNew then journal.recordToken token else journal⟩
    | (.error e, supply) => .error (.fatal (.lexical e)) ⟨supply, journal⟩

variable [TokenSupply σ]

def peek : Parser σ Token := take TokenSupply.peek

def next : Parser σ Token := take TokenSupply.next

def here : Parser σ Location := return (← peek).location

def record (e : Event) : Parser σ Unit :=
  modify fun s => { s with journal := s.journal.record e }

def expect (kind : TokenKind) : Parser σ Token := do
  let token ← next
  if token.kind.sameKind kind then return token else throw (.mismatch token)

def expectIdentifier (name : String) : Parser σ Location := do
  let token ← next
  if token.kind = .identifier name then return token.location else throw (.mismatch token)

def identifier : Parser σ (String × Location) := do
  let token ← next
  match token.kind with
  | .identifier name => return (name, token.location)
  | _ => throw (.mismatch token)

def stringToken : Parser σ (String × Location) := do
  let token ← next
  match token.kind with
  | .string text => return (text, token.location)
  | _ => throw (.mismatch token)

/-- Tries `p`. If it does not match, reading goes back to where it was and
`onMismatch` goes on with the token that did not fit. -/
def orElse (p : Parser σ α) (onMismatch : Token → Parser σ α) : Parser σ α :=
  fun s =>
    let mark := TokenSupply.mark s.supply
    match p s with
    | .error (.mismatch token) ⟨supply, journal⟩ =>
      onMismatch token ⟨TokenSupply.rewind supply mark, journal⟩
    | result => result

/-- The first of some alternatives that matches; if none does, the mismatch
of the last one. -/
def firstOf (p : Parser σ α) : List (Parser σ α) → Parser σ α
  | [] => orElse p fun token => throw (.mismatch token)
  | q :: qs => orElse p fun _ => firstOf q qs

def optional (p : Parser σ α) : Parser σ (Option α) :=
  orElse (return some (← p)) fun _ => return none

/-- As many matches of `p` as there are, at most `budget` tries. -/
def many (p : Parser σ α) : (budget : Nat) → Parser σ (List α)
  | 0 => throw .exhausted
  | budget + 1 => do
    match ← optional p with
    | none => return []
    | some a => return a :: (← many p budget)

end Parser

end BuildScript
