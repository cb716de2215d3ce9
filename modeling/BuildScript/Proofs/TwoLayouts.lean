import BuildScript.Proofs.TokenArrays
import BuildScript.Proofs.Relocation

namespace BuildScript

open BuildScript.Parser

/-- Two tokens at the same index. -/
structure Facing (tokens tokens' : List Token) (i : Nat) (token token' : Token) : Prop where
  left : tokens[i]? = some token
  right : tokens'[i]? = some token'

inductive SamePlace (tokens tokens' : List Token) : Location → Location → Prop where
  | facing {i : Nat} {token token' : Token} (h : Facing tokens tokens' i token token') :
      SamePlace tokens tokens' token.location token'.location

/-- The tokens of two texts that differ in their layout only: the kinds are the
same, and nothing follows the end of the stream. Either both texts have a fault
behind these tokens or neither has. -/
structure Layouts where
  tokens : List Token
  tokens' : List Token
  kinds_eq : tokens.map (·.kind) = tokens'.map (·.kind)
  faulty : Prop
  closed : ∀ (i : Nat) (token : Token), tokens[i]? = some token → token.kind ≠ .endOfStream →
    i + 1 < tokens.length ∨ faulty

namespace Layouts

abbrev Facing (L : Layouts) : Nat → Token → Token → Prop := BuildScript.Facing L.tokens L.tokens'

abbrev SamePlace (L : Layouts) : Location → Location → Prop :=
  BuildScript.SamePlace L.tokens L.tokens'

variable {L : Layouts} {i : Nat}

theorem kind_eq {token token' : Token} (h : L.Facing i token token') :
    token.kind = token'.kind := by
  have hkinds := congrArg (·[i]?) L.kinds_eq
  simpa [h.left, h.right] using hkinds

theorem length_eq (L : Layouts) : L.tokens.length = L.tokens'.length := by
  simpa using congrArg List.length L.kinds_eq

theorem exists_facing (L : Layouts) (hi : i < L.tokens.length) :
    ∃ token token', L.Facing i token token' :=
  ⟨_, _, List.getElem?_eq_getElem hi, List.getElem?_eq_getElem (L.length_eq ▸ hi)⟩

def Inside (L : Layouts) (i : Nat) : Prop :=
  i < L.tokens.length ∨ L.faulty ∧ i = L.tokens.length

theorem inside_succ {token : Token} (htoken : L.tokens[i]? = some token)
    (hkind : token.kind ≠ .endOfStream) : L.Inside (i + 1) := by
  obtain ⟨hlt, -⟩ := List.getElem?_eq_some_iff.mp htoken
  rcases L.closed i token htoken hkind with hbefore | hfaulty
  · exact .inl hbefore
  · rcases Nat.lt_or_eq_of_le (Nat.succ_le_of_lt hlt) with hbefore | hlast
    · exact .inl hbefore
    · exact .inr ⟨hfaulty, hlast⟩

structure Holds (L : Layouts) (s s' : ParserState TokenArray) : Prop where
  left : s.supply.tokens = L.tokens.toArray
  right : s'.supply.tokens = L.tokens'.toArray
  faults : L.faulty → ∃ e e', s.supply.beyond = .error e ∧ s'.supply.beyond = .error e'

/-- Two readers that stand at the same index, where there is something to read. -/
structure Ready (L : Layouts) (i : Nat) (s s' : ParserState TokenArray) : Prop
    extends L.Holds s s' where
  cursor_eq : s.supply.cursor = i
  cursor_eq' : s'.supply.cursor = i
  inside : L.Inside i

namespace Ready

variable {s s' : ParserState TokenArray}

theorem journals (hs : L.Ready i s s') (journal journal' : Journal) :
    L.Ready i ⟨s.supply, journal⟩ ⟨s'.supply, journal'⟩ :=
  { left := hs.left, right := hs.right, faults := hs.faults, cursor_eq := hs.cursor_eq,
    cursor_eq' := hs.cursor_eq', inside := hs.inside }

theorem peek (hs : L.Ready i s s') {token token' : Token} (h : L.Facing i token token') :
    s.supply.peek = .ok token ∧ s'.supply.peek = .ok token' := by
  constructor
  · simp [TokenArray.peek, hs.left, hs.cursor_eq, h.left]
  · simp [TokenArray.peek, hs.right, hs.cursor_eq', h.right]

theorem next (hs : L.Ready i s s') {token token' : Token} (h : L.Facing i token token') :
    ∃ t t', Parser.next s = .ok token t ∧ Parser.next s' = .ok token' t' ∧ L.Holds t t' ∧
      (L.Inside (i + 1) → L.Ready (i + 1) t t') := by
  obtain ⟨hpeek, hpeek'⟩ := hs.peek h
  simp only [Parser.next, take, TokenSupply.next, TokenArray.next, hpeek, hpeek']
  refine ⟨_, _, rfl, rfl, ⟨hs.left, hs.right, hs.faults⟩, fun hinside => ?_⟩
  exact { left := hs.left, right := hs.right, faults := hs.faults,
          cursor_eq := congrArg (· + 1) hs.cursor_eq,
          cursor_eq' := congrArg (· + 1) hs.cursor_eq', inside := hinside }

theorem answers (hs : L.Ready i s s') : (∃ token token', L.Facing i token token') ∨
    L.faulty ∧ ∃ e e', s.supply.peek = .error e ∧ s'.supply.peek = .error e' := by
  rcases hs.inside with hi | ⟨hfaulty, hi⟩
  · exact .inl (L.exists_facing hi)
  · obtain ⟨e, e', hbeyond, hbeyond'⟩ := hs.faults hfaulty
    refine .inr ⟨hfaulty, e, e', ?_, ?_⟩
    · simp [TokenArray.peek, hs.left, hs.cursor_eq, hi, hbeyond]
    · simp [TokenArray.peek, hs.right, hs.cursor_eq', hi, L.length_eq, hbeyond']

end Ready

/-- Two parsers ended in the same way. Where both match, both stand at the same
index; where both have stopped, the failures are related. -/
inductive Aligned (L : Layouts) (Stop : Failure → Failure → Prop) {α : Type}
    (Q : α → α → Nat → Prop) :
    EStateM.Result Failure (ParserState TokenArray) α →
      EStateM.Result Failure (ParserState TokenArray) α → Prop where
  | matched {a a' : α} {j : Nat} {t t' : ParserState TokenArray} (value : Q a a' j)
      (ready : L.Ready j t t') : Aligned L Stop Q (.ok a t) (.ok a' t')
  | mismatched (token token' : Token) {t t' : ParserState TokenArray} (holds : L.Holds t t') :
      Aligned L Stop Q (.error (.mismatch token) t) (.error (.mismatch token') t')
  | stopped {failure failure' : Failure} (t t' : ParserState TokenArray)
      (hfailure : ∀ token, failure ≠ .mismatch token)
      (hfailure' : ∀ token, failure' ≠ .mismatch token) (stop : Stop failure failure') :
      Aligned L Stop Q (.error failure t) (.error failure' t')
  | faulted (faulty : L.faulty) (e e' : LexError) (t t' : ParserState TokenArray) :
      Aligned L Stop Q (.error (.fatal (.lexical e)) t) (.error (.fatal (.lexical e')) t')

def Align (L : Layouts) (Stop : Failure → Failure → Prop) (i : Nat) {α : Type}
    (p p' : Parser TokenArray α) (Q : α → α → Nat → Prop) : Prop :=
  ∀ s s', L.Ready i s s' → Aligned L Stop Q (p s) (p' s')

namespace Align

variable {Stop : Failure → Failure → Prop} {α β : Type} {p p' : Parser TokenArray α}
  {Q Q' : α → α → Nat → Prop} {R : β → β → Nat → Prop}

theorem mono (h : L.Align Stop i p p' Q) (hQ : ∀ a a' j, Q a a' j → Q' a a' j) :
    L.Align Stop i p p' Q' := by
  intro s s' hs
  have haligned := h s s' hs
  generalize p s = result at haligned ⊢
  generalize p' s' = result' at haligned ⊢
  cases haligned with
  | matched value ready => exact .matched (hQ _ _ _ value) ready
  | mismatched token token' holds => exact .mismatched token token' holds
  | stopped t t' hfailure hfailure' stop => exact .stopped t t' hfailure hfailure' stop
  | faulted faulty e e' t t' => exact .faulted faulty e e' t t'

theorem of_length_lt (h : L.tokens.length < i) : L.Align Stop i p p' Q := by
  intro s s' hs
  rcases hs.inside with hi | ⟨-, hi⟩
  · omega
  · omega

theorem pure {a a' : α} (h : Q a a' i) : L.Align Stop i (Pure.pure a) (Pure.pure a') Q :=
  fun _ _ hs => .matched h hs

theorem throw_mismatch (token token' : Token) :
    L.Align Stop i (throw (.mismatch token)) (throw (.mismatch token')) Q :=
  fun _ _ hs => .mismatched token token' hs.toHolds

theorem throw_fatal {e e' : ParseError} (h : Stop (.fatal e) (.fatal e')) :
    L.Align Stop i (throw (.fatal e)) (throw (.fatal e')) Q :=
  fun s s' _ => .stopped s s' (by simp) (by simp) h

theorem record_bind {e e' : Event} {g g' : Unit → Parser TokenArray β}
    (hg : L.Align Stop i (g ()) (g' ()) R) :
    L.Align Stop i (Parser.record e >>= g) (Parser.record e' >>= g') R :=
  fun _ _ hs => hg _ _ (hs.journals _ _)

theorem bind {f f' : α → Parser TokenArray β} (hp : L.Align Stop i p p' Q)
    (hf : ∀ a a' j, Q a a' j → L.Align Stop j (f a) (f' a') R) :
    L.Align Stop i (p >>= f) (p' >>= f') R := by
  intro s s' hs
  have haligned := hp s s' hs
  change Aligned L Stop R (EStateM.bind p f s) (EStateM.bind p' f' s')
  unfold EStateM.bind
  generalize p s = result at haligned ⊢
  generalize p' s' = result' at haligned ⊢
  cases haligned with
  | matched value ready => exact hf _ _ _ value _ _ ready
  | mismatched token token' holds => exact .mismatched token token' holds
  | stopped t t' hfailure hfailure' stop => exact .stopped t t' hfailure hfailure' stop
  | faulted faulty e e' t t' => exact .faulted faulty e e' t t'

/-- Winding back brings both readers to the same index again. -/
theorem orElse {g g' : Token → Parser TokenArray α} (hp : L.Align Stop i p p' Q)
    (hg : ∀ token token', L.Align Stop i (g token) (g' token') Q) :
    L.Align Stop i (Parser.orElse p g) (Parser.orElse p' g') Q := by
  intro s s' hs
  have haligned := hp s s' hs
  unfold Parser.orElse
  generalize p s = result at haligned ⊢
  generalize p' s' = result' at haligned ⊢
  cases haligned with
  | matched value ready => exact .matched value ready
  | @mismatched token token' t t' holds =>
      have hback : L.Ready i (back s t) (back s' t') :=
        { left := holds.left, right := holds.right, faults := holds.faults,
          cursor_eq := hs.cursor_eq, cursor_eq' := hs.cursor_eq', inside := hs.inside }
      exact hg token token' _ _ hback
  | @stopped failure failure' t t' hfailure hfailure' stop =>
      cases failure with
      | mismatch token => exact absurd rfl (hfailure token)
      | _ =>
          cases failure' with
          | mismatch token => exact absurd rfl (hfailure' token)
          | _ => exact .stopped t t' hfailure hfailure' stop
  | faulted faulty e e' t t' => exact .faulted faulty e e' t t'

theorem firstOf {qs qs' : List (Parser TokenArray α)} (hp : L.Align Stop i p p' Q)
    (hqs : List.Forall₂ (fun q q' => L.Align Stop i q q' Q) qs qs') :
    L.Align Stop i (Parser.firstOf p qs) (Parser.firstOf p' qs') Q := by
  induction hqs generalizing p p' with
  | nil => exact orElse hp throw_mismatch
  | cons hq _ ih => exact orElse hp fun _ _ => ih hq

theorem optional_bind {g g' : Option α → Parser TokenArray β} (hp : L.Align Stop i p p' Q)
    (hsome : ∀ a a' j, Q a a' j → L.Align Stop j (g (some a)) (g' (some a')) R)
    (hnone : L.Align Stop i (g none) (g' none) R) :
    L.Align Stop i (Parser.optional p >>= g) (Parser.optional p' >>= g') R := by
  refine bind (Q := fun found found' j => L.Align Stop j (g found) (g' found') R)
    (orElse (bind hp fun a a' j ha => ?_) fun _ _ => ?_) fun _ _ _ h => h
  · exact pure (hsome a a' j ha)
  · exact pure hnone

/-- Both repetitions end at the same index. Each item takes a token, so neither
budget runs out before the tokens do. -/
theorem many {R : α → α → Prop} {budget budget' : Nat}
    (hp : ∀ j ≥ i, L.Align Stop j p p' fun a a' k => j < k ∧ R a a')
    (hbudget : L.tokens.length < i + budget) (hbudget' : L.tokens.length < i + budget') :
    L.Align Stop i (Parser.many p budget) (Parser.many p' budget')
      fun as as' j => i ≤ j ∧ List.Forall₂ R as as' := by
  induction budget generalizing i budget' with
  | zero => exact .of_length_lt (by omega)
  | succ budget ih =>
      cases budget' with
      | zero => exact .of_length_lt (by omega)
      | succ budget' =>
          refine optional_bind (hp i (Nat.le_refl i)) ?_ (pure ⟨Nat.le_refl i, .nil⟩)
          rintro a a' j ⟨hj, ha⟩
          refine bind (ih (fun k hk => hp k (by omega)) (by omega) (by omega)) ?_
          rintro as as' k ⟨hk, has⟩
          exact pure ⟨by omega, .cons ha has⟩

theorem accept {f : Token → Option α} {T : α → α → Prop} (hp : Accepts p f)
    (hf : ∀ token token', L.Facing i token token' → Option.Rel T (f token) (f token')) :
    L.Align Stop i p p fun a a' j => j = i + 1 ∧ T a a' := by
  rw [hp.eq_accept]
  intro s s' hs
  change Aligned L Stop _ (EStateM.bind next _ s) (EStateM.bind next _ s')
  rcases hs.answers with ⟨token, token', hfacing⟩ | ⟨hfaulty, e, e', hpeek, hpeek'⟩
  case inr =>
    simp only [EStateM.bind, Parser.next, take, TokenSupply.next, TokenArray.next, hpeek, hpeek']
    exact .faulted hfaulty e e' _ _
  obtain ⟨t, t', hnext, hnext', hholds, hready⟩ := hs.next hfacing
  have hrel := hf token token' hfacing
  simp only [EStateM.bind, hnext, hnext']
  generalize htoken : f token = found at hrel ⊢
  generalize f token' = found' at hrel ⊢
  cases hrel with
  | none => exact .mismatched token token' hholds
  | some ha =>
      have hkind : token.kind ≠ .endOfStream := by
        intro hend
        rw [hp.not_end token hend] at htoken
        cases htoken
      exact .matched ⟨rfl, ha⟩ (hready (inside_succ hfacing.left hkind))

theorem read {f : Token → Option α} {g g' : α → Parser TokenArray β} {T : α → α → Prop}
    (hp : Accepts p f)
    (hf : ∀ token token', L.Facing i token token' → Option.Rel T (f token) (f token'))
    (hg : ∀ a a', T a a' → L.Align Stop (i + 1) (g a) (g' a') R) :
    L.Align Stop i (p >>= g) (p >>= g') R := by
  refine bind (accept hp hf) ?_
  rintro a a' j ⟨rfl, ha⟩
  exact hg a a' ha

theorem peek :
    L.Align Stop i Parser.peek Parser.peek fun token token' j =>
      j = i ∧ L.Facing i token token' := by
  intro s s' hs
  rcases hs.answers with ⟨token, token', hfacing⟩ | ⟨hfaulty, e, e', hpeek, hpeek'⟩
  · obtain ⟨hpeek, hpeek'⟩ := hs.peek hfacing
    simp only [Parser.peek, take, TokenSupply.peek, hpeek, hpeek']
    exact .matched ⟨rfl, hfacing⟩ (hs.journals _ _)
  · simp only [Parser.peek, take, TokenSupply.peek, hpeek, hpeek']
    exact .faulted hfaulty e e' _ _

theorem here_bind {g g' : Location → Parser TokenArray β}
    (hg : ∀ location location', L.Align Stop i (g location) (g' location') R) :
    L.Align Stop i (here >>= g) (here >>= g') R := by
  refine bind (Q := fun _ _ j => j = i) (bind peek ?_) ?_
  · rintro token token' j ⟨rfl, -⟩
    exact pure rfl
  · rintro location location' j rfl
    exact hg location location'

theorem expect {kind : TokenKind} (hkind : kind.payload = none) (hend : kind ≠ .endOfStream) :
    L.Align Stop i (Parser.expect kind) (Parser.expect kind) fun _ _ j => j = i + 1 := by
  refine (accept (T := fun _ _ => True) (accepts_expect hkind hend) ?_).mono fun _ _ _ => And.left
  intro token token' hfacing
  rw [ofKind?, ofKind?, ← kind_eq hfacing]
  split
  · exact .some trivial
  · exact .none

theorem expect_bind {kind : TokenKind} (hkind : kind.payload = none) (hend : kind ≠ .endOfStream)
    {g g' : Token → Parser TokenArray β}
    (hg : ∀ token token', L.Align Stop (i + 1) (g token) (g' token') R) :
    L.Align Stop i (Parser.expect kind >>= g) (Parser.expect kind >>= g') R := by
  refine bind (expect hkind hend) ?_
  rintro token token' j rfl
  exact hg token token'

theorem identifier_bind {g g' : String × Location → Parser TokenArray β}
    (hg : ∀ name location location',
      L.Align Stop (i + 1) (g (name, location)) (g' (name, location')) R) :
    L.Align Stop i (identifier >>= g) (identifier >>= g') R := by
  refine read (T := fun a a' => a.1 = a'.1) accepts_identifier ?_ ?_
  · intro token token' hfacing
    rw [name?, name?, ← kind_eq hfacing]
    split
    · exact .some rfl
    · exact .none
  · rintro ⟨name, location⟩ ⟨_, location'⟩ rfl
    exact hg name location location'

theorem stringToken_bind {g g' : String × Location → Parser TokenArray β}
    (hg : ∀ text location location', (∃ token ∈ L.tokens, token.kind = .string text) →
      L.Align Stop (i + 1) (g (text, location)) (g' (text, location')) R) :
    L.Align Stop i (stringToken >>= g) (stringToken >>= g') R := by
  refine read (T := fun a a' => a.1 = a'.1 ∧ ∃ token ∈ L.tokens, token.kind = .string a.1)
    accepts_stringToken ?_ ?_
  · intro token token' hfacing
    rw [contents?, contents?, ← kind_eq hfacing]
    split
    · rename_i hkind
      exact .some ⟨rfl, token, List.mem_of_getElem? hfacing.left, hkind⟩
    · exact .none
  · rintro ⟨text, location⟩ ⟨_, location'⟩ ⟨rfl, htext⟩
    exact hg text location location' htext

theorem expectIdentifier_bind {name : String} {g g' : Location → Parser TokenArray β}
    (hg : ∀ location location', L.SamePlace location location' →
      L.Align Stop (i + 1) (g location) (g' location') R) :
    L.Align Stop i (expectIdentifier name >>= g) (expectIdentifier name >>= g') R := by
  refine read (accepts_expectIdentifier name) ?_ hg
  intro token token' hfacing
  rw [placeOf?, placeOf?, ← kind_eq hfacing]
  split
  · exact .some (.facing hfacing)
  · exact .none

end Align

section Rules

open BuildScript.Grammar BuildScript.Node

variable {Stop : Failure → Failure → Prop} {budget budget' : Nat}

/-- The two trees are the same but for locations, and something was read. -/
abbrev SameTree (i : Nat) (node node' : Node) (j : Nat) : Prop := i < j ∧ node.Matches node'

theorem align_binder (i : Nat) : L.Align Stop i binder binder (SameTree i) :=
  .identifier_bind fun _ _ _ => .pure ⟨Nat.lt_succ_self i, rfl, rfl, trivial⟩

theorem align_stringLiteral (i : Nat) : L.Align Stop i stringLiteral stringLiteral (SameTree i) :=
  .stringToken_bind fun _ _ _ _ => .pure ⟨Nat.lt_succ_self i, rfl, rfl, trivial⟩

theorem align_attributes {owner owner' : Node} (howner : owner.Matches owner')
    (hbudget : L.tokens.length < i + budget) (hbudget' : L.tokens.length < i + budget') :
    L.Align Stop i (attributes owner budget) (attributes owner' budget')
      fun node node' j => i ≤ j ∧ node.Matches node' := by
  -- Neither budget is the other, so the induction is on one and splits the other along.
  induction budget generalizing i owner owner' budget' with
  | zero => exact .of_length_lt (by omega)
  | succ budget ih =>
      cases budget' with
      | zero => exact .of_length_lt (by omega)
      | succ budget' =>
          refine .optional_bind (.expect rfl (by decide)) ?_ (.pure ⟨Nat.le_refl i, howner⟩)
          rintro _ _ j rfl
          refine .identifier_bind fun name location location' => ?_
          have howner' : Node.Matches ⟨.object, location, some name, [owner]⟩
              ⟨.object, location', some name, [owner']⟩ := ⟨rfl, rfl, howner, trivial⟩
          exact (ih howner' (by omega) (by omega)).mono fun _ _ j h => ⟨by omega, h.2⟩

theorem align_object (hbudget : L.tokens.length < i + budget)
    (hbudget' : L.tokens.length < i + budget') :
    L.Align Stop i (object budget) (object budget') (SameTree i) := by
  refine .identifier_bind fun name location location' => ?_
  have hname : Node.Matches ⟨.object, location, some name, []⟩
      ⟨.object, location', some name, []⟩ := ⟨rfl, rfl, trivial⟩
  exact (align_attributes hname (by omega) (by omega)).mono fun _ _ j h => ⟨by omega, h.2⟩

theorem align_parenthesized (hbudget : L.tokens.length < i + budget)
    (hbudget' : L.tokens.length < i + budget') :
    L.Align Stop i (parenthesized budget) (parenthesized budget') (SameTree i) := by
  refine .expect_bind rfl (by decide) fun _ _ => ?_
  refine .bind (align_object (by omega) (by omega)) ?_
  rintro node node' j ⟨hj, hnode⟩
  exact .expect_bind rfl (by decide) fun _ _ => .pure ⟨by omega, hnode⟩

variable {splice splice' : String → Location → Parser TokenArray Node}
  {value value' : Parser TokenArray Node}

/-- Two ways to splice trees in that give the same trees and read nothing, for
the strings that are read and at places that are the same. -/
def SplicesAlike (L : Layouts) (Stop : Failure → Failure → Prop)
    (splice splice' : String → Location → Parser TokenArray Node) : Prop :=
  ∀ specifier location location' i, (∃ token ∈ L.tokens, token.kind = .string specifier) →
    L.SamePlace location location' →
    L.Align Stop i (splice specifier location) (splice' specifier location')
      fun node node' j => j = i ∧ node.Matches node'

theorem align_inclusion (hsplice : L.SplicesAlike Stop splice splice') (i : Nat) :
    L.Align Stop i (inclusion splice) (inclusion splice') (SameTree i) := by
  refine .expectIdentifier_bind fun location location' hplace => ?_
  refine .expect_bind rfl (by decide) fun _ _ => ?_
  refine .stringToken_bind fun specifier _ _ hspecifier => ?_
  refine .expect_bind rfl (by decide) fun _ _ => ?_
  refine (hsplice specifier location location' _ hspecifier hplace).mono ?_
  rintro node node' j ⟨rfl, hnode⟩
  exact ⟨by omega, hnode⟩

theorem align_list (hvalue : ∀ j > i, L.Align Stop j value value' (SameTree j))
    (hbudget : L.tokens.length < i + budget) (hbudget' : L.tokens.length < i + budget') :
    L.Align Stop i (list value budget) (list value' budget') (SameTree i) := by
  refine .here_bind fun _ _ => .expect_bind rfl (by decide) fun _ _ => ?_
  refine .bind (.many (fun j hj => hvalue j hj) (by omega) (by omega)) ?_
  rintro entries entries' j ⟨hj, hentries⟩
  refine .expect_bind rfl (by decide) fun _ _ => .pure ⟨by omega, rfl, rfl, ?_⟩
  exact matchesAll_iff.mpr hentries

theorem align_listFor (hvalue : ∀ j > i, L.Align Stop j value value' (SameTree j)) :
    L.Align Stop i (listFor value) (listFor value') (SameTree i) := by
  refine .here_bind fun _ _ => .expect_bind rfl (by decide) fun _ _ => ?_
  refine .bind (hvalue _ (by omega)) ?_
  rintro body body' j ⟨hj, hbody⟩
  refine .expect_bind rfl (by decide) fun _ _ => .bind (align_binder _) ?_
  rintro element element' k ⟨hk, helement⟩
  refine .expect_bind rfl (by decide) fun _ _ => .bind (hvalue _ (by omega)) ?_
  rintro source source' m ⟨hm, hsource⟩
  refine .expect_bind rfl (by decide) fun _ _ => .pure ⟨by omega, rfl, rfl, ?_⟩
  exact ⟨hbody, helement, hsource, trivial⟩

theorem align_argument (hvalue : ∀ j ≥ i, L.Align Stop j value value' (SameTree j)) :
    L.Align Stop i (argument value) (argument value') (SameTree i) := by
  refine .firstOf ?_ (.cons (hvalue i (Nat.le_refl i)) .nil)
  refine .identifier_bind fun name _ _ => .expect_bind rfl (by decide) fun _ _ => ?_
  refine .bind (hvalue _ (by omega)) ?_
  rintro node node' j ⟨hj, hnode⟩
  exact .pure ⟨by omega, rfl, rfl, hnode, trivial⟩

theorem align_call (hvalue : ∀ j > i, L.Align Stop j value value' (SameTree j))
    (hbudget : L.tokens.length < i + budget) (hbudget' : L.tokens.length < i + budget') :
    L.Align Stop i (call value budget) (call value' budget') (SameTree i) := by
  refine .here_bind fun _ _ => .bind (align_object hbudget hbudget') ?_
  rintro callee callee' j ⟨hj, hcallee⟩
  refine .expect_bind rfl (by decide) fun _ _ => ?_
  have hargument (k : Nat) (hk : k ≥ j + 1) :
      L.Align Stop k (argument value) (argument value') (SameTree k) :=
    align_argument fun m hm => hvalue m (by omega)
  refine .bind (.many hargument (by omega) (by omega)) ?_
  rintro arguments arguments' k ⟨hk, harguments⟩
  refine .expect_bind rfl (by decide) fun _ _ => .pure ⟨by omega, rfl, rfl, hcallee, ?_⟩
  exact matchesAll_iff.mpr harguments

/-- Values are read with one less of each budget inside, and from a later index
on. -/
theorem align_value (hsplice : L.SplicesAlike Stop splice splice')
    (hbudget : L.tokens.length < i + budget) (hbudget' : L.tokens.length < i + budget') :
    L.Align Stop i (Grammar.value splice budget) (Grammar.value splice' budget') (SameTree i) := by
  induction budget generalizing i budget' with
  | zero => exact .of_length_lt (by omega)
  | succ budget ih =>
      cases budget' with
      | zero => exact .of_length_lt (by omega)
      | succ budget' =>
          have hinner (j : Nat) (hj : j > i) : L.Align Stop j (Grammar.value splice budget)
              (Grammar.value splice' budget') (SameTree j) := ih (by omega) (by omega)
          refine .firstOf (align_inclusion hsplice i) ?_
          exact .cons (align_call hinner hbudget hbudget') (.cons (align_object hbudget hbudget')
            (.cons (align_parenthesized hbudget hbudget')
            (.cons (align_list hinner hbudget hbudget') (.cons (align_listFor hinner)
            (.cons (align_stringLiteral i) .nil)))))

theorem align_statement (hvalue : ∀ j ≥ i, L.Align Stop j value value' (SameTree j))
    (hbudget : L.tokens.length < i + budget) (hbudget' : L.tokens.length < i + budget') :
    L.Align Stop i (statement value budget) (statement value' budget') (SameTree i) := by
  have hcall := align_call (fun j hj => hvalue j (Nat.le_of_lt hj)) hbudget hbudget'
  refine .firstOf ?_ (.cons hcall .nil)
  refine .here_bind fun _ _ => .bind (align_binder i) ?_
  rintro target target' j ⟨hj, htarget⟩
  refine .expect_bind rfl (by decide) fun _ _ => .bind (hvalue _ (by omega)) ?_
  rintro node node' k ⟨hk, hnode⟩
  exact .pure ⟨by omega, rfl, rfl, htarget, hnode, trivial⟩

/-- Two programs are the same trees, or something is left over in both, at the
same index. -/
theorem align_program (hvalue : ∀ j, L.Align Stop j value value' (SameTree j))
    (hbudget : L.tokens.length < budget) (hbudget' : L.tokens.length < budget')
    (hleftover : ∀ location location', L.SamePlace location location' →
      Stop (.fatal (.leftover location)) (.fatal (.leftover location'))) :
    L.Align Stop 0 (program value budget) (program value' budget')
      fun node node' _ => node.Matches node' := by
  refine .here_bind fun _ _ => ?_
  have hstatement (j : Nat) (_ : j ≥ 0) :
      L.Align Stop j (statement value budget) (statement value' budget') (SameTree j) :=
    align_statement (fun k _ => hvalue k) (by omega) (by omega)
  refine .bind (.many hstatement (by omega) (by omega)) ?_
  rintro statements statements' j ⟨-, hstatements⟩
  refine .bind .peek ?_
  rintro token token' _ ⟨rfl, hfacing⟩
  rw [Token.isEnd, Token.isEnd, ← kind_eq hfacing]
  split
  · exact .pure ⟨rfl, rfl, matchesAll_iff.mpr hstatements⟩
  · exact .throw_fatal (hleftover _ _ (.facing hfacing))

end Rules

end Layouts

end BuildScript
