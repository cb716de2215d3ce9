import Mathlib.Data.List.Forall2
import BuildScript.Proofs.ParserTriple
import BuildScript.Parsing.Program

namespace BuildScript.Parser

/-- How two readers of tokens stand to each other while a grammar is
followed. -/
structure Coupling (σ σ' : Type) where
  /-- Both may read on. -/
  Ready : ParserState σ → ParserState σ' → Prop
  /-- Both have gone on from a pair of states to another one. -/
  Since : ParserState σ → ParserState σ' → ParserState σ → ParserState σ' → Prop
  /-- Both have stopped. -/
  Stop : Failure → ParserState σ → ParserState σ' → Prop
  /-- A token that was read. -/
  Seen : Token → Prop
  /-- The first reader may run out of its budget where the second goes on. -/
  Lenient : Prop

variable {σ σ' α β : Type} {C : Coupling σ σ'} {Q : α → Prop} {R : β → Prop}

/-- Two parsers that began in the states `s` and `s'` ended in the same way. -/
inductive Agreed (C : Coupling σ σ') (Q : α → Prop) (s : ParserState σ) (s' : ParserState σ') :
    EStateM.Result Failure (ParserState σ) α → EStateM.Result Failure (ParserState σ') α →
      Prop where
  | matched {a : α} {t : ParserState σ} {t' : ParserState σ'} (value : Q a) (ready : C.Ready t t')
      (since : C.Since s s' t t') : Agreed C Q s s' (.ok a t) (.ok a t')
  | mismatched (token : Token) {t : ParserState σ} {t' : ParserState σ'}
      (since : C.Since s s' t t') :
      Agreed C Q s s' (.error (.mismatch token) t) (.error (.mismatch token) t')
  | stopped {failure : Failure} {t : ParserState σ} {t' : ParserState σ'}
      (hfailure : ∀ token, failure ≠ .mismatch token) (stop : C.Stop failure t t') :
      Agreed C Q s s' (.error failure t) (.error failure t')
  | spent (lenient : C.Lenient) (t : ParserState σ)
      (result : EStateM.Result Failure (ParserState σ') α) :
      Agreed C Q s s' (.error .exhausted t) result

def Agree (C : Coupling σ σ') (Q : α → Prop) (p : Parser σ α) (p' : Parser σ' α) : Prop :=
  ∀ s s', C.Ready s s' → Agreed C Q s s' (p s) (p' s')

/-- How a token is read in lockstep. After the end of the stream nothing more
may be read. -/
inductive ReadAlike (C : Coupling σ σ') (s : ParserState σ) (s' : ParserState σ') :
    EStateM.Result Failure (ParserState σ) Token →
      EStateM.Result Failure (ParserState σ') Token → Prop where
  | token {token : Token} {t : ParserState σ} {t' : ParserState σ'} (seen : C.Seen token)
      (since : C.Since s s' t t') (ready : token.kind ≠ .endOfStream → C.Ready t t') :
      ReadAlike C s s' (.ok token t) (.ok token t')
  | fault {e : ParseError} {t : ParserState σ} {t' : ParserState σ'}
      (stop : C.Stop (.fatal e) t t') :
      ReadAlike C s s' (.error (.fatal e) t) (.error (.fatal e) t')

/-- Looking at a token is reading it alike, where readers that have gone on may
read on. -/
theorem ReadAlike.agreed {s : ParserState σ} {s' : ParserState σ'}
    {result : EStateM.Result Failure (ParserState σ) Token}
    {result' : EStateM.Result Failure (ParserState σ') Token} (h : ReadAlike C s s' result result')
    (hready : ∀ t t', C.Since s s' t t' → C.Ready t t') : Agreed C C.Seen s s' result result' := by
  cases h with
  | token seen since => exact .matched seen (hready _ _ since) since
  | fault stop => exact .stopped (by simp) stop

/-- A state wound back to where another one was. -/
def back [TokenSupply σ] (s t : ParserState σ) : ParserState σ :=
  ⟨TokenSupply.rewind t.supply (TokenSupply.mark s.supply), t.journal⟩

variable [TokenSupply σ] [TokenSupply σ']

/-- A coupling that is kept by all that a grammar does. -/
structure Coupling.Lawful (C : Coupling σ σ') : Prop where
  refl : ∀ {s s'}, C.Ready s s' → C.Since s s' s s'
  trans : ∀ {s s' t t' u u'}, C.Since s s' t t' → C.Since t t' u u' → C.Since s s' u u'
  wind : ∀ {s s' t t'}, C.Ready s s' → C.Since s s' t t' →
    C.Ready (back s t) (back s' t') ∧ C.Since s s' (back s t) (back s' t')
  peek : ∀ {s s'}, C.Ready s s' → Agreed C C.Seen s s' (peek s) (peek s')
  next : ∀ {s s'}, C.Ready s s' → ReadAlike C s s' (next s) (next s')
  exhausted : ∀ {s s'}, C.Ready s s' → C.Stop .exhausted s s'
  leftover : ∀ {s s' token}, C.Ready s s' → C.Seen token →
    C.Stop (.fatal (.leftover token.location)) s s'

theorem Agreed.since_trans (hC : C.Lawful) {s t : ParserState σ} {s' t' : ParserState σ'}
    {result : EStateM.Result Failure (ParserState σ) α}
    {result' : EStateM.Result Failure (ParserState σ') α} (hsince : C.Since s s' t t')
    (h : Agreed C Q t t' result result') : Agreed C Q s s' result result' := by
  cases h with
  | matched value ready since => exact .matched value ready (hC.trans hsince since)
  | mismatched token since => exact .mismatched token (hC.trans hsince since)
  | stopped hfailure stop => exact .stopped hfailure stop
  | spent lenient t => exact .spent lenient t _

namespace Agree

variable {p : Parser σ α} {p' : Parser σ' α}

theorem pure (hC : C.Lawful) {a : α} (ha : Q a) :
    Agree C Q (Pure.pure a : Parser σ α) (Pure.pure a) :=
  fun _ _ hs => .matched ha hs (hC.refl hs)

theorem throw_mismatch (hC : C.Lawful) (token : Token) :
    Agree C Q (throw (.mismatch token) : Parser σ α) (throw (.mismatch token)) :=
  fun _ _ hs => .mismatched token (hC.refl hs)

theorem throw_exhausted (hC : C.Lawful) :
    Agree C Q (throw .exhausted : Parser σ α) (throw .exhausted) :=
  fun _ _ hs => .stopped (by simp) (hC.exhausted hs)

theorem bind (hC : C.Lawful) {f : α → Parser σ β} {f' : α → Parser σ' β} (hp : Agree C Q p p')
    (hf : ∀ a, Q a → Agree C R (f a) (f' a)) : Agree C R (p >>= f) (p' >>= f') := by
  intro s s' hs
  have hagreed := hp s s' hs
  show Agreed C R s s' (EStateM.bind p f s) (EStateM.bind p' f' s')
  unfold EStateM.bind
  generalize p s = result at hagreed ⊢
  generalize p' s' = result' at hagreed ⊢
  cases hagreed with
  | matched value ready since => exact (hf _ value _ _ ready).since_trans hC since
  | mismatched token since => exact .mismatched token since
  | stopped hfailure stop => exact .stopped hfailure stop
  | spent lenient t result => exact .spent lenient t _

theorem orElse (hC : C.Lawful) {g : Token → Parser σ α} {g' : Token → Parser σ' α}
    (hp : Agree C Q p p') (hg : ∀ token, Agree C Q (g token) (g' token)) :
    Agree C Q (Parser.orElse p g) (Parser.orElse p' g') := by
  intro s s' hs
  have hagreed := hp s s' hs
  unfold Parser.orElse
  generalize p s = result at hagreed ⊢
  generalize p' s' = result' at hagreed ⊢
  cases hagreed with
  | matched value ready since => exact .matched value ready since
  | mismatched token since =>
      obtain ⟨hready, hsince⟩ := hC.wind hs since
      exact (hg token _ _ hready).since_trans hC hsince
  | @stopped failure t t' hfailure stop =>
      cases failure with
      | mismatch token => exact absurd rfl (hfailure token)
      | fatal e => exact .stopped hfailure stop
      | exhausted => exact .stopped hfailure stop
  | spent lenient t result => exact .spent lenient t _

theorem firstOf (hC : C.Lawful) {qs : List (Parser σ α)} {qs' : List (Parser σ' α)}
    (hp : Agree C Q p p') (hqs : List.Forall₂ (Agree C Q) qs qs') :
    Agree C Q (Parser.firstOf p qs) (Parser.firstOf p' qs') := by
  induction hqs generalizing p p' with
  | nil => exact orElse hC hp fun token => throw_mismatch hC token
  | cons hq _ ih => exact orElse hC hp fun _ => ih hq

theorem optional (hC : C.Lawful) (hp : Agree C Q p p') :
    Agree C (fun found => ∀ a, found = some a → Q a) (Parser.optional p)
      (Parser.optional p') := by
  refine orElse hC (bind hC hp fun a ha => pure hC ?_) fun _ => pure hC ?_
  · rintro b hb
    cases hb
    exact ha
  · simp

theorem many (hC : C.Lawful) (hp : Agree C Q p p') (budget : Nat) :
    Agree C (fun _ => True) (Parser.many p budget) (Parser.many p' budget) := by
  induction budget with
  | zero => exact throw_exhausted hC
  | succ budget ih =>
      refine bind hC (optional hC hp) fun found _ => ?_
      cases found with
      | none => exact pure hC trivial
      | some a => exact bind hC ih fun _ _ => pure hC trivial

theorem accept (hC : C.Lawful) {f : Token → Option α} (hp : Accepts p f) (hp' : Accepts p' f) :
    Agree C (fun a => ∃ token, C.Seen token ∧ f token = some a) p p' := by
  rw [hp.eq_accept, hp'.eq_accept]
  intro s s' hs
  have halike := hC.next hs
  show Agreed C _ s s' (EStateM.bind Parser.next _ s) (EStateM.bind Parser.next _ s')
  unfold EStateM.bind
  generalize Parser.next s = result at halike ⊢
  generalize Parser.next s' = result' at halike ⊢
  cases halike with
  | @token token t t' seen since ready =>
      cases hf : f token with
      | none =>
          simp only [hf]
          exact .mismatched token since
      | some a =>
          -- Only past the end of the stream may nothing be read.
          have hkind : token.kind ≠ .endOfStream := by
            intro hend
            simp [hp.not_end token hend] at hf
          simp only [hf]
          exact .matched ⟨token, seen, hf⟩ (ready hkind) since
  | fault stop => exact .stopped (by simp) stop

theorem here (hC : C.Lawful) :
    Agree C (fun _ => True) (Parser.here : Parser σ Location) Parser.here :=
  bind hC (fun _ _ hs => hC.peek hs) fun _ _ => pure hC trivial

end Agree

end BuildScript.Parser

namespace BuildScript.Grammar

open BuildScript.Parser

variable {σ σ' : Type} [TokenSupply σ] [TokenSupply σ'] {C : Coupling σ σ'}

abbrev InStep (C : Coupling σ σ') {α : Type} (p : Parser σ α) (p' : Parser σ' α) : Prop :=
  Agree C (fun _ => True) p p'

omit [TokenSupply σ] [TokenSupply σ'] in
theorem InStep.of_agree {α : Type} {Q : α → Prop} {p : Parser σ α} {p' : Parser σ' α}
    (h : Agree C Q p p') : InStep C p p' := by
  intro s s' hs
  have hagreed := h s s' hs
  generalize p s = result at hagreed ⊢
  generalize p' s' = result' at hagreed ⊢
  cases hagreed with
  | matched value ready since => exact .matched trivial ready since
  | mismatched token since => exact .mismatched token since
  | stopped hfailure stop => exact .stopped hfailure stop
  | spent lenient t => exact .spent lenient t _

section Rules

variable {α β : Type} {p : Parser σ α} {p' : Parser σ' α} {f : Token → Option α}
  {g : α → Parser σ β} {g' : α → Parser σ' β}

theorem inStep_read (hC : C.Lawful) (hp : Accepts p f) (hp' : Accepts p' f)
    (hg : ∀ a, InStep C (g a) (g' a)) : InStep C (p >>= g) (p' >>= g') :=
  .bind hC (.accept hC hp hp') fun a _ => hg a

theorem inStep_here (hC : C.Lawful) {g : Location → Parser σ β} {g' : Location → Parser σ' β}
    (hg : ∀ location, InStep C (g location) (g' location)) :
    InStep C (here >>= g) (here >>= g') :=
  .bind hC (.here hC) fun location _ => hg location

end Rules

theorem inStep_binder (hC : C.Lawful) : InStep C (binder : Parser σ Node) binder :=
  inStep_read hC accepts_identifier accepts_identifier fun _ => .pure hC trivial

theorem inStep_stringLiteral (hC : C.Lawful) :
    InStep C (stringLiteral : Parser σ Node) stringLiteral :=
  inStep_read hC accepts_stringToken accepts_stringToken fun _ => .pure hC trivial

theorem inStep_expect (hC : C.Lawful) {kind : TokenKind} (hkind : kind.payload = none)
    (hend : kind ≠ .endOfStream) {β : Type} {g : Token → Parser σ β} {g' : Token → Parser σ' β}
    (hg : ∀ token, InStep C (g token) (g' token)) :
    InStep C (expect kind >>= g) (expect kind >>= g') :=
  inStep_read hC (accepts_expect hkind hend) (accepts_expect hkind hend) hg

theorem inStep_attributes (hC : C.Lawful) (owner : Node) (budget : Nat) :
    InStep C (attributes owner budget : Parser σ Node) (attributes owner budget) := by
  induction budget generalizing owner with
  | zero => exact .throw_exhausted hC
  | succ budget ih =>
      have hdot : Accepts (expect .dot : Parser σ Token) (ofKind? .dot) :=
        accepts_expect rfl (by decide)
      have hdot' : Accepts (expect .dot : Parser σ' Token) (ofKind? .dot) :=
        accepts_expect rfl (by decide)
      refine .bind hC (.optional hC (.accept hC hdot hdot')) fun found _ => ?_
      cases found with
      | none => exact .pure hC trivial
      | some _ => exact inStep_read hC accepts_identifier accepts_identifier fun _ => ih _

theorem inStep_object (hC : C.Lawful) (budget : Nat) :
    InStep C (object budget : Parser σ Node) (object budget) :=
  inStep_read hC accepts_identifier accepts_identifier fun _ => inStep_attributes hC _ budget

theorem inStep_parenthesized (hC : C.Lawful) (budget : Nat) :
    InStep C (parenthesized budget : Parser σ Node) (parenthesized budget) := by
  refine inStep_expect hC rfl (by decide) fun _ => ?_
  refine .bind hC (inStep_object hC budget) fun _ _ => ?_
  exact inStep_expect hC rfl (by decide) fun _ => .pure hC trivial

variable {splice : String → Location → Parser σ Node} {splice' : String → Location → Parser σ' Node}
  {value : Parser σ Node} {value' : Parser σ' Node}

/-- Two ways to splice trees in that are in lockstep, at the places of tokens
that were read. -/
def SpliceInStep (C : Coupling σ σ') (splice : String → Location → Parser σ Node)
    (splice' : String → Location → Parser σ' Node) : Prop :=
  ∀ specifier token, C.Seen token →
    InStep C (splice specifier token.location) (splice' specifier token.location)

theorem inStep_inclusion (hC : C.Lawful) (hsplice : SpliceInStep C splice splice') :
    InStep C (inclusion splice) (inclusion splice') := by
  have himport := Agree.accept hC (accepts_expectIdentifier (σ := σ) "import")
    (accepts_expectIdentifier (σ := σ') "import")
  refine .bind hC himport fun location hlocation => ?_
  refine inStep_expect hC rfl (by decide) fun _ => ?_
  refine inStep_read hC accepts_stringToken accepts_stringToken fun found => ?_
  refine inStep_expect hC rfl (by decide) fun _ => ?_
  obtain ⟨token, hseen, hplace⟩ := hlocation
  obtain rfl : token.location = location := by
    rw [placeOf?_of_eq (kind_of_placeOf? hplace)] at hplace
    exact Option.some.inj hplace
  exact hsplice found.1 token hseen

theorem inStep_list (hC : C.Lawful) (hvalue : InStep C value value') (budget : Nat) :
    InStep C (list value budget) (list value' budget) := by
  refine inStep_here hC fun _ => inStep_expect hC rfl (by decide) fun _ => ?_
  refine .bind hC (.many hC hvalue budget) fun _ _ => ?_
  exact inStep_expect hC rfl (by decide) fun _ => .pure hC trivial

theorem inStep_listFor (hC : C.Lawful) (hvalue : InStep C value value') :
    InStep C (listFor value) (listFor value') := by
  refine inStep_here hC fun _ => inStep_expect hC rfl (by decide) fun _ => ?_
  refine .bind hC hvalue fun _ _ => inStep_expect hC rfl (by decide) fun _ => ?_
  refine .bind hC (inStep_binder hC) fun _ _ => inStep_expect hC rfl (by decide) fun _ => ?_
  refine .bind hC hvalue fun _ _ => inStep_expect hC rfl (by decide) fun _ => ?_
  exact .pure hC trivial

theorem inStep_keywordArgument (hC : C.Lawful) (hvalue : InStep C value value') :
    InStep C (keywordArgument value) (keywordArgument value') := by
  refine inStep_read hC accepts_identifier accepts_identifier fun _ => ?_
  refine inStep_expect hC rfl (by decide) fun _ => ?_
  exact .bind hC hvalue fun _ _ => .pure hC trivial

theorem inStep_argument (hC : C.Lawful) (hvalue : InStep C value value') :
    InStep C (argument value) (argument value') :=
  .firstOf hC (inStep_keywordArgument hC hvalue) (.cons hvalue .nil)

theorem inStep_call (hC : C.Lawful) (hvalue : InStep C value value') (budget : Nat) :
    InStep C (call value budget) (call value' budget) := by
  refine inStep_here hC fun _ => .bind hC (inStep_object hC budget) fun _ _ => ?_
  refine inStep_expect hC rfl (by decide) fun _ => ?_
  refine .bind hC (.many hC (inStep_argument hC hvalue) budget) fun _ _ => ?_
  exact inStep_expect hC rfl (by decide) fun _ => .pure hC trivial

theorem inStep_value (hC : C.Lawful) (hsplice : SpliceInStep C splice splice') (budget : Nat) :
    InStep C (Grammar.value splice budget) (Grammar.value splice' budget) := by
  induction budget with
  | zero => exact .throw_exhausted hC
  | succ budget ih =>
      refine .firstOf hC (inStep_inclusion hC hsplice) ?_
      exact .cons (inStep_call hC ih _) (.cons (inStep_object hC _)
        (.cons (inStep_parenthesized hC _) (.cons (inStep_list hC ih _)
          (.cons (inStep_listFor hC ih) (.cons (inStep_stringLiteral hC) .nil)))))

theorem inStep_assignment (hC : C.Lawful) (hvalue : InStep C value value') :
    InStep C (assignment value) (assignment value') := by
  refine inStep_here hC fun _ => .bind hC (inStep_binder hC) fun _ _ => ?_
  refine inStep_expect hC rfl (by decide) fun _ => ?_
  exact .bind hC hvalue fun _ _ => .pure hC trivial

theorem inStep_statement (hC : C.Lawful) (hvalue : InStep C value value') (budget : Nat) :
    InStep C (statement value budget) (statement value' budget) :=
  .firstOf hC (inStep_assignment hC hvalue) (.cons (inStep_call hC hvalue budget) .nil)

theorem inStep_program (hC : C.Lawful) (hvalue : InStep C value value') (budget : Nat) :
    InStep C (program value budget) (program value' budget) := by
  refine inStep_here hC fun _ => ?_
  refine .bind hC (.many hC (inStep_statement hC hvalue budget) budget) fun _ _ => ?_
  refine .bind hC (fun _ _ hs => hC.peek hs) fun token hseen => ?_
  by_cases hend : token.isEnd = true
  · rw [if_pos hend, if_pos hend]
    exact .pure hC trivial
  · rw [if_neg hend, if_neg hend]
    exact fun _ _ hs => .stopped (by simp) (hC.leftover hs hseen)

end BuildScript.Grammar
