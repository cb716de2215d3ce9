import BuildScript.Proofs.ImportFree
import BuildScript.Proofs.ImportTraces

/-!
What the rules of the grammar ask for along a preferred derivation. A rule that
does not match there has come to no import before it gives up, with one
exception: a comprehension is tried as a list first, which reads its body. So
what is asked for is the trace of the derivation.

A rule that comes to no import is not looked at again. It does the same where
reading stops at any import, and there it is known how it ends.
-/

namespace BuildScript.Parser

open BuildScript.Derivation BuildScript.Grammar

variable {α β : Type} {p p₀ : Parser (Rewindable Lexer) α} {f : α → Parser (Rewindable Lexer) β}
  {tape ts mid rest : List Token} {left : Option (List Token)} {names names' : List String}
  {s t : ParserState (Rewindable Lexer)}

/-- A reader has pulled tokens only and asked for just these names. -/
structure HasAsked (tape : List Token) (names : List String)
    (s t : ParserState (Rewindable Lexer)) : Prop where
  onTape : t.supply.OnTape tape none
  size_le : s.supply.buffer.size ≤ t.supply.buffer.size
  resolved : t.journal.resolved = s.journal.resolved ++ names

theorem HasAsked.trans {u : ParserState (Rewindable Lexer)} (h : HasAsked tape names s t)
    (h' : HasAsked tape names' t u) : HasAsked tape (names ++ names') s u where
  onTape := h'.onTape
  size_le := Nat.le_trans h.size_le h'.size_le
  resolved := by rw [h'.resolved, h.resolved, List.append_assoc]

theorem HasAsked.back (h : HasAsked tape names s t) (hs : Stands tape none ts s) :
    Stands tape none ts (back s t) := by
  obtain ⟨⟨-, hcursor, hdrop⟩, hend⟩ := hs
  exact ⟨⟨h.onTape, Nat.le_trans hcursor h.size_le, hdrop⟩, hend⟩

/-- How a parser that asks for the names ends: it matches with tokens left, or
it does not match and nothing is left of it. -/
inductive Asked (tape : List Token) (names : List String) (s : ParserState (Rewindable Lexer)) :
    Option (List Token) → EStateM.Result Failure (ParserState (Rewindable Lexer)) α → Prop where
  | matched {a : α} {rest : List Token} {t : ParserState (Rewindable Lexer)}
      (stands : Stands tape none rest t) (asked : HasAsked tape names s t) :
      Asked tape names s (some rest) (.ok a t)
  | mismatched {token : Token} {t : ParserState (Rewindable Lexer)}
      (asked : HasAsked tape names s t) : Asked tape names s none (.error (.mismatch token) t)

theorem Asked.since {result : EStateM.Result Failure (ParserState (Rewindable Lexer)) α}
    (h : HasAsked tape names s t) (h' : Asked tape names' t left result) :
    Asked tape (names ++ names') s left result := by
  cases h' with
  | matched stands asked => exact .matched stands (h.trans asked)
  | mismatched asked => exact .mismatched (h.trans asked)

def Asks (p : Parser (Rewindable Lexer) α) (ts : List Token) (left : Option (List Token))
    (names : List String) : Prop :=
  ∀ tape s, Stands tape none ts s → Asked tape names s left (p s)

/-- Two parsers that do the same up to where an import is asked for. There the
first one stops. -/
def SameUntilAsked (p₀ p : Parser (Rewindable Lexer) α) : Prop :=
  ∀ asked, InStep (unasked asked) p₀ p

namespace SameUntilAsked

theorem ends {shows : α → Prop} (hsame : SameUntilAsked p₀ p)
    (h : Runs (fun _ => True) p₀ ts mid shows []) (hs : Stands tape none ts s) :
    ∃ a t, p s = .ok a t ∧ shows a ∧ Stands tape none mid t ∧ HasAsked tape [] s t := by
  have hended := h tape s hs
  have hagreed := hsame s.journal.resolved s s ⟨rfl, rfl⟩
  generalize p₀ s = result₀ at hended hagreed
  generalize p s = result at hagreed ⊢
  cases hagreed with
  | @matched a t t' _ ready =>
      obtain ⟨_, hstands, hsize, hmid, ha, -⟩ := hended
      obtain ⟨hsupply, hasked⟩ := ready
      have hstands' : Stands tape none mid t' := by
        rw [Stands, ← hsupply, ← hmid]
        exact hstands
      refine ⟨a, t', rfl, ha, hstands', hstands'.1.1, ?_, ?_⟩
      · rw [← hsupply]
        exact hsize
      · rw [hasked, List.append_nil]
  | mismatched => exact hended.2.2.elim
  | @stopped failure _ _ hfailure =>
      cases failure with
      | mismatch token => exact absurd rfl (hfailure token)
      | fatal e => exact absurd (by simp) hended
      | exhausted => exact absurd (by simp) hended
  | spent => exact absurd (by simp) hended

theorem asks {shows : α → Prop} (hsame : SameUntilAsked p₀ p)
    (h : Runs (fun _ => True) p₀ ts mid shows []) : Asks p ts (some mid) [] := by
  intro tape s hs
  obtain ⟨a, t, hrun, -, hstands, hasked⟩ := hsame.ends h hs
  rw [hrun]
  exact .matched hstands hasked

theorem declines (hsame : SameUntilAsked p₀ p) (h : Refuses p₀ ts) : Asks p ts none [] := by
  intro tape s hs
  have hended := h tape s hs
  have hagreed := hsame s.journal.resolved s s ⟨rfl, rfl⟩
  generalize p₀ s = result₀ at hended hagreed
  generalize p s = result at hagreed ⊢
  cases hagreed with
  | matched =>
      obtain ⟨_, _, _, hfalse⟩ := hended
      exact hfalse.elim
  | mismatched token since =>
      obtain ⟨htape, hsize, -⟩ := hended
      obtain ⟨hsupply, hasked⟩ := since
      rw [hsupply] at htape hsize
      exact .mismatched ⟨htape, hsize, by rw [hasked, List.append_nil]⟩
  | @stopped failure _ _ hfailure =>
      cases failure with
      | mismatch token => exact absurd rfl (hfailure token)
      | fatal e => exact hended.elim
      | exhausted => exact hended.elim
  | spent => exact hended.elim

end SameUntilAsked

theorem many_of_ok {bound : Nat} {a : α} (h : p s = .ok a t) :
    many p (bound + 1) s = (do return a :: (← many p bound)) t := by
  have hsome : optional p s = .ok (some a) t := by
    change Parser.orElse (EStateM.bind p _) _ s = _
    rw [Parser.orElse, EStateM.bind, h]
    rfl
  change EStateM.bind (optional p) _ s = _
  rw [EStateM.bind, hsome]

theorem many_of_mismatch {bound : Nat} {token : Token} (h : p s = .error (.mismatch token) t) :
    many p (bound + 1) s = .ok [] (back s t) := by
  have hnone : optional p s = .ok none (back s t) := by
    change Parser.orElse (EStateM.bind p _) _ s = _
    rw [Parser.orElse, EStateM.bind, h]
    rfl
  change EStateM.bind (optional p) _ s = _
  rw [EStateM.bind, hnone]
  rfl

namespace Asks

theorem pure {a : α} : Asks (Pure.pure a : Parser (Rewindable Lexer) α) ts (some ts) [] :=
  fun _ _ hs => .matched hs ⟨hs.1.1, Nat.le_refl _, (List.append_nil _).symm⟩

theorem bind (hp : Asks p ts (some mid) names) (hf : ∀ a, Asks (f a) mid left names') :
    Asks (p >>= f) ts left (names ++ names') := by
  intro tape s hs
  have hasked := hp tape s hs
  change Asked tape _ s left (EStateM.bind p f s)
  unfold EStateM.bind
  generalize p s = result at hasked ⊢
  cases hasked with
  | matched stands asked => exact (hf _ tape _ stands).since asked

theorem bind_last (hp : Asks p ts (some mid) names) (hf : ∀ a, Asks (f a) mid left []) :
    Asks (p >>= f) ts left names := by
  have h := bind hp hf
  rwa [List.append_nil] at h

theorem bind_none (hp : Asks p ts none names) : Asks (p >>= f) ts none names := by
  intro tape s hs
  have hasked := hp tape s hs
  change Asked tape _ s none (EStateM.bind p f s)
  unfold EStateM.bind
  generalize p s = result at hasked ⊢
  cases hasked with
  | mismatched asked => exact .mismatched asked

theorem orElse_some {g : Token → Parser (Rewindable Lexer) α} (hp : Asks p ts (some mid) names) :
    Asks (Parser.orElse p g) ts (some mid) names := by
  intro tape s hs
  have hasked := hp tape s hs
  unfold Parser.orElse
  generalize p s = result at hasked ⊢
  cases hasked with
  | matched stands asked => exact .matched stands asked

/-- What a given up alternative has asked for stays asked for. -/
theorem orElse_none {g : Token → Parser (Rewindable Lexer) α} (hp : Asks p ts none names)
    (hg : ∀ token, Asks (g token) ts left names') :
    Asks (Parser.orElse p g) ts left (names ++ names') := by
  intro tape s hs
  have hasked := hp tape s hs
  unfold Parser.orElse
  generalize p s = result at hasked ⊢
  cases hasked with
  | @mismatched token t asked =>
      have hwound : HasAsked tape names s (back s t) :=
        ⟨asked.onTape, asked.size_le, asked.resolved⟩
      exact (hg token tape _ (asked.back hs)).since hwound

theorem first {qs : List (Parser (Rewindable Lexer) α)} (hp : Asks p ts (some mid) names) :
    Asks (firstOf p qs) ts (some mid) names := by
  cases qs with
  | nil => exact orElse_some hp
  | cons q qs => exact orElse_some hp

theorem skip {q : Parser (Rewindable Lexer) α} {qs : List (Parser (Rewindable Lexer) α)}
    (hp : Asks p ts none names) (hqs : Asks (firstOf q qs) ts left names') :
    Asks (firstOf p (q :: qs)) ts left (names ++ names') :=
  orElse_none hp fun _ => hqs

/-- An alternative that came to no import leaves no trace. -/
theorem skip_silent {q : Parser (Rewindable Lexer) α} {qs : List (Parser (Rewindable Lexer) α)}
    (hp : Asks p ts none []) (hqs : Asks (firstOf q qs) ts left names) :
    Asks (firstOf p (q :: qs)) ts left names :=
  skip hp hqs

theorem bind_silent {shows : α → Prop} (hsame : SameUntilAsked p₀ p)
    (hp : Runs (fun _ => True) p₀ ts mid shows [])
    (hf : ∀ a, shows a → Asks (f a) mid left names) : Asks (p >>= f) ts left names := by
  intro tape s hs
  obtain ⟨a, t, hrun, ha, hstands, hasked⟩ := hsame.ends hp hs
  change Asked tape _ s left (EStateM.bind p f s)
  rw [EStateM.bind, hrun]
  exact (hf a ha tape t hstands).since hasked

theorem step {q : Parser (Rewindable Lexer) β} {accepted : Token → Option β}
    {g : β → Parser (Rewindable Lexer) α} {b : β} {t : Token} (hq : Accepts q accepted)
    (hb : accepted t = some b) (h : Asks (g b) ts left names) :
    Asks (q >>= g) (t :: ts) left names := by
  have hone : Runs (fun _ => True) q (t :: ts) ts (· = b) [] := by
    refine (Triple.one_cons none t ts _ hq).mono ?_ ?_ fun _ => id
    · rintro a rest ⟨ha, rfl⟩
      rw [hb] at ha
      cases ha
      exact ⟨rfl, rfl, by simp⟩
    · intro hnone
      rw [hb] at hnone
      cases hnone
  refine bind_silent (fun asked => ?_) hone fun a ha => ha ▸ h
  exact .of_agree (Agree.accept (unasked_lawful asked) hq hq)

theorem here_bind {g : Location → Parser (Rewindable Lexer) α}
    (h : ∀ location, Asks (g location) ts left names) : Asks (here >>= g) ts left names := by
  have hhere : Runs (fun _ => True) (here : Parser (Rewindable Lexer) Location) ts ts
      (fun _ => True) [] := by
    refine Triple.bind (Q := fun _ rest => rest = ts) ?_ ?_
    · exact Triple.peek (fun _ _ _ => rfl) fun _ hfault => by cases hfault
    · rintro _ _ rfl
      exact Runs.pure trivial
  exact bind_silent (fun asked => .here (unasked_lawful asked)) hhere fun location _ => h location

theorem refuse {q : Parser (Rewindable Lexer) β} {accepted : Token → Option β}
    {g : β → Parser (Rewindable Lexer) α} {t : Token} (hq : Accepts q accepted)
    (hnone : accepted t = none) : Asks (q >>= g) (t :: ts) none [] := by
  have hrefuses : Refuses q (t :: ts) := by
    refine (Triple.one_cons none t ts _ hq).mono ?_ (fun _ => trivial) fun _ => id
    rintro a _ ⟨ha, -⟩
    rw [hnone] at ha
    cases ha
  refine bind_none (SameUntilAsked.declines (fun asked => ?_) hrefuses)
  exact .of_agree (Agree.accept (unasked_lawful asked) hq hq)

theorem many_nil {bound : Nat} (hp : Asks p ts none names) :
    Asks (many p (bound + 1)) ts (some ts) names := by
  intro tape s hs
  have hasked := hp tape s hs
  cases hrun : p s with
  | ok a t =>
      rw [hrun] at hasked
      cases hasked
  | error failure t =>
      rw [hrun] at hasked
      cases hasked with
      | mismatched asked =>
          rw [many_of_mismatch hrun]
          exact .matched (asked.back hs) ⟨asked.onTape, asked.size_le, asked.resolved⟩

theorem many_cons {bound : Nat} (hp : Asks p ts (some mid) names)
    (hmany : Asks (many p bound) mid (some rest) names') :
    Asks (many p (bound + 1)) ts (some rest) (names ++ names') := by
  intro tape s hs
  have hasked := hp tape s hs
  cases hrun : p s with
  | ok a t =>
      rw [hrun] at hasked
      cases hasked with
      | matched stands asked =>
          rw [many_of_ok hrun]
          have hothers := bind_last hmany fun others => pure (a := a :: others)
          exact (hothers tape t stands).since asked
  | error failure t =>
      rw [hrun] at hasked
      cases hasked

end Asks

end BuildScript.Parser

namespace BuildScript.Grammar

open BuildScript.Parser BuildScript.Derivation

variable {splice : String → Location → Parser (Rewindable Lexer) Node}
  {inner : String → List String} {bound budget : Nat} {used rest ts : List Token}

/-- Wherever the specifier is imported, it is asked for and then all that its
program asks for. -/
def SplicesAsking (inner : String → List String)
    (splice : String → Location → Parser (Rewindable Lexer) Node) (specifier : String) : Prop :=
  ∀ location ts, Asks (splice specifier location) ts (some ts) (specifier :: inner specifier)

theorem stopAtImport_inStep (asked : List String) :
    SpliceInStep (unasked asked) stopAtImport splice :=
  fun _ _ _ s _ _ => .spent trivial s _

theorem inclusion_same : SameUntilAsked (inclusion stopAtImport) (inclusion splice) :=
  fun asked => inStep_inclusion (unasked_lawful asked) (stopAtImport_inStep asked)

theorem value_same (splice : String → Location → Parser (Rewindable Lexer) Node) (budget : Nat) :
    SameUntilAsked (value stopAtImport budget) (value splice budget) :=
  fun asked => inStep_value (unasked_lawful asked) (stopAtImport_inStep asked) budget

/-- Values that the reading does not come to. -/
def unreadValue : Parser (Rewindable Lexer) Node := throw .exhausted

theorem unreadValue_same (value : Parser (Rewindable Lexer) Node) :
    SameUntilAsked unreadValue value :=
  fun _ s _ _ => .spent trivial s _

theorem call_same (value : Parser (Rewindable Lexer) Node) (budget : Nat) :
    SameUntilAsked (call unreadValue budget) (call value budget) :=
  fun asked => inStep_call (unasked_lawful asked) (unreadValue_same value asked) budget

/-- An opening bracket leads past all alternatives before lists. -/
theorem value_asks_bracket {opening : Token} {left : Option (List Token)} {names : List String}
    (hopening : opening.kind = .bracketOpen)
    (h : Asks (firstOf (list (value splice budget) (budget + 1))
      [listFor (value splice budget), stringLiteral]) (opening :: ts) left names) :
    Asks (value splice (budget + 1)) (opening :: ts) left names := by
  have hname : ∀ name, opening.kind ≠ .identifier name := by simp [hopening]
  have hlawful (asked : List String) := unasked_lawful (σ := Rewindable Lexer) asked
  refine Asks.skip_silent (inclusion_same.declines (inclusion_refuses_cons (hname _))) ?_
  refine Asks.skip_silent ((call_same _ _).declines (call_refuses hname)) ?_
  refine Asks.skip_silent (SameUntilAsked.declines (fun asked => inStep_object (hlawful asked) _)
    (object_refuses hname)) ?_
  exact Asks.skip_silent (SameUntilAsked.declines
    (fun asked => inStep_parenthesized (hlawful asked) _)
    (parenthesized_refuses (by simp [hopening]))) h

theorem value_asks_inclusion {specifier : String} (hsplice : SplicesAsking inner splice specifier)
    (hused : used.map Token.kind = (Value.inclusion specifier).kinds) :
    Asks (value splice (budget + 1)) (used ++ rest) (some rest)
      ((Value.inclusion specifier).trace inner) := by
  obtain ⟨t, used, rfl, ht, hused⟩ := List.map_eq_cons_iff.mp hused
  obtain ⟨opening, used, rfl, hopening, hused⟩ := List.map_eq_cons_iff.mp hused
  obtain ⟨u, used, rfl, hu, hused⟩ := List.map_eq_cons_iff.mp hused
  obtain ⟨closing, rfl, hclosing⟩ := List.map_eq_singleton_iff.mp hused
  refine Asks.first ?_
  refine Asks.step (accepts_expectIdentifier "import") (placeOf?_of_eq ht) ?_
  refine Asks.step (accepts_expect rfl (by decide)) (ofKind?_of_eq hopening) ?_
  refine Asks.step accepts_stringToken (contents?_of_eq hu) ?_
  refine Asks.step (accepts_expect rfl (by decide)) (ofKind?_of_eq hclosing) ?_
  exact hsplice t.location rest

theorem value_asks_string {text : String} {t : Token} (ht : t.kind = .string text) :
    Asks (value splice (budget + 1)) (t :: rest) (some rest) [] := by
  have hruns : Runs (fun _ => True) (value stopAtImport (budget + 1)) (t :: rest) rest
      ((Value.string text).HasTree fun _ _ => False) [] := value_runs_string ht
  exact (value_same splice (budget + 1)).asks hruns

def ArgumentsAsk (inner : String → List String) (value : Parser (Rewindable Lexer) Node)
    (bound : Nat) (arguments : List Argument) : Prop :=
  ∀ count used rest, used.map Token.kind = argumentKinds arguments → NextKind Closing rest →
    (used ++ rest).length < bound → (used ++ rest).length < count →
    Asks (many (argument value) count) (used ++ rest) (some rest) (argumentsTrace inner arguments)

theorem call_asks {value : Parser (Rewindable Lexer) Node} {callee : Path}
    {arguments : List Argument} (hused : used.map Token.kind = callKinds callee arguments)
    (hbudget : (used ++ rest).length < budget) (hbound : (used ++ rest).length < bound + 1)
    (harguments : ArgumentsAsk inner value bound arguments) :
    Asks (call value budget) (used ++ rest) (some rest) (argumentsTrace inner arguments) := by
  obtain ⟨usedCallee, used, rfl, hcallee, hused⟩ := List.map_eq_append_iff.mp hused
  obtain ⟨opening, used, rfl, hopening, hused⟩ := List.map_eq_cons_iff.mp hused
  obtain ⟨usedInner, closing, rfl, hinner, hclosing⟩ := exists_closing hused
  simp only [List.append_assoc, List.cons_append, List.nil_append] at hbudget hbound ⊢
  refine Asks.here_bind fun location => ?_
  have hobject : Runs (fun _ => True) (object budget : Parser (Rewindable Lexer) Node)
      (usedCallee ++ opening :: (usedInner ++ closing :: rest))
      (opening :: (usedInner ++ closing :: rest)) callee.HasTree [] :=
    object_runs callee hcallee ⟨opening, _, rfl, by simp [hopening]⟩ hbudget
  refine Asks.bind_silent (fun asked => inStep_object (unasked_lawful asked) _) hobject
    fun object _ => ?_
  refine Asks.step (accepts_expect rfl (by decide)) (ofKind?_of_eq hopening) ?_
  rw [List.length_append, List.length_cons] at hbudget hbound
  have hasks := harguments budget usedInner (closing :: rest) hinner
    ⟨closing, rest, rfl, .inr (.inl hclosing)⟩ (by omega) (by omega)
  refine hasks.bind_last fun nodes => ?_
  refine Asks.step (accepts_expect rfl (by decide)) (ofKind?_of_eq hclosing) ?_
  exact Asks.pure

theorem value_asks_call {callee : Path} {arguments : List Argument}
    (hused : used.map Token.kind = callKinds callee arguments)
    (hnot : inclusion? (callKinds callee arguments) = none)
    (hbudget : (used ++ rest).length < budget + 1)
    (harguments : ArgumentsAsk inner (value splice budget) budget arguments) :
    Asks (value splice (budget + 1)) (used ++ rest) (some rest)
      ((Value.call callee arguments).trace inner) := by
  refine Asks.skip_silent (inclusion_same.declines (inclusion_refuses ?_)) ?_
  · intro specifier kinds
    rw [List.map_append, hused]
    exact callKinds_append_ne hnot _ specifier kinds
  · exact Asks.first (call_asks hused hbudget hbudget harguments)

def EntriesAsk (inner : String → List String) (value : Parser (Rewindable Lexer) Node)
    (bound : Nat) (entries : List Value) : Prop :=
  ∀ count used rest, used.map Token.kind = entryKinds entries → NextKind Closing rest →
    (used ++ rest).length < bound → (used ++ rest).length < count →
    Asks (many value count) (used ++ rest) (some rest) (entriesTrace inner entries)

theorem value_asks_list {entries : List Value}
    (hused : used.map Token.kind = (Value.list entries).kinds)
    (hbudget : (used ++ rest).length < budget + 1)
    (hentries : EntriesAsk inner (value splice budget) budget entries) :
    Asks (value splice (budget + 1)) (used ++ rest) (some rest)
      ((Value.list entries).trace inner) := by
  obtain ⟨opening, used, rfl, hopening, hused⟩ := List.map_eq_cons_iff.mp hused
  obtain ⟨usedInner, closing, rfl, hinner, hclosing⟩ := exists_closing hused
  simp only [List.cons_append, List.append_assoc, List.nil_append, List.length_cons]
    at hbudget ⊢
  refine value_asks_bracket hopening (Asks.first (Asks.here_bind fun location => ?_))
  refine Asks.step (accepts_expect rfl (by decide)) (ofKind?_of_eq hopening) ?_
  have hasks := hentries (budget + 1) usedInner (closing :: rest) hinner
    ⟨closing, rest, rfl, .inl hclosing⟩ (by omega) (by omega)
  refine hasks.bind_last fun nodes => ?_
  refine Asks.step (accepts_expect rfl (by decide)) (ofKind?_of_eq hclosing) ?_
  exact Asks.pure

/-- What is known of a value. An object on its own needs to be followed by
something that does not continue it. -/
def ValueAsks (inner : String → List String) (value : Parser (Rewindable Lexer) Node)
    (bound : Nat) (derived : Value) : Prop :=
  ∀ used rest, used.map Token.kind = derived.kinds →
    (derived.isBare = true → NextKind Apart rest) → (used ++ rest).length < bound →
    Asks value (used ++ rest) (some rest) (derived.trace inner)

/-- A comprehension is tried as a list first. What its body asks for is then
asked for, though no list is there. -/
theorem list_asks_body {opening forToken : Token} {names : List String}
    (hopening : opening.kind = .bracketOpen) (hfor : forToken.kind = .forKeyword)
    (hbody : Asks (value splice (budget + 1)) ts (some (forToken :: rest)) names) :
    Asks (list (value splice (budget + 1)) (budget + 2)) (opening :: ts) none names := by
  have hnext : NextKind (fun kind => opensValue kind = false) (forToken :: rest) :=
    ⟨forToken, rest, rfl, Closing.opensValue (.inr (.inr hfor))⟩
  have hnil : Asks (many (value splice (budget + 1)) (budget + 1)) (forToken :: rest) _ [] :=
    Asks.many_nil ((value_same splice (budget + 1)).declines (value_refuses hnext))
  have hmany := Asks.many_cons hbody hnil
  refine Asks.here_bind fun location => ?_
  refine Asks.step (accepts_expect rfl (by decide)) (ofKind?_of_eq hopening) ?_
  rw [List.append_nil] at hmany
  exact hmany.bind_last fun nodes =>
    Asks.refuse (accepts_expect rfl (by decide)) (ofKind?_of_ne (by simp [hfor]))

theorem value_asks_listFor {body source : Value} {element : String}
    (hused : used.map Token.kind = (Value.listFor body element source).kinds)
    (hbudget : (used ++ rest).length < budget + 1)
    (hbody : ValueAsks inner (value splice budget) budget body)
    (hsource : ValueAsks inner (value splice budget) budget source) :
    Asks (value splice (budget + 1)) (used ++ rest) (some rest)
      ((Value.listFor body element source).trace inner) := by
  obtain ⟨opening, used, rfl, hopening, hused⟩ := List.map_eq_cons_iff.mp hused
  obtain ⟨usedBody, used, rfl, hbodyKinds, hused⟩ := List.map_eq_append_iff.mp hused
  obtain ⟨forToken, used, rfl, hfor, hused⟩ := List.map_eq_cons_iff.mp hused
  obtain ⟨elementToken, used, rfl, helement, hused⟩ := List.map_eq_cons_iff.mp hused
  obtain ⟨inToken, used, rfl, hin, hused⟩ := List.map_eq_cons_iff.mp hused
  obtain ⟨usedSource, closing, rfl, hsourceKinds, hclosing⟩ := exists_closing hused
  simp only [List.cons_append, List.append_assoc, List.nil_append, List.length_cons,
    List.length_append] at hbudget ⊢
  have hforClosing : Closing forToken.kind := .inr (.inr hfor)
  have hasksBody := hbody usedBody
    (forToken :: elementToken :: inToken :: (usedSource ++ closing :: rest)) hbodyKinds
    (fun _ => ⟨forToken, _, rfl, hforClosing.apart⟩)
    (by simp only [List.length_append, List.length_cons]; omega)
  have hasksSource := hsource usedSource (closing :: rest) hsourceKinds
    (fun _ => ⟨closing, rest, rfl, Closing.apart (.inl hclosing)⟩)
    (by simp only [List.length_append, List.length_cons]; omega)
  obtain ⟨budget, rfl⟩ := Nat.exists_eq_succ_of_ne_zero
    (Nat.ne_zero_of_lt (Nat.lt_of_succ_lt_succ hbudget))
  refine value_asks_bracket hopening ?_
  rw [Value.trace, List.append_assoc]
  refine Asks.skip (list_asks_body hopening hfor hasksBody) ?_
  refine Asks.first (Asks.here_bind fun location => ?_)
  refine Asks.step (accepts_expect rfl (by decide)) (ofKind?_of_eq hopening) ?_
  refine hasksBody.bind fun bodyNode => ?_
  refine Asks.step (accepts_expect rfl (by decide)) (ofKind?_of_eq hfor) ?_
  refine Asks.step (accepts_identifier.map _) (by rw [name?_of_eq helement]; rfl) ?_
  refine Asks.step (accepts_expect rfl (by decide)) (ofKind?_of_eq hin) ?_
  refine hasksSource.bind_last fun sourceNode => ?_
  refine Asks.step (accepts_expect rfl (by decide)) (ofKind?_of_eq hclosing) ?_
  exact Asks.pure

theorem keywordArgument_declines {value : Parser (Rewindable Lexer) Node}
    (h : ∀ name kinds, ts.map Token.kind ≠ .identifier name :: .assign :: kinds) :
    Asks (keywordArgument value) ts none [] := by
  have hsame : SameUntilAsked (keywordArgument unreadValue) (keywordArgument value) :=
    fun asked => inStep_keywordArgument (unasked_lawful asked) (unreadValue_same value asked)
  exact hsame.declines (keywordArgument_refuses h)

theorem argument_asks {value : Parser (Rewindable Lexer) Node} {derived : Argument}
    (hvalue : ValueAsks inner value bound derived.value)
    (hused : used.map Token.kind = derived.kinds)
    (hrest : derived.isBare = true → NextKind Apart rest)
    (hbound : (used ++ rest).length < bound) :
    Asks (argument value) (used ++ rest) (some rest) (derived.trace inner) := by
  cases derived with
  | keyword name derived =>
      obtain ⟨t, used, rfl, ht, hused⟩ := List.map_eq_cons_iff.mp hused
      obtain ⟨u, used, rfl, hu, hused⟩ := List.map_eq_cons_iff.mp hused
      simp only [List.cons_append, List.length_cons] at hbound
      refine Asks.first (Asks.step accepts_identifier (name?_of_eq ht) ?_)
      refine Asks.step (accepts_expect rfl (by decide)) (ofKind?_of_eq hu) ?_
      exact (hvalue used rest hused hrest (by omega)).bind_last fun node => Asks.pure
  | positional derived =>
      refine Asks.skip_silent (keywordArgument_declines ?_) ?_
      · intro name kinds
        rw [List.map_append, hused]
        exact value_append_ne_keyword hrest name kinds
      · exact Asks.first (hvalue used rest hused hrest hbound)

theorem entries_ask_nil : EntriesAsk inner (value splice budget) budget [] := by
  intro count used rest hused hrest hbudget hcount
  obtain rfl := List.map_eq_nil_iff.mp hused
  obtain ⟨budget, rfl⟩ := Nat.exists_eq_succ_of_ne_zero (Nat.ne_zero_of_lt hbudget)
  obtain ⟨count, rfl⟩ := Nat.exists_eq_succ_of_ne_zero (Nat.ne_zero_of_lt hcount)
  exact Asks.many_nil ((value_same splice (budget + 1)).declines
    (value_refuses (hrest.mono fun _ => Closing.opensValue)))

theorem entries_ask_cons {first : Value} {others : List Value}
    (hpreferred : PreferredEntries (first :: others))
    (hfirst : ValueAsks inner (value splice budget) budget first)
    (hothers : EntriesAsk inner (value splice budget) budget others) :
    EntriesAsk inner (value splice budget) budget (first :: others) := by
  intro count used rest hused hrest hbudget hcount
  obtain ⟨count, rfl⟩ := Nat.exists_eq_succ_of_ne_zero (Nat.ne_zero_of_lt hcount)
  obtain ⟨usedFirst, usedOthers, rfl, hkindsFirst, hkindsOthers, hfits, hbudget, hcount⟩ :=
    exists_items hused first.kinds_ne_nil hbudget hcount
  rw [List.append_assoc]
  refine Asks.many_cons (hfirst usedFirst (usedOthers ++ rest) hkindsFirst (fun hbare => ?_) hfits)
    (hothers count usedOthers rest hkindsOthers hrest hbudget hcount)
  exact nextKind_of_items hkindsOthers (hrest.mono fun _ => Closing.apart)
    (entries_head (hpreferred.2.2 hbare))

theorem arguments_ask_nil : ArgumentsAsk inner (value splice budget) budget [] := by
  intro count used rest hused hrest hbudget hcount
  obtain rfl := List.map_eq_nil_iff.mp hused
  obtain ⟨budget, rfl⟩ := Nat.exists_eq_succ_of_ne_zero (Nat.ne_zero_of_lt hbudget)
  obtain ⟨count, rfl⟩ := Nat.exists_eq_succ_of_ne_zero (Nat.ne_zero_of_lt hcount)
  have hsame : SameUntilAsked (argument (value stopAtImport (budget + 1)))
      (argument (value splice (budget + 1))) :=
    fun asked => inStep_argument (unasked_lawful asked) (value_same splice _ asked)
  exact Asks.many_nil (hsame.declines (argument_refuses (hrest.mono fun _ => Closing.opensValue)))

theorem arguments_ask_cons {first : Argument} {others : List Argument}
    (hpreferred : PreferredArguments (first :: others))
    (hfirst : ValueAsks inner (value splice budget) budget first.value)
    (hothers : ArgumentsAsk inner (value splice budget) budget others) :
    ArgumentsAsk inner (value splice budget) budget (first :: others) := by
  intro count used rest hused hrest hbudget hcount
  obtain ⟨count, rfl⟩ := Nat.exists_eq_succ_of_ne_zero (Nat.ne_zero_of_lt hcount)
  obtain ⟨usedFirst, usedOthers, rfl, hkindsFirst, hkindsOthers, hfits, hbudget, hcount⟩ :=
    exists_items hused first.kinds_ne_nil hbudget hcount
  rw [List.append_assoc]
  refine Asks.many_cons (argument_asks hfirst hkindsFirst (fun hbare => ?_) hfits)
    (hothers count usedOthers rest hkindsOthers hrest hbudget hcount)
  exact nextKind_of_items hkindsOthers (hrest.mono fun _ => Closing.apart)
    (arguments_head (hpreferred.2.2 hbare))

mutual

theorem value_asks : ∀ (derived : Value) (budget : Nat), derived.Preferred →
    (∀ s ∈ derived.specifiers, SplicesAsking inner splice s) →
      ValueAsks inner (value splice budget) budget derived
  | derived, 0, _, _ => fun _ _ _ _ hbudget => absurd hbudget (Nat.not_lt_zero _)
  | .inclusion specifier, budget + 1, _, hsplice => fun _ _ hused _ _ =>
      value_asks_inclusion (hsplice specifier (List.mem_singleton_self _)) hused
  | .call callee arguments, budget + 1, ⟨hnot, hpreferred⟩, hsplice => fun _ _ hused _ hbudget =>
      value_asks_call hused hnot hbudget (arguments_ask arguments budget hpreferred
        fun s hs => hsplice s (List.mem_append_right _ hs))
  | .object path, budget + 1, _, _ => fun _ _ hused hrest hbudget =>
      (value_same splice _).asks (value_runs_object hused (hrest rfl) hbudget)
  | .parenthesized path, budget + 1, _, _ => fun _ _ hused _ hbudget =>
      (value_same splice _).asks (value_runs_parenthesized hused hbudget)
  | .list entries, budget + 1, hpreferred, hsplice => fun _ _ hused _ hbudget =>
      value_asks_list hused hbudget (entries_ask entries budget hpreferred hsplice)
  | .listFor body element source, budget + 1, ⟨hbody, hsource⟩, hsplice =>
      fun _ _ hused _ hbudget => by
        obtain ⟨hspliceBody, hspliceSource⟩ := List.forall_mem_append.mp hsplice
        exact value_asks_listFor hused hbudget (value_asks body budget hbody hspliceBody)
          (value_asks source budget hsource hspliceSource)
  | .string text, budget + 1, _, _ => fun _ _ hused _ _ => by
      obtain ⟨t, rfl, ht⟩ := List.map_eq_singleton_iff.mp hused
      exact value_asks_string ht

theorem entries_ask : ∀ (entries : List Value) (budget : Nat), PreferredEntries entries →
    (∀ s ∈ entrySpecifiers entries, SplicesAsking inner splice s) →
      EntriesAsk inner (value splice budget) budget entries
  | [], _, _, _ => entries_ask_nil
  | first :: others, budget, hpreferred, hsplice => by
      obtain ⟨hfirst, hothers⟩ := List.forall_mem_append.mp hsplice
      exact entries_ask_cons hpreferred (value_asks first budget hpreferred.1 hfirst)
        (entries_ask others budget hpreferred.2.1 hothers)

theorem arguments_ask : ∀ (arguments : List Argument) (budget : Nat),
    PreferredArguments arguments →
    (∀ s ∈ argumentSpecifiers arguments, SplicesAsking inner splice s) →
      ArgumentsAsk inner (value splice budget) budget arguments
  | [], _, _, _ => arguments_ask_nil
  | .keyword _ first :: others, budget, hpreferred, hsplice => by
      obtain ⟨hfirst, hothers⟩ := List.forall_mem_append.mp hsplice
      exact arguments_ask_cons hpreferred (value_asks first budget hpreferred.1 hfirst)
        (arguments_ask others budget hpreferred.2.1 hothers)
  | .positional first :: others, budget, hpreferred, hsplice => by
      obtain ⟨hfirst, hothers⟩ := List.forall_mem_append.mp hsplice
      exact arguments_ask_cons hpreferred (value_asks first budget hpreferred.1 hfirst)
        (arguments_ask others budget hpreferred.2.1 hothers)

end

theorem assignment_declines {value : Parser (Rewindable Lexer) Node}
    (h : ∀ name kinds, ts.map Token.kind ≠ .identifier name :: .assign :: kinds) :
    Asks (assignment value) ts none [] := by
  have hsame : SameUntilAsked (assignment unreadValue) (assignment value) :=
    fun asked => inStep_assignment (unasked_lawful asked) (unreadValue_same value asked)
  exact hsame.declines (assignment_refuses h)

theorem statement_asks {derived : Statement} (hpreferred : derived.Preferred)
    (hsplice : ∀ s ∈ derived.specifiers, SplicesAsking inner splice s)
    (hused : used.map Token.kind = derived.kinds) (hrest : NextKind Apart rest)
    (hbudget : (used ++ rest).length < budget) :
    Asks (statement (value splice budget) budget) (used ++ rest) (some rest)
      (derived.trace inner) := by
  cases derived with
  | assignment target derived =>
      obtain ⟨t, used, rfl, ht, hused⟩ := List.map_eq_cons_iff.mp hused
      obtain ⟨u, used, rfl, hu, hused⟩ := List.map_eq_cons_iff.mp hused
      simp only [List.cons_append, List.length_cons] at hbudget
      have hvalue := value_asks derived budget hpreferred hsplice used rest hused
        (fun _ => hrest) (by omega)
      refine Asks.first (Asks.here_bind fun location => ?_)
      refine Asks.step (accepts_identifier.map _) (by rw [name?_of_eq ht]; rfl) ?_
      refine Asks.step (accepts_expect rfl (by decide)) (ofKind?_of_eq hu) ?_
      exact hvalue.bind_last fun node => Asks.pure
  | call callee arguments =>
      refine Asks.skip_silent (assignment_declines ?_) ?_
      · intro name kinds
        rw [List.map_append, hused]
        exact callKinds_append_ne_assignment _ name kinds
      · exact Asks.first (call_asks hused hbudget (Nat.lt_succ_of_lt hbudget)
          (arguments_ask arguments budget hpreferred hsplice))

theorem statements_ask (hrest : NextKind (· = .endOfStream) rest) (statements : List Statement)
    {count : Nat} (hpreferred : ∀ derived ∈ statements, derived.Preferred)
    (hsplice : ∀ s ∈ programSpecifiers statements, SplicesAsking inner splice s)
    (hused : used.map Token.kind = statementKinds statements)
    (hbudget : (used ++ rest).length < budget) (hcount : (used ++ rest).length < count) :
    Asks (many (statement (value splice budget) budget) count) (used ++ rest) (some rest)
      (programTrace inner statements) := by
  induction statements generalizing count used with
  | nil =>
      obtain rfl := List.map_eq_nil_iff.mp hused
      obtain ⟨count, rfl⟩ := Nat.exists_eq_succ_of_ne_zero (Nat.ne_zero_of_lt hcount)
      have hsame : SameUntilAsked (statement (value stopAtImport budget) budget)
          (statement (value splice budget) budget) :=
        fun asked => inStep_statement (unasked_lawful asked) (value_same splice _ asked) _
      exact Asks.many_nil (hsame.declines (statement_refuses hrest))
  | cons first others ih =>
      obtain ⟨count, rfl⟩ := Nat.exists_eq_succ_of_ne_zero (Nat.ne_zero_of_lt hcount)
      obtain ⟨hspliceFirst, hspliceOthers⟩ := List.forall_mem_append.mp hsplice
      rw [statementKinds_cons] at hused
      obtain ⟨usedFirst, usedOthers, rfl, hkindsFirst, hkindsOthers, hfits, hbudget, hcount⟩ :=
        exists_items hused first.kinds_ne_nil hbudget hcount
      rw [List.append_assoc]
      have hfirst := statement_asks (hpreferred first (by simp)) hspliceFirst hkindsFirst
        ((separate_of_statements hkindsOthers hrest).mono fun _ => Separate.apart) hfits
      have hlater : ∀ derived ∈ others, derived.Preferred :=
        fun derived hderived => hpreferred derived (List.mem_cons_of_mem first hderived)
      exact Asks.many_cons hfirst (ih hlater hspliceOthers hkindsOthers hbudget hcount)

/-- A program asks for its trace, along its preferred derivation. -/
theorem program_asks {statements : List Statement}
    (hpreferred : ∀ derived ∈ statements, derived.Preferred)
    (hsplice : ∀ s ∈ programSpecifiers statements, SplicesAsking inner splice s)
    (hused : used.map Token.kind = statementKinds statements)
    (hrest : NextKind (· = .endOfStream) rest) (hbudget : (used ++ rest).length < budget) :
    Asks (program (value splice budget) budget) (used ++ rest) (some rest)
      (programTrace inner statements) := by
  refine Asks.here_bind fun location => ?_
  refine (statements_ask hrest statements hpreferred hsplice hused hbudget hbudget).bind_last
    fun nodes => ?_
  obtain ⟨last, others, rfl, hlast⟩ := hrest
  have hpeek : Runs (fun _ => True) (peek : Parser (Rewindable Lexer) Token) (last :: others)
      (last :: others) (· = last) [] := by
    refine Triple.peek ?_ fun _ hfault => by cases hfault
    rintro t ts hts
    cases hts
    exact ⟨rfl, rfl, by simp⟩
  refine Asks.bind_silent (fun asked => ?_) hpeek ?_
  · exact .of_agree fun _ _ hs => (unasked_lawful asked).peek hs
  · rintro t rfl
    rw [if_pos (by simp [Token.isEnd, hlast])]
    exact Asks.pure

end BuildScript.Grammar
