import BuildScript.Proofs.Tape

/-!
What a parser does on given tokens. A triple tells for each way a parser can
end what is known then: where it matches, what it gives and which tokens are
left; that it does not match; or why it stops. There is one rule for each way
of putting parsers together.
-/

namespace BuildScript.Parser

variable {τ : Type} [TokenStream τ] {α β : Type}

/-- The tokens to come are `ts`. Either a fault follows them, or the end of the
stream is among them, so that reading them never leaves the tape. -/
def Stands (tape : List Token) (fault : Option LexError) (ts : List Token)
    (s : ParserState (Rewindable τ)) : Prop :=
  s.supply.At tape fault ts ∧ (fault = none → ∃ t ∈ ts, t.kind = .endOfStream)

/-- How a parser that began in `s` ended. A parser that did not match has only
pulled tokens, so that one can wind back to where it began. -/
def Ended (tape : List Token) (fault : Option LexError) (s : ParserState (Rewindable τ))
    (matched : α → List Token → Prop) (mismatched : Prop) (stopped : Failure → Prop) :
    EStateM.Result Failure (ParserState (Rewindable τ)) α → Prop
  | .ok a s' => ∃ rest, Stands tape fault rest s' ∧
      s.supply.buffer.size ≤ s'.supply.buffer.size ∧ matched a rest
  | .error (.mismatch _) s' => s'.supply.OnTape tape fault ∧
      s.supply.buffer.size ≤ s'.supply.buffer.size ∧ mismatched
  | .error failure _ => stopped failure

theorem Ended.of_size_le {tape : List Token} {fault : Option LexError}
    {s s' : ParserState (Rewindable τ)} {matched : α → List Token → Prop} {mismatched : Prop}
    {stopped : Failure → Prop} {result : EStateM.Result Failure (ParserState (Rewindable τ)) α}
    (h : Ended tape fault s' matched mismatched stopped result)
    (hsize : s.supply.buffer.size ≤ s'.supply.buffer.size) :
    Ended tape fault s matched mismatched stopped result := by
  cases result with
  | ok a s'' =>
      obtain ⟨rest, hrest, hsize', ha⟩ := h
      exact ⟨rest, hrest, Nat.le_trans hsize hsize', ha⟩
  | error failure s'' =>
      cases failure with
      | mismatch token => exact ⟨h.1, Nat.le_trans hsize h.2.1, h.2.2⟩
      | fatal e => exact h
      | exhausted => exact h

def Triple (p : Parser (Rewindable τ) α) (fault : Option LexError) (ts : List Token)
    (matched : α → List Token → Prop) (mismatched : Prop) (stopped : Failure → Prop) : Prop :=
  ∀ tape s, Stands tape fault ts s → Ended tape fault s matched mismatched stopped (p s)

namespace Triple

variable {p : Parser (Rewindable τ) α} {f : α → Parser (Rewindable τ) β}
  {fault : Option LexError} {ts : List Token} {Q Q' : α → List Token → Prop}
  {R : β → List Token → Prop} {mismatched mismatched' : Prop}
  {stopped stopped' : Failure → Prop}

theorem mono (h : Triple p fault ts Q mismatched stopped)
    (hmatched : ∀ a rest, Q a rest → Q' a rest)
    (hmismatched : mismatched → mismatched')
    (hstopped : ∀ failure, stopped failure → stopped' failure) :
    Triple p fault ts Q' mismatched' stopped' := by
  intro tape s hs
  have hended := h tape s hs
  cases hp : p s with
  | ok a s' =>
      rw [hp] at hended
      obtain ⟨rest, hrest, hsize, ha⟩ := hended
      exact ⟨rest, hrest, hsize, hmatched a rest ha⟩
  | error failure s' =>
      rw [hp] at hended
      cases failure with
      | mismatch token => exact ⟨hended.1, hended.2.1, hmismatched hended.2.2⟩
      | fatal e => exact hstopped _ hended
      | exhausted => exact hstopped _ hended

theorem pure {a : α} (h : Q a ts) :
    Triple (Pure.pure a : Parser (Rewindable τ) α) fault ts Q mismatched stopped :=
  fun _ _ hs => ⟨ts, hs, Nat.le_refl _, h⟩

theorem throw_mismatch {token : Token} (h : mismatched) :
    Triple (throw (.mismatch token) : Parser (Rewindable τ) α) fault ts Q mismatched
      stopped :=
  fun _ _ hs => ⟨hs.1.1, Nat.le_refl _, h⟩

theorem throw_fatal {e : ParseError} (h : stopped (.fatal e)) :
    Triple (throw (.fatal e) : Parser (Rewindable τ) α) fault ts Q mismatched stopped :=
  fun _ _ _ => h

theorem throw_exhausted (h : stopped .exhausted) :
    Triple (throw .exhausted : Parser (Rewindable τ) α) fault ts Q mismatched stopped :=
  fun _ _ _ => h

theorem bind (hp : Triple p fault ts Q mismatched stopped)
    (hf : ∀ a rest, Q a rest → Triple (f a) fault rest R mismatched stopped) :
    Triple (p >>= f) fault ts R mismatched stopped := by
  intro tape s hs
  have hended := hp tape s hs
  change Ended tape fault s R mismatched stopped (EStateM.bind p f s)
  unfold EStateM.bind
  cases h : p s with
  | ok a s' =>
      rw [h] at hended
      obtain ⟨rest, hrest, hsize, ha⟩ := hended
      exact (hf a rest ha tape s' hrest).of_size_le hsize
  | error failure s' =>
      rw [h] at hended
      cases failure with
      | mismatch token => exact hended
      | fatal e => exact hended
      | exhausted => exact hended

/-- Where the first alternative does not match, the other one begins at the
same tokens. -/
theorem orElse {g : Token → Parser (Rewindable τ) α}
    (hp : Triple p fault ts Q mismatched' stopped)
    (hg : mismatched' → ∀ token, Triple (g token) fault ts Q mismatched stopped) :
    Triple (Parser.orElse p g) fault ts Q mismatched stopped := by
  intro tape s hs
  have hended := hp tape s hs
  unfold Parser.orElse
  cases h : p s with
  | ok a s' =>
      rw [h] at hended
      exact hended
  | error failure s' =>
      rw [h] at hended
      cases failure with
      | mismatch token =>
          obtain ⟨htape, hsize, hmismatched⟩ := hended
          obtain ⟨⟨-, hcursor, hdrop⟩, hend⟩ := hs
          have hback : Stands tape fault ts
              ⟨s'.supply.rewind s.supply.mark, s'.journal⟩ :=
            ⟨⟨htape, Nat.le_trans hcursor hsize, hdrop⟩, hend⟩
          exact (hg hmismatched token tape _ hback).of_size_le hsize
      | fatal e => exact hended
      | exhausted => exact hended

theorem firstOf_head {qs : List (Parser (Rewindable τ) α)}
    (hp : Triple p fault ts Q False stopped) :
    Triple (firstOf p qs) fault ts Q mismatched stopped := by
  cases qs with
  | nil => exact orElse hp fun h => h.elim
  | cons q qs => exact orElse hp fun h => h.elim

theorem firstOf_skip {q : Parser (Rewindable τ) α} {qs : List (Parser (Rewindable τ) α)}
    (hp : Triple p fault ts (fun _ _ => False) True stopped)
    (hqs : Triple (firstOf q qs) fault ts Q mismatched stopped) :
    Triple (firstOf p (q :: qs)) fault ts Q mismatched stopped :=
  orElse (hp.mono (fun _ _ h => h.elim) id fun _ h => h) fun _ _ => hqs

theorem firstOf_all {qs : List (Parser (Rewindable τ) α)}
    (h : ∀ q ∈ p :: qs, Triple q fault ts Q mismatched stopped) :
    Triple (firstOf p qs) fault ts Q mismatched stopped := by
  induction qs generalizing p with
  | nil => exact orElse (h p (by simp)) fun hmismatched _ => throw_mismatch hmismatched
  | cons q qs ih =>
      refine orElse (h p (by simp)) fun _ _ => ih ?_
      intro q' hq'
      exact h q' (List.mem_cons_of_mem p hq')

theorem optional_bind {g : Option α → Parser (Rewindable τ) β}
    (hp : Triple p fault ts Q mismatched' stopped)
    (hsome : ∀ a rest, Q a rest → Triple (g (some a)) fault rest R mismatched stopped)
    (hnone : mismatched' → Triple (g none) fault ts R mismatched stopped) :
    Triple (Parser.optional p >>= g) fault ts R mismatched stopped := by
  refine bind (Q := fun found rest => Triple (g found) fault rest R mismatched stopped)
    (orElse (bind hp fun a rest ha => ?_) fun h _ => ?_) fun _ _ h => h
  · exact pure (hsome a rest ha)
  · exact pure (hnone h)

end Triple

def accept {σ : Type} [TokenSupply σ] (f : Token → Option α) : Parser σ α := do
  let token ← next
  match f token with
  | some a => return a
  | none => throw (.mismatch token)

namespace Triple

variable {f : Token → Option α} {g : α → Parser (Rewindable τ) β} {fault : Option LexError}
  {t : Token} {ts : List Token} {Q : α → List Token → Prop}
  {R : β → List Token → Prop} {mismatched : Prop} {stopped : Failure → Prop}

theorem peek {seen : Token → List Token → Prop} (hseen : ∀ t rest, ts = t :: rest → seen t ts)
    (hstopped : ∀ e, fault = some e → ts = [] → stopped (.fatal (.lexical e))) :
    Triple (Parser.peek : Parser (Rewindable τ) Token) fault ts seen mismatched stopped := by
  rintro tape ⟨r, journal⟩ ⟨hat, hend⟩
  cases ts with
  | nil =>
      cases fault with
      | none => simp at hend
      | some e =>
          obtain ⟨r', hpeek⟩ := Rewindable.peek_at_nil hat
          simp only [Parser.peek, take, TokenSupply.peek, hpeek]
          exact hstopped e rfl rfl
  | cons t rest =>
      obtain ⟨r', hpeek, hat', -, hsize, -⟩ := Rewindable.peek_at hat
      simp only [Parser.peek, take, TokenSupply.peek, hpeek]
      exact ⟨t :: rest, ⟨hat', hend⟩, hsize, hseen t rest rfl⟩

/-- The end of the stream is never accepted, so the tape goes on after what
is. -/
theorem accept (hf : ∀ t, t.kind = .endOfStream → f t = none)
    (hmatched : ∀ t rest a, ts = t :: rest → f t = some a → Q a rest)
    (hmismatched : ∀ t rest, ts = t :: rest → f t = none → mismatched)
    (hstopped : ∀ e, fault = some e → ts = [] → stopped (.fatal (.lexical e))) :
    Triple (Parser.accept f : Parser (Rewindable τ) α) fault ts Q mismatched stopped := by
  rintro tape ⟨r, journal⟩ ⟨hat, hend⟩
  change Ended _ _ _ _ _ _ (EStateM.bind next _ _)
  cases ts with
  | nil =>
      cases fault with
      | none => simp at hend
      | some e =>
          obtain ⟨r', hnext⟩ := Rewindable.next_at_nil hat
          simp only [EStateM.bind, next, take, TokenSupply.next, hnext]
          exact hstopped e rfl rfl
  | cons t rest =>
      obtain ⟨r', hnext, hat', hsize⟩ := Rewindable.next_at hat
      simp only [EStateM.bind, next, take, TokenSupply.next, hnext]
      cases hft : f t with
      | none => exact ⟨hat'.1, hsize, hmismatched t rest rfl hft⟩
      | some a =>
          refine ⟨rest, ⟨hat', ?_⟩, hsize, hmatched t rest a rfl hft⟩
          intro hfault
          obtain ⟨last, hlast, hkind⟩ := hend hfault
          rcases List.mem_cons.mp hlast with rfl | hlast
          · rw [hf last hkind] at hft
            cases hft
          · exact ⟨last, hlast, hkind⟩

end Triple

section Accepts

variable {σ : Type} [TokenSupply σ]

/-- A parser of one token, given by what it takes from the token. -/
structure Accepts (p : Parser σ α) (f : Token → Option α) : Prop where
  eq_accept : p = accept f
  not_end : ∀ t, t.kind = .endOfStream → f t = none

def ofKind? (kind : TokenKind) (t : Token) : Option Token :=
  if t.kind = kind then some t else none

def name? (t : Token) : Option (String × Location) :=
  match t.kind with
  | .identifier name => some (name, t.location)
  | _ => none

def contents? (t : Token) : Option (String × Location) :=
  match t.kind with
  | .string text => some (text, t.location)
  | _ => none

def placeOf? (name : String) (t : Token) : Option Location :=
  if t.kind = .identifier name then some t.location else none

theorem ofKind?_of_eq {kind : TokenKind} {t : Token} (h : t.kind = kind) :
    ofKind? kind t = some t := if_pos h

theorem ofKind?_of_ne {kind : TokenKind} {t : Token} (h : t.kind ≠ kind) :
    ofKind? kind t = none := if_neg h

theorem name?_of_eq {name : String} {t : Token} (h : t.kind = .identifier name) :
    name? t = some (name, t.location) := by
  rw [name?, h]

theorem name?_of_ne {t : Token} (h : ∀ name, t.kind ≠ .identifier name) : name? t = none := by
  unfold name?
  split
  · rename_i name hkind
    exact absurd hkind (h name)
  · rfl

theorem contents?_of_eq {text : String} {t : Token} (h : t.kind = .string text) :
    contents? t = some (text, t.location) := by
  rw [contents?, h]

theorem placeOf?_of_eq {name : String} {t : Token} (h : t.kind = .identifier name) :
    placeOf? name t = some t.location := if_pos h

theorem kind_of_ofKind? {kind : TokenKind} {t t' : Token} (h : ofKind? kind t = some t') :
    t.kind = kind := by
  unfold ofKind? at h
  split at h
  · assumption
  · cases h

theorem kind_of_name? {t : Token} {name : String} {location : Location}
    (h : name? t = some (name, location)) : t.kind = .identifier name := by
  unfold name? at h
  split at h
  · rename_i hkind
    cases h
    exact hkind
  · cases h

theorem kind_of_contents? {t : Token} {text : String} {location : Location}
    (h : contents? t = some (text, location)) : t.kind = .string text := by
  unfold contents? at h
  split at h
  · rename_i hkind
    cases h
    exact hkind
  · cases h

theorem kind_of_placeOf? {name : String} {t : Token} {location : Location}
    (h : placeOf? name t = some location) : t.kind = .identifier name := by
  unfold placeOf? at h
  split at h
  · assumption
  · cases h

theorem sameKind_eq_true_iff {kind other : TokenKind} (h : kind.payload = none) :
    other.sameKind kind = true ↔ other = kind := by
  cases kind with
  | identifier name => cases h
  | string text => cases h
  | _ => cases other <;> simp [TokenKind.sameKind]

theorem accepts_expect {kind : TokenKind} (h : kind.payload = none) (hend : kind ≠ .endOfStream) :
    Accepts (expect kind : Parser σ Token) (ofKind? kind) where
  eq_accept := by
    unfold expect accept
    congr 1
    funext token
    by_cases hkind : token.kind = kind
    · simp [ofKind?, hkind, sameKind_eq_true_iff h]
    · simp [ofKind?, hkind, sameKind_eq_true_iff h]
  not_end t ht := by
    rw [ofKind?, ht, if_neg hend.symm]

theorem accepts_identifier :
    Accepts (identifier : Parser σ (String × Location)) name? where
  eq_accept := by
    unfold identifier accept
    congr 1
    funext token
    rcases token with ⟨kind, location⟩
    cases kind with
    | _ => rfl
  not_end t ht := by rw [name?, ht]

theorem accepts_stringToken :
    Accepts (stringToken : Parser σ (String × Location)) contents? where
  eq_accept := by
    unfold stringToken accept
    congr 1
    funext token
    rcases token with ⟨kind, location⟩
    cases kind with
    | _ => rfl
  not_end t ht := by rw [contents?, ht]

theorem accepts_expectIdentifier (name : String) :
    Accepts (expectIdentifier name : Parser σ Location) (placeOf? name) where
  eq_accept := by
    unfold expectIdentifier accept
    congr 1
    funext token
    by_cases hkind : token.kind = .identifier name
    · simp [placeOf?, hkind]
    · simp [placeOf?, hkind]
  not_end t ht := by simp [placeOf?, ht]

theorem Accepts.map {p : Parser σ α} {f : Token → Option α} (hp : Accepts p f)
    (g : α → β) : Accepts (do return g (← p)) fun t => (f t).map g where
  eq_accept := by
    rw [hp.eq_accept]
    unfold accept
    rw [bind_assoc]
    congr 1
    funext t
    cases h : f t with
    | none =>
        simp only [h, Option.map_none]
        rfl
    | some a =>
        simp only [h, Option.map_some]
        rfl
  not_end t ht := by rw [hp.not_end t ht, Option.map_none]

end Accepts

namespace Triple

variable {p : Parser (Rewindable τ) α} {f : Token → Option α} {a : α}
  {g : α → Parser (Rewindable τ) β} {fault : Option LexError}
  {t : Token} {ts : List Token} {R : β → List Token → Prop} {mismatched : Prop}
  {stopped : Failure → Prop}

theorem one (hp : Accepts p f)
    (hstopped : ∀ e, fault = some e → ts = [] → stopped (.fatal (.lexical e))) :
    Triple p fault ts (fun a rest => ∃ t, ts = t :: rest ∧ f t = some a)
      (∃ t rest, ts = t :: rest ∧ f t = none) stopped := by
  rw [hp.eq_accept]
  refine accept hp.not_end ?_ ?_ hstopped
  · intro t rest a hts ha
    exact ⟨t, hts, ha⟩
  · intro t rest hts hnone
    exact ⟨t, rest, hts, hnone⟩

theorem one_cons (fault : Option LexError) (t : Token) (ts : List Token)
    (stopped : Failure → Prop) (hp : Accepts p f) :
    Triple p fault (t :: ts) (fun a rest => f t = some a ∧ rest = ts) (f t = none) stopped := by
  refine (one hp fun _ _ hts => by cases hts).mono ?_ ?_ fun _ => id
  · rintro a rest ⟨t', hts, ha⟩
    cases hts
    exact ⟨ha, rfl⟩
  · rintro ⟨t', rest, hts, hnone⟩
    cases hts
    exact hnone

theorem step (hp : Accepts p f) (ha : f t = some a)
    (h : Triple (g a) fault ts R mismatched stopped) :
    Triple (p >>= g) fault (t :: ts) R mismatched stopped := by
  have hone := one_cons fault t ts stopped hp
  refine bind (hone.mono (fun _ _ => id) (fun hnone => ?_) fun _ => id) ?_
  · rw [ha] at hnone
    cases hnone
  · rintro b rest ⟨hb, rfl⟩
    rw [ha] at hb
    cases hb
    exact h

theorem refuse (hp : Accepts p f) (ha : f t = none) (h : mismatched) :
    Triple (p >>= g) fault (t :: ts) R mismatched stopped := by
  have hone := one_cons fault t ts stopped hp
  refine bind (hone.mono (fun _ _ => id) (fun _ => h) fun _ => id) ?_
  rintro b rest ⟨hb, -⟩
  rw [ha] at hb
  cases hb

theorem read (hp : Accepts p f)
    (h : ∀ t rest a, ts = t :: rest → f t = some a →
      Triple (g a) fault rest R True fun _ => True) :
    Triple (p >>= g) fault ts R True fun _ => True := by
  have hone : Triple p fault ts (fun a rest => ∃ t, ts = t :: rest ∧ f t = some a) _
      fun _ => True :=
    one hp fun _ _ _ => trivial
  refine bind (hone.mono (fun _ _ => id) (fun _ => trivial) fun _ => id) ?_
  rintro b rest ⟨t, hts, hb⟩
  exact h t rest b hts hb

theorem here_bind {g : Location → Parser (Rewindable τ) β}
    (h : ∀ location, Triple (g location) fault ts R mismatched stopped)
    (hstopped : ∀ e, fault = some e → ts = [] → stopped (.fatal (.lexical e))) :
    Triple (here >>= g) fault ts R mismatched stopped := by
  refine bind (Q := fun _ rest => rest = ts) ?_ ?_
  · refine bind (Q := fun _ rest => rest = ts) (peek (fun _ _ _ => rfl) hstopped) ?_
    rintro t rest rfl
    exact pure rfl
  · rintro location rest rfl
    exact h location

end Triple

end BuildScript.Parser
