import BuildScript.Proofs.Lockstep

namespace BuildScript

open BuildScript.Parser BuildScript.Grammar

def outcome {ε σ α : Type} : EStateM.Result ε σ α → Except ε α
  | .ok a _ => .ok a
  | .error e _ => .error e

def finalState {ε σ α : Type} : EStateM.Result ε σ α → σ
  | .ok _ s => s
  | .error _ s => s

theorem outcome_eq_ok_iff {ε σ α : Type} {result : EStateM.Result ε σ α} {a : α} :
    outcome result = .ok a ↔ ∃ s, result = .ok a s := by
  cases result with
  | ok b s => simp [outcome]
  | error e s => simp [outcome]

theorem outcome_eq_error_iff {ε σ α : Type} {result : EStateM.Result ε σ α} {e : ε} :
    outcome result = .error e ↔ ∃ s, result = .error e s := by
  cases result with
  | ok b s => simp [outcome]
  | error e s => simp [outcome]

theorem Parser.Agreed.outcome_eq {σ σ' α : Type} {C : Coupling σ σ'} {Q : α → Prop}
    {s : ParserState σ} {s' : ParserState σ'} {result : EStateM.Result Failure (ParserState σ) α}
    {result' : EStateM.Result Failure (ParserState σ') α} (h : Agreed C Q s s' result result') :
    (C.Lenient ∧ outcome result = .error .exhausted) ∨ outcome result = outcome result' := by
  cases h with
  | matched => exact .inr rfl
  | mismatched => exact .inr rfl
  | stopped => exact .inr rfl
  | spent lenient => exact .inl ⟨lenient, rfl⟩

namespace Parser

variable {σ α β : Type}

theorem bind_eq_ok {p : Parser σ α} {f : α → Parser σ β} {s t : ParserState σ}
    {b : β} (h : (p >>= f) s = .ok b t) : ∃ a u, p s = .ok a u ∧ f a u = .ok b t := by
  change EStateM.bind p f s = _ at h
  unfold EStateM.bind at h
  split at h
  · exact ⟨_, _, by assumption, h⟩
  · cases h

/-- A program that was read is located at the first token it saw, and the last
one was the end of the stream. -/
theorem program_eq_ok [TokenSupply σ] {value : Parser σ Node} {budget : Nat} {s t : ParserState σ}
    {node : Node} (h : Grammar.program value budget s = .ok node t) :
    ∃ first s₁ last s₂, peek s = .ok first s₁ ∧ node.location = first.location ∧
      peek s₂ = .ok last t ∧ last.kind = .endOfStream := by
  obtain ⟨location, s₁, hhere, h⟩ := bind_eq_ok h
  obtain ⟨first, s₁, hfirst, hlocation⟩ := bind_eq_ok hhere
  obtain ⟨statements, s₂, -, h⟩ := bind_eq_ok h
  obtain ⟨last, s₃, hlast, h⟩ := bind_eq_ok h
  cases hlocation
  split at h
  · rename_i hend
    cases h
    exact ⟨first, _, last, s₂, hfirst, rfl, hlast, by simpa [Token.isEnd] using hend⟩
  · cases h

def Decides (p : Parser σ α) : Prop :=
  ∀ s token t, p s ≠ .error (.mismatch token) t

namespace Decides

theorem pure (a : α) : Decides (Pure.pure a : Parser σ α) := by
  intro s token t h
  cases h

theorem bind {p : Parser σ α} {f : α → Parser σ β} (hp : Decides p) (hf : ∀ a, Decides (f a)) :
    Decides (p >>= f) := by
  intro s token t h
  change EStateM.bind p f s = _ at h
  unfold EStateM.bind at h
  split at h
  · exact hf _ _ token t h
  · rename_i hrun
    cases h
    exact hp s token t hrun

variable [TokenSupply σ]

theorem orElse {p : Parser σ α} {g : Token → Parser σ α} (hg : ∀ token, Decides (g token)) :
    Decides (Parser.orElse p g) := by
  intro s token t h
  unfold Parser.orElse at h
  split at h
  · exact hg _ _ token t h
  · rename_i hother
    exact hother _ _ _ h

theorem many (p : Parser σ α) (budget : Nat) : Decides (Parser.many p budget) := by
  induction budget with
  | zero =>
      intro s token t h
      cases h
  | succ budget ih =>
      refine bind (orElse fun _ => pure none) fun found => ?_
      cases found with
      | none => exact pure []
      | some a => exact bind ih fun _ => pure _

theorem peek : Decides (Parser.peek : Parser σ Token) := by
  rintro ⟨supply, journal⟩ token t h
  simp only [Parser.peek, take] at h
  split at h
  · cases h
  · cases h

theorem program (value : Parser σ Node) (budget : Nat) :
    Decides (Grammar.program value budget) := by
  refine bind (bind peek fun _ => pure _) fun _ => bind (many _ budget) fun _ => ?_
  refine bind peek fun token => ?_
  split
  · exact pure _
  · intro s token t h
    cases h

end Decides

end Parser

namespace Journal

/-- A journal that goes on from another one. Of the imports begun since then,
each has ended in a way that is allowed. -/
structure GoesOn (before : Journal) (ended : Source → Prop) (after : Journal) : Prop where
  keeps : ∀ event ∈ before.events, event ∈ after.events
  imports : ∀ source, .parsingImport source ∈ after.events →
    .parsingImport source ∈ before.events ∨ ended source

namespace GoesOn

variable {before middle after : Journal} {ended ended' : Source → Prop}

theorem refl (journal : Journal) : GoesOn journal ended journal :=
  ⟨fun _ => id, fun _ => .inl⟩

theorem mono (h : GoesOn before ended after) (hended : ∀ source, ended source → ended' source) :
    GoesOn before ended' after :=
  ⟨h.keeps, fun source hsource => (h.imports source hsource).imp id (hended source)⟩

theorem trans (h : GoesOn before ended middle) (h' : GoesOn middle ended after) :
    GoesOn before ended after := by
  constructor
  · exact fun event hevent => h'.keeps event (h.keeps event hevent)
  · intro source hsource
    rcases h'.imports source hsource with hmiddle | hended
    · exact h.imports source hmiddle
    · exact .inr hended

theorem record (h : GoesOn before ended after) (event : Event)
    (hevent : ∀ source, event = .parsingImport source → ended source) :
    GoesOn before ended (after.record event) := by
  constructor
  · exact fun earlier hearlier => Array.mem_push_of_mem event (h.keeps earlier hearlier)
  · intro source hsource
    rcases Array.mem_push.mp hsource with hearlier | hlast
    · exact h.imports source hearlier
    · exact .inr (hevent source hlast.symm)

theorem recordToken (h : GoesOn before ended after) (token : Token) :
    GoesOn before ended (after.recordToken token) := by
  unfold Journal.recordToken Event.ofToken?
  split
  · rename_i event hevent
    refine h.record event ?_
    rintro source rfl
    split at hevent
    · cases hevent
    · cases hevent
  · exact h

end GoesOn

end Journal

section Splice

variable {σ : Type} [TokenSupply σ] {resolve : String → Resolution} {specifier : String}
  {source : Source}

theorem splice_program (h : resolve specifier = .program source) (load : Loader)
    (location : Location) (s : ParserState σ) :
    splice resolve load specifier location s =
      match load source ((s.journal.record (.resolvingImport specifier)).record
        (.parsingImport source)) with
      | .ok node journal => .ok node ⟨s.supply, journal⟩
      | .error failure journal => .error failure ⟨s.supply, journal⟩ := by
  unfold splice
  rw [h]
  rfl

/-- An import without a program stops the reading, in the same way for every
reader, and no import is begun. -/
theorem splice_unresolved (h : ∀ source, resolve specifier ≠ .program source)
    (location : Location) :
    ∃ e, (e = .importFailed specifier location ∨ e = .unknownImportType specifier location) ∧
      ∀ (σ : Type) [TokenSupply σ] (load : Loader) (s : ParserState σ), ∃ journal,
        splice resolve load specifier location s = .error (.fatal e) ⟨s.supply, journal⟩ ∧
        s.journal.GoesOn (fun _ => False) journal := by
  have hasked (journal : Journal) :
      journal.GoesOn (fun _ => False) (journal.record (.resolvingImport specifier)) :=
    (Journal.GoesOn.refl journal).record _ (by simp)
  cases hresolve : resolve specifier with
  | program source => exact absurd hresolve (h source)
  | external =>
      refine ⟨.unknownImportType specifier location, .inr rfl, fun σ _ load s => ?_⟩
      refine ⟨_, ?_, hasked s.journal⟩
      unfold splice
      rw [hresolve]
      rfl
  | failed remark =>
      refine ⟨.importFailed specifier location, .inl rfl, fun σ _ load s => ?_⟩
      cases remark with
      | none =>
          refine ⟨_, ?_, hasked s.journal⟩
          unfold splice
          rw [hresolve]
          rfl
      | some remark =>
          refine ⟨_, ?_, (hasked s.journal).record (.importRemark remark) (by simp)⟩
          unfold splice
          rw [hresolve]
          rfl

end Splice

section Runs

variable {σ : Type} [TokenSupply σ]

/-- The run that loading a source comes to, with the state it ends in. Imports
may nest `depth` deep below the source. -/
def runWith (supply : Source → σ) (resolve : String → Resolution) (depth : Nat) (source : Source)
    (journal : Journal) : EStateM.Result Failure (ParserState σ) Node :=
  Grammar.program (Grammar.value (splice resolve (loadWith supply resolve depth)) source.budget)
    source.budget ⟨supply source, journal⟩

theorem loadWith_succ (supply : Source → σ) (resolve : String → Resolution) (depth : Nat)
    (source : Source) (journal : Journal) :
    loadWith supply resolve (depth + 1) source journal =
      match runWith supply resolve depth source journal with
      | .ok node s => .ok node s.journal
      | .error failure s => .error failure s.journal := rfl

theorem outcome_loadWith_succ (supply : Source → σ) (resolve : String → Resolution) (depth : Nat)
    (source : Source) (journal : Journal) :
    outcome (loadWith supply resolve (depth + 1) source journal) =
      outcome (runWith supply resolve depth source journal) := by
  rw [loadWith_succ]
  cases runWith supply resolve depth source journal with
  | ok node s => rfl
  | error failure s => rfl

theorem loadWith_decides (supply : Source → σ) (resolve : String → Resolution) (depth : Nat)
    (source : Source) (journal : Journal) (token : Token) :
    outcome (loadWith supply resolve depth source journal) ≠ .error (.mismatch token) := by
  intro h
  cases depth with
  | zero => cases h
  | succ depth =>
      rw [outcome_loadWith_succ] at h
      obtain ⟨s, hrun⟩ := outcome_eq_error_iff.mp h
      exact Decides.program _ _ _ token s hrun

end Runs

/-- What loading came to, as it is reported for a source. -/
def reported (source : Source) (result : Except Failure Node) : Except ParseError Node :=
  result.mapError (Failure.toError source)

theorem parse_fst (resolve : String → Resolution) (depth : Nat) (source : Source)
    (journal : Journal) :
    (parse resolve depth source journal).1 =
      reported source (outcome (load resolve depth source (journal.record (.parsing source)))) := by
  unfold parse
  cases load resolve depth source (journal.record (.parsing source)) with
  | ok node after => rfl
  | error failure after => rfl

theorem reported_eq_ok {source : Source} {result : Except Failure Node} {node : Node} :
    reported source result = .ok node ↔ result = .ok node := by
  cases result with
  | ok found => simp [reported, Except.mapError]
  | error failure => simp [reported, Except.mapError]

/-- An error of the parser is one that stopped the reading, or the depth was not
enough. -/
theorem parse_eq_error {resolve : String → Resolution} {depth : Nat} {source : Source}
    {journal : Journal} {e : ParseError} (h : (parse resolve depth source journal).1 = .error e) :
    outcome (load resolve depth source (journal.record (.parsing source))) = .error (.fatal e) ∨
      outcome (load resolve depth source (journal.record (.parsing source))) =
        .error .exhausted ∧ e = .tooDeep (.startOf source) := by
  have hdecides := loadWith_decides (fun source => Rewindable.ofStream (Lexer.ofSource source))
    resolve depth source (journal.record (.parsing source))
  rw [parse_fst] at h
  change ∀ token, outcome (load _ _ _ _) ≠ _ at hdecides
  generalize outcome (load _ _ _ _) = result at h hdecides ⊢
  cases result with
  | ok node => cases h
  | error failure =>
      cases failure with
      | mismatch token => exact absurd rfl (hdecides token)
      | fatal e' =>
          cases h
          exact .inl rfl
      | exhausted =>
          cases h
          exact .inr ⟨rfl, rfl⟩

section Coupled

variable {σ σ' : Type} {C : Coupling σ σ'} {resolve : String → Resolution}

/-- A coupling that says nothing about journals, under which both readers may
stop at an import. -/
structure Parser.Coupling.Splices (C : Coupling σ σ') : Prop where
  journals : ∀ {s s'}, C.Ready s s' → ∀ journal journal',
    C.Ready ⟨s.supply, journal⟩ ⟨s'.supply, journal'⟩ ∧
      C.Since s s' ⟨s.supply, journal⟩ ⟨s'.supply, journal'⟩
  failed : ∀ {s s'}, C.Ready s s' → ∀ specifier location,
    C.Stop (.fatal (.importFailed specifier location)) s s'
  external : ∀ {s s'}, C.Ready s s' → ∀ specifier location,
    C.Stop (.fatal (.unknownImportType specifier location)) s s'

def LoadedAlike (C : Coupling σ σ') (result result' : Except Failure Node) : Prop :=
  (C.Lenient ∧ result = .error .exhausted) ∨
    (result = result' ∧ ∀ failure, result = .error failure → ∀ s s', C.Ready s s' →
      C.Stop failure s s')

variable [TokenSupply σ] [TokenSupply σ'] {load load' : Loader}

theorem spliceInStep (hsplices : C.Splices)
    (hload : ∀ specifier source, resolve specifier = .program source → ∀ journal journal',
      LoadedAlike C (outcome (load source journal)) (outcome (load' source journal')))
    (hdecides : ∀ source journal token, outcome (load source journal) ≠ .error (.mismatch token)) :
    SpliceInStep C (splice resolve load) (splice resolve load') := by
  intro specifier token _ s s' hs
  by_cases hresolved : ∃ source, resolve specifier = .program source
  · obtain ⟨source, hsource⟩ := hresolved
    rw [splice_program hsource, splice_program hsource]
    generalize (s.journal.record _).record _ = journal
    generalize (s'.journal.record _).record _ = journal'
    have halike := hload specifier source hsource journal journal'
    have hmismatch := hdecides source journal
    generalize load source journal = result at halike hmismatch ⊢
    generalize load' source journal' = result' at halike ⊢
    rcases halike with ⟨hlenient, hspent⟩ | ⟨hsame, hstop⟩
    · obtain ⟨after, rfl⟩ := outcome_eq_error_iff.mp hspent
      exact .spent hlenient _ _
    · cases result with
      | ok node after =>
          obtain ⟨after', rfl⟩ := outcome_eq_ok_iff.mp hsame.symm
          obtain ⟨hready, hsince⟩ := hsplices.journals hs after after'
          exact .matched trivial hready hsince
      | error failure after =>
          obtain ⟨after', rfl⟩ := outcome_eq_error_iff.mp hsame.symm
          have hready := (hsplices.journals hs after after').1
          refine .stopped (fun token hfailure => ?_) (hstop failure rfl _ _ hready)
          exact hmismatch token (by rw [hfailure]; rfl)
  · obtain ⟨e, he, hrun⟩ := splice_unresolved (not_exists.mp hresolved) token.location
    obtain ⟨journal, hrun₁, -⟩ := hrun σ load s
    obtain ⟨journal', hrun₂, -⟩ := hrun σ' load' s'
    rw [hrun₁, hrun₂]
    have hready := (hsplices.journals hs journal journal').1
    refine .stopped (by simp) ?_
    rcases he with rfl | rfl
    · exact hsplices.failed hready _ _
    · exact hsplices.external hready _ _

end Coupled

section Determinacy

variable {σ : Type}

/-- Two readers that stand at the same place of the same tokens. Nothing is
said about their journals. -/
def sameTokens (σ : Type) (lenient : Prop) : Coupling σ σ where
  Ready s s' := s.supply = s'.supply
  Since _ _ t t' := t.supply = t'.supply
  Stop _ _ _ := True
  Seen _ := True
  Lenient := lenient

variable {lenient : Prop}

theorem sameTokens_splices : (sameTokens σ lenient).Splices where
  journals hs _ _ := ⟨hs, hs⟩
  failed _ _ _ := trivial
  external _ _ _ := trivial

variable [TokenSupply σ]

theorem sameTokens_read (read : σ → Except LexError Token × σ) (s s' : ParserState σ)
    (hs : s.supply = s'.supply) :
    ReadAlike (sameTokens σ lenient) s s' (take read s) (take read s') := by
  rcases s with ⟨supply, journal⟩
  rcases s' with ⟨supply', journal'⟩
  obtain rfl : supply = supply' := hs
  simp only [take]
  rcases read supply with ⟨answer, supply'⟩
  cases answer with
  | ok token => exact .token trivial rfl fun _ => rfl
  | error e => exact .fault trivial

theorem sameTokens_lawful : (sameTokens σ lenient).Lawful where
  refl hs := hs
  trans _ h := h
  wind {s s' t t'} hs h := by
    have hback : (back s t).supply = (back s' t').supply := by
      rw [back, back, show s.supply = s'.supply from hs, show t.supply = t'.supply from h]
    exact ⟨hback, hback⟩
  peek {s s'} hs := (sameTokens_read TokenSupply.peek s s' hs).agreed fun _ _ => id
  next {s s'} hs := sameTokens_read TokenSupply.next s s' hs
  exhausted _ := trivial
  leftover _ _ := trivial

variable (supply : Source → σ) (resolve : String → Resolution) {depth depth' : Nat}

theorem outcome_succ_alike (lenient : Prop) {source : Source}
    (hload : ∀ specifier found, resolve specifier = .program found → ∀ journal journal',
      LoadedAlike (sameTokens σ lenient) (outcome (loadWith supply resolve depth found journal))
        (outcome (loadWith supply resolve depth' found journal'))) (journal journal' : Journal) :
    (lenient ∧ outcome (loadWith supply resolve (depth + 1) source journal) = .error .exhausted) ∨
      outcome (loadWith supply resolve (depth + 1) source journal) =
        outcome (loadWith supply resolve (depth' + 1) source journal') := by
  have hsplice : SpliceInStep (sameTokens σ lenient)
      (splice resolve (loadWith supply resolve depth))
      (splice resolve (loadWith supply resolve depth')) :=
    spliceInStep sameTokens_splices hload (loadWith_decides supply resolve depth)
  have hvalue := inStep_value sameTokens_lawful hsplice source.budget
  have hagreed := inStep_program sameTokens_lawful hvalue source.budget
    ⟨supply source, journal⟩ ⟨supply source, journal'⟩ rfl
  rw [outcome_loadWith_succ, outcome_loadWith_succ]
  exact hagreed.outcome_eq

/-- A depth that is enough for a source is as good as any greater one. -/
theorem loadWith_stable (hdepth : depth ≤ depth') (source : Source) (journal journal' : Journal) :
    outcome (loadWith supply resolve depth source journal) = .error .exhausted ∨
      outcome (loadWith supply resolve depth source journal) =
        outcome (loadWith supply resolve depth' source journal') := by
  induction depth generalizing depth' source journal journal' with
  | zero => exact .inl rfl
  | succ depth ih =>
      obtain ⟨depth', rfl⟩ := Nat.exists_eq_add_of_lt hdepth
      -- What was exhausted one level down may only make the first run exhausted too.
      refine (outcome_succ_alike supply resolve True (fun _ found _ before after => ?_)
        journal journal').imp And.right id
      rcases ih (Nat.le_add_right depth depth') found before after with hspent | hsame
      · exact .inl ⟨trivial, hspent⟩
      · exact .inr ⟨hsame, fun _ _ _ _ _ => trivial⟩

/-- The journal has no part in what loading comes to. -/
theorem loadWith_journal (depth : Nat) (source : Source) (journal journal' : Journal) :
    outcome (loadWith supply resolve depth source journal) =
      outcome (loadWith supply resolve depth source journal') := by
  have hle := Nat.le_refl depth
  rcases loadWith_stable supply resolve hle source journal journal' with hspent | hsame
  · rcases loadWith_stable supply resolve hle source journal' journal with hspent' | hsame
    · rw [hspent, hspent']
    · exact hsame.symm
  · exact hsame

end Determinacy

section Load

variable (resolve : String → Resolution) {depth depth' : Nat}

theorem load_stable (hdepth : depth ≤ depth') (source : Source) (journal journal' : Journal) :
    outcome (load resolve depth source journal) = .error .exhausted ∨
      outcome (load resolve depth source journal) =
        outcome (load resolve depth' source journal') :=
  loadWith_stable _ resolve hdepth source journal journal'

theorem load_journal (depth : Nat) (source : Source) (journal journal' : Journal) :
    outcome (load resolve depth source journal) =
      outcome (load resolve depth source journal') :=
  loadWith_journal _ resolve depth source journal journal'

variable {resolve} {source : Source} {result : Except Failure Node}

/-- Loading comes to the result, whatever the journal, and the depth was
enough for it. -/
structure LoadsTo (resolve : String → Resolution) (depth : Nat) (source : Source)
    (result : Except Failure Node) : Prop where
  finished : result ≠ .error .exhausted
  outcome_eq : ∀ journal, outcome (load resolve depth source journal) = result

theorem loadsTo_of_outcome {journal : Journal}
    (h : outcome (load resolve depth source journal) = result)
    (hfinished : result ≠ .error .exhausted) : LoadsTo resolve depth source result :=
  ⟨hfinished, fun other => (load_journal resolve depth source other journal).trans h⟩

theorem LoadsTo.mono (h : LoadsTo resolve depth source result) (hdepth : depth ≤ depth') :
    LoadsTo resolve depth' source result := by
  refine ⟨h.finished, fun journal => ?_⟩
  rcases load_stable resolve hdepth source journal journal with hspent | hsame
  · exact absurd ((h.outcome_eq journal).symm.trans hspent) h.finished
  · exact hsame.symm.trans (h.outcome_eq journal)

theorem LoadsTo.parse_eq (h : LoadsTo resolve depth source result) (journal : Journal) :
    (parse resolve depth source journal).1 = reported source result := by
  rw [parse_fst, h.outcome_eq]

end Load

end BuildScript
