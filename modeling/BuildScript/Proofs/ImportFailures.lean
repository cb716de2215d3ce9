import BuildScript.Proofs.ParallelLoading
import BuildScript.Proofs.Loading

namespace BuildScript

open BuildScript.Parser BuildScript.Grammar

section Settled

variable (resolve : String → Resolution) (depth : Nat)

def IsLoaded (source : Source) : Prop :=
  ∃ node, LoadsTo resolve depth source (.ok node)

def IsLoadedOr (failure : Failure) (source : Source) : Prop :=
  IsLoaded resolve depth source ∨ LoadsTo resolve depth source (.error failure)

/-- An error is located in the source itself, or it is the error of a source
that was asked for. -/
def IsOwnOrAsked (source : Source) (journal : Journal) (e : ParseError) : Prop :=
  e.location.source = source ∨
    ∃ specifier, .resolvingImport specifier ∈ journal.events ∧
      resolve specifier = .program e.location.source ∧
      LoadsTo resolve depth e.location.source (.error (.fatal e))

/-- How the reading of a source ends with regard to the imports begun since a
journal. -/
def Settled (source : Source) (before : Journal) : Except Failure Node → Journal → Prop
  | .ok _, after => before.GoesOn (IsLoaded resolve depth) after
  | .error failure, after => failure ≠ .exhausted →
      before.GoesOn (IsLoadedOr resolve depth failure) after ∧
        ∀ e, failure = .fatal e →
          (∀ location, e ≠ .tooDeep location) ∧ IsOwnOrAsked resolve depth source after e

variable {resolve depth}

theorem Settled.mono {depth' : Nat} {source : Source} {before after : Journal}
    {result : Except Failure Node} (h : Settled resolve depth source before result after)
    (hdepth : depth ≤ depth') : Settled resolve depth' source before result after := by
  have hloaded (found : Source) : IsLoaded resolve depth found → IsLoaded resolve depth' found :=
    fun ⟨node, hnode⟩ => ⟨node, hnode.mono hdepth⟩
  cases result with
  | ok node => exact Journal.GoesOn.mono h hloaded
  | error failure =>
      intro hfailure
      obtain ⟨hgoes, he⟩ := h hfailure
      refine ⟨hgoes.mono fun found => ?_, fun e hfatal => ?_⟩
      · exact Or.imp (hloaded found) fun hfailed => hfailed.mono hdepth
      · refine (he e hfatal).imp id (Or.imp id ?_)
        rintro ⟨specifier, hasked, hresolve, hfailed⟩
        exact ⟨specifier, hasked, hresolve, hfailed.mono hdepth⟩

/-- An import that was begun ends as the loading of its source does. -/
theorem Settled.of_import {source found : Source} {before middle after : Journal}
    {specifier : String} {result : Except Failure Node}
    (hbefore : before.GoesOn (IsLoaded resolve depth) middle)
    (hresolve : resolve specifier = .program found)
    (houtcome : ∀ other, outcome (load resolve depth found other) = result)
    (h : Settled resolve depth found
      ((middle.record (.resolvingImport specifier)).record (.parsingImport found)) result after) :
    Settled resolve depth source before result after := by
  cases result with
  | ok node =>
      have hfound : IsLoaded resolve depth found := ⟨node, by simp, houtcome⟩
      have hbegun := (hbefore.record (.resolvingImport specifier) (by simp)).record
        (.parsingImport found) fun other hother => by cases hother; exact hfound
      exact hbegun.trans h
  | error failure =>
      intro hfailure
      obtain ⟨hgoes, he⟩ := h hfailure
      have hfound : LoadsTo resolve depth found (.error failure) :=
        ⟨by simpa using hfailure, houtcome⟩
      have hallowed : before.GoesOn (IsLoadedOr resolve depth failure) middle :=
        hbefore.mono fun _ => .inl
      have hbegun := (hallowed.record (.resolvingImport specifier) (by simp)).record
        (.parsingImport found) fun other hother => by cases hother; exact .inr hfound
      refine ⟨hbegun.trans hgoes, fun e hfatal => ?_⟩
      subst hfatal
      obtain ⟨hdeep, horigin⟩ := he e rfl
      refine ⟨hdeep, .inr ?_⟩
      rcases horigin with hown | hasked
      · refine ⟨specifier, hgoes.keeps _ ?_, ?_, ?_⟩
        · simp [Journal.record]
        · rw [hown, hresolve]
        · rw [hown]
          exact hfound
      · exact hasked

end Settled

section Coupled

variable (resolve : String → Resolution) (depth : Nat) (source : Source) (before : Journal)

/-- A reader of a source with itself. Its imports are settled whenever it may
read on, and also where it stops. -/
def settling : Coupling (Rewindable Lexer) (Rewindable Lexer) where
  Ready s s' := s = s' ∧ s.supply.Standing source.scan.1 source.scan.2 ∧
    before.GoesOn (IsLoaded resolve depth) s.journal
  Since s _ t t' := t = t' ∧ t.supply.OnTape source.scan.1 source.scan.2 ∧
    s.supply.buffer.size ≤ t.supply.buffer.size ∧
    before.GoesOn (IsLoaded resolve depth) t.journal
  Stop failure t _ := Settled resolve depth source before (.error failure) t.journal
  Seen token := token.location.source = source
  Lenient := False

variable {resolve depth source before}

theorem settled_own {after : Journal} (h : before.GoesOn (IsLoaded resolve depth) after)
    {e : ParseError} (he : e.location.source = source) (hdeep : ∀ location, e ≠ .tooDeep location) :
    Settled resolve depth source before (.error (.fatal e)) after := by
  refine fun _ => ⟨h.mono fun _ => .inl, fun e' he' => ?_⟩
  cases he'
  exact ⟨hdeep, .inl he⟩

theorem goesOn_taken {after : Journal} (h : before.GoesOn (IsLoaded resolve depth) after)
    (isNew : Prop) [Decidable isNew] (token : Token) :
    before.GoesOn (IsLoaded resolve depth)
      (if isNew then after.recordToken token else after) := by
  split
  · exact h.recordToken token
  · exact h

theorem settling_peek {s s' : ParserState (Rewindable Lexer)}
    (hs : (settling resolve depth source before).Ready s s') :
    Agreed (settling resolve depth source before) (settling resolve depth source before).Seen s s'
      (peek s) (peek s') := by
  obtain ⟨rfl, hstanding, hgoes⟩ := hs
  simp only [Parser.peek, take, TokenSupply.peek]
  rcases hstanding.peek with ⟨token, r, hsaw⟩ | ⟨e, hfault, -, r, hpeek⟩
  · rw [hsaw.peek_eq]
    refine .matched ?_ ⟨rfl, hsaw.standing, goesOn_taken hgoes _ token⟩
      ⟨rfl, hsaw.standing.1.1, hsaw.size_le, goesOn_taken hgoes _ token⟩
    exact Source.location_of_mem_scan (List.mem_of_getElem? hsaw.getElem?)
  · rw [hpeek]
    exact .stopped (by simp) (settled_own hgoes (Source.tokenize_of_fault hfault).1 (by simp))

theorem settling_next {s s' : ParserState (Rewindable Lexer)}
    (hs : (settling resolve depth source before).Ready s s') :
    ReadAlike (settling resolve depth source before) s s' (next s) (next s') := by
  obtain ⟨rfl, hstanding, hgoes⟩ := hs
  simp only [Parser.next, take, TokenSupply.next, Rewindable.next]
  rcases hstanding.peek with ⟨token, r, hsaw⟩ | ⟨e, hfault, -, r, hpeek⟩
  · rw [hsaw.peek_eq]
    refine .token ?_ ⟨rfl, hsaw.standing.1.1, hsaw.size_le, goesOn_taken hgoes _ token⟩
      fun hkind => ⟨rfl, hsaw.past hkind, goesOn_taken hgoes _ token⟩
    exact Source.location_of_mem_scan (List.mem_of_getElem? hsaw.getElem?)
  · rw [hpeek]
    exact .fault (settled_own hgoes (Source.tokenize_of_fault hfault).1 (by simp))

theorem settling_lawful : (settling resolve depth source before).Lawful where
  refl hs := ⟨hs.1, hs.2.1.1.1, Nat.le_refl _, hs.2.2⟩
  trans h h' := ⟨h'.1, h'.2.1, Nat.le_trans h.2.2.1 h'.2.2.1, h'.2.2.2⟩
  wind {s s' t t'} hs h := by
    obtain ⟨rfl, hstanding, -⟩ := hs
    obtain ⟨rfl, htape, hsize, hgoes⟩ := h
    exact ⟨⟨rfl, hstanding.rewind htape hsize, hgoes⟩, rfl, htape, hsize, hgoes⟩
  peek hs := settling_peek hs
  next hs := settling_next hs
  exhausted _ := fun h => absurd rfl h
  leftover hs hseen := settled_own hs.2.2 hseen (by simp)

theorem settling_splice
    (hload : ∀ found journal, Settled resolve depth found journal
      (outcome (load resolve depth found journal))
      (finalState (load resolve depth found journal))) :
    SpliceInStep (settling resolve depth source before) (splice resolve (load resolve depth))
      (splice resolve (load resolve depth)) := by
  rintro specifier token hseen s s' ⟨rfl, hstanding, hgoes⟩
  by_cases hresolved : ∃ found, resolve specifier = .program found
  · obtain ⟨found, hresolve⟩ := hresolved
    rw [splice_program hresolve]
    -- The nested reading has a stream of its own: of this one only the journal changes.
    generalize hjournal : (s.journal.record _).record _ = journal
    have hmismatch := (load_steady resolve depth).decides found journal
    have hsettled : Settled resolve depth source before
        (outcome (load resolve depth found journal))
        (finalState (load resolve depth found journal)) := by
      refine Settled.of_import hgoes hresolve (fun other => load_journal ..) ?_
      rw [hjournal]
      exact hload found journal
    generalize load resolve depth found journal = result at hmismatch hsettled ⊢
    cases result with
    | ok node after =>
        exact .matched trivial ⟨rfl, hstanding, hsettled⟩
          ⟨rfl, hstanding.1.1, Nat.le_refl _, hsettled⟩
    | error failure after =>
        refine .stopped (fun token hfailure => ?_) hsettled
        exact hmismatch token after (by rw [hfailure])
  · obtain ⟨e, he, hrun⟩ := splice_unresolved (not_exists.mp hresolved) token.location
    obtain ⟨journal, hrun, hasked⟩ := hrun _ (load resolve depth) s
    rw [hrun]
    have hgoes' := hgoes.trans (hasked.mono fun _ => False.elim)
    refine .stopped (by simp) ?_
    rcases he with rfl | rfl
    · exact settled_own hgoes' hseen (by simp)
    · exact settled_own hgoes' hseen (by simp)

theorem load_settled (resolve : String → Resolution) (depth : Nat) (source : Source)
    (journal : Journal) :
    Settled resolve depth source journal (outcome (load resolve depth source journal))
      (finalState (load resolve depth source journal)) := by
  induction depth generalizing source journal with
  | zero => exact fun h => absurd rfl h
  | succ depth ih =>
      have hsplice : SpliceInStep (settling resolve depth source journal)
          (splice resolve (load resolve depth)) (splice resolve (load resolve depth)) :=
        settling_splice ih
      have hready : (settling resolve depth source journal).Ready
          ⟨.ofStream (Lexer.ofSource source), journal⟩
            ⟨.ofStream (Lexer.ofSource source), journal⟩ :=
        ⟨rfl, stands_ofSource source journal, .refl journal⟩
      have hagreed := inStep_program settling_lawful
        (inStep_value settling_lawful hsplice source.budget) source.budget _ _ hready
      -- The imports are loaded one level down, where the depth was enough for them.
      refine Settled.mono ?_ (Nat.le_succ depth)
      rw [load_succ]
      change Agreed _ _ _ _ (reading resolve depth source _) (reading resolve depth source _)
        at hagreed
      generalize reading resolve depth source _ = result at hagreed ⊢
      cases hagreed with
      | matched _ ready => exact ready.2.2
      | mismatched token since => exact fun _ => ⟨since.2.2.2.mono fun _ => .inl, by simp⟩
      | stopped _ stop => exact stop
      | spent lenient => exact lenient.elim

end Coupled

/-- An error is what the source it is located in comes to, too. -/
theorem loadsTo_of_error {resolve : String → Resolution} {depth : Nat} {source : Source}
    {e : ParseError} (h : LoadsTo resolve depth source (.error (.fatal e))) :
    LoadsTo resolve depth e.location.source (.error (.fatal e)) := by
  have hsettled := load_settled resolve depth source {}
  rw [h.outcome_eq] at hsettled
  rcases ((hsettled (by simp)).2 e rfl).2 with hown | ⟨_, -, -, hasked⟩
  · rwa [hown]
  · exact hasked

end BuildScript
