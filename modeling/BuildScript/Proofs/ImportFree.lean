import BuildScript.Proofs.ParallelLoading
import BuildScript.Proofs.Loading

namespace BuildScript

open BuildScript.Parser BuildScript.Derivation BuildScript.Grammar

namespace Journal

@[simp] theorem resolved_record (journal : Journal) (event : Event) :
    (journal.record event).resolved = journal.resolved ++ event.specifier?.toList := by
  rw [resolved, record, Array.toList_push, List.filterMap_append]
  cases h : event.specifier? <;> simp [resolved, h]

@[simp] theorem resolved_recordToken (journal : Journal) (token : Token) :
    (journal.recordToken token).resolved = journal.resolved := by
  unfold recordToken Event.ofToken?
  by_cases hend : token.isEnd = true
  · simp [hend]
  · simp [hend, Event.specifier?]

end Journal

section Unasked

variable {σ : Type} (asked : List String)

/-- Two readers that stand at the same place of the same tokens, where the
second has asked for no other imports than those given. The first stops where
the second would ask. -/
def unasked : Coupling σ σ where
  Ready s s' := s.supply = s'.supply ∧ s'.journal.resolved = asked
  Since _ _ t t' := t.supply = t'.supply ∧ t'.journal.resolved = asked
  Stop _ _ _ := True
  Seen _ := True
  Lenient := True

variable [TokenSupply σ]

theorem unasked_read (read : σ → Except LexError Token × σ) {s s' : ParserState σ}
    (hs : (unasked asked).Ready s s') :
    ReadAlike (unasked asked) s s' (take read s) (take read s') := by
  rcases s with ⟨supply, journal⟩
  rcases s' with ⟨supply', journal'⟩
  obtain ⟨hsupply, hasked⟩ := hs
  obtain rfl : supply = supply' := hsupply
  simp only [take]
  rcases read supply with ⟨answer, rest⟩
  cases answer with
  | ok token =>
      have hafter : (if TokenSupply.fetched supply < TokenSupply.fetched rest then
          journal'.recordToken token else journal').resolved = asked := by
        split
        · rw [Journal.resolved_recordToken]
          exact hasked
        · exact hasked
      exact .token trivial ⟨rfl, hafter⟩ fun _ => ⟨rfl, hafter⟩
  | error e => exact .fault trivial

theorem unasked_lawful : (unasked asked : Coupling σ σ).Lawful where
  refl hs := hs
  trans _ h := h
  wind {s s' t t'} hs h := by
    have hback : (back s t).supply = (back s' t').supply := by
      rw [back, back, hs.1, h.1]
    exact ⟨⟨hback, h.2⟩, hback, h.2⟩
  peek hs := (unasked_read asked TokenSupply.peek hs).agreed fun _ _ => id
  next hs := unasked_read asked TokenSupply.next hs
  exhausted _ := trivial
  leftover _ _ := trivial

end Unasked

/-- No import is spliced in: reading stops there. -/
def stopAtImport (_ : String) (_ : Location) : Parser (Rewindable Lexer) Node :=
  throw .exhausted

theorem stopAtImport_splices :
    Splices (fun _ => False) stopAtImport fun _ _ => False := by
  intro specifier location ts
  exact Triple.throw_exhausted (by simp)

variable {source : Source} {statements : List Statement}

theorem program_of_importFree (hderives : Derives source statements)
    (hpreferred : ∀ statement ∈ statements, statement.Preferred)
    (hnone : programSpecifiers statements = []) (journal : Journal) :
    ∃ node s, Grammar.program (Grammar.value stopAtImport source.budget) source.budget
        ⟨Rewindable.ofStream (Lexer.ofSource source), journal⟩ = .ok node s ∧
      ProgramHasTree (fun _ _ => False) statements node := by
  obtain ⟨tokens, htokens, hkinds⟩ := hderives
  have hscan := Source.tokenize_eq_ok_iff.mp htokens
  obtain ⟨used, rest, rfl, hused, hrest⟩ := List.map_eq_append_iff.mp hkinds.symm
  obtain ⟨last, rfl, hlast⟩ := List.map_eq_singleton_iff.mp hrest
  have hbudget := source.length_scan_lt
  have hstands := stands_ofSource source journal
  rw [hscan] at hbudget hstands
  have hended := program_runs stopAtImport_splices hpreferred hused ⟨last, [], rfl, hlast⟩
    hbudget _ _ hstands
  generalize Grammar.program (Grammar.value stopAtImport source.budget) source.budget
    ⟨Rewindable.ofStream (Lexer.ofSource source), journal⟩ = result at hended ⊢
  cases result with
  | ok node s =>
      obtain ⟨-, -, -, -, htree, -⟩ := hended
      exact ⟨node, s, rfl, htree⟩
  | error failure s =>
      cases failure with
      | mismatch token => exact hended.2.2.elim
      | fatal e => exact absurd (by simp [hnone]) hended
      | exhausted => exact absurd (by simp [hnone]) hended

/-- A program without imports is read whatever imports stand for, and none is
asked for. -/
theorem load_of_importFree (hderives : Derives source statements)
    (hpreferred : ∀ statement ∈ statements, statement.Preferred)
    (hnone : programSpecifiers statements = []) (resolve : String → Resolution) (depth : Nat)
    (journal : Journal) :
    ∃ node journal', load resolve (depth + 1) source journal = .ok node journal' ∧
      journal'.resolved = journal.resolved ∧
      ProgramHasTree (fun _ _ => False) statements node := by
  obtain ⟨node, s, hrun, htree⟩ := program_of_importFree hderives hpreferred hnone journal
  have hsplice : SpliceInStep (unasked journal.resolved) stopAtImport
      (splice resolve (load resolve depth)) :=
    fun _ _ _ s _ _ => .spent trivial s _
  have hagreed := inStep_program (unasked_lawful journal.resolved)
    (inStep_value (unasked_lawful journal.resolved) hsplice source.budget) source.budget
    ⟨Rewindable.ofStream (Lexer.ofSource source), journal⟩
    ⟨Rewindable.ofStream (Lexer.ofSource source), journal⟩ ⟨rfl, rfl⟩
  rw [hrun] at hagreed
  rw [load_succ, reading]
  generalize Grammar.program (Grammar.value (splice resolve (load resolve depth)) source.budget)
    source.budget ⟨Rewindable.ofStream (Lexer.ofSource source), journal⟩ = result at hagreed ⊢
  cases hagreed with
  | @matched _ _ t' _ ready _ => exact ⟨node, t'.journal, rfl, ready.2, htree⟩

theorem parse_of_importFree (hderives : Derives source statements)
    (hpreferred : ∀ statement ∈ statements, statement.Preferred)
    (hnone : programSpecifiers statements = []) (resolve : String → Resolution) (depth : Nat)
    (journal : Journal) :
    ∃ program, (parse resolve (depth + 1) source journal).1 = .ok program ∧
      (parse resolve (depth + 1) source journal).2.resolved = journal.resolved ∧
      ProgramHasTree (fun _ _ => False) statements program := by
  obtain ⟨program, journal', hload, hasked, htree⟩ := load_of_importFree hderives hpreferred hnone
    resolve depth (journal.record (.parsing source))
  refine ⟨program, ?_, ?_, htree⟩
  · rw [parse, hload]
  · rw [parse, hload]
    simp [hasked, Event.specifier?]

end BuildScript
