import BuildScript.Proofs.AskedImports
import BuildScript.Proofs.PlacedLoading

namespace BuildScript

open BuildScript.Parser BuildScript.Derivation BuildScript.Grammar

variable {resolve : String → Resolution} {depth : Nat} {source : Source} {node : Node}
  {journal journal' : Journal} {trace : List String} {places : List (String × Nat)}

section Traces

theorem splicesAsking_of_load {inner : String → List String} {specifier : String} {found : Source}
    (hresolve : resolve specifier = .program found)
    (hload : ∀ journal, ∃ node journal', load resolve depth found journal = .ok node journal' ∧
      journal'.resolved = journal.resolved ++ inner specifier) :
    SplicesAsking inner (splice resolve (load resolve depth)) specifier := by
  intro location ts tape s hs
  rw [splice_program hresolve]
  obtain ⟨node, after, hok, hasked⟩ := hload
    ((s.journal.record (.resolvingImport specifier)).record (.parsingImport found))
  rw [hok]
  refine .matched hs ⟨hs.1.1, Nat.le_refl _, ?_⟩
  simp [hasked, Event.specifier?]

/-- A source with a trace is loaded, and asks for the trace. -/
theorem load_of_asksFor (h : AsksFor resolve depth source node trace places) (journal : Journal) :
    ∃ node' journal', load resolve depth source journal = .ok node' journal' ∧
      journal'.resolved = journal.resolved ++ trace := by
  induction depth generalizing source node trace places journal with
  | zero => cases h
  | succ depth ih =>
      obtain ⟨statements, inner, below, hderives, hpreferred, ⟨_, _, -, htrees⟩, rfl, -⟩ := h
      have hsplice : ∀ s ∈ programSpecifiers statements,
          SplicesAsking inner (splice resolve (load resolve depth)) s := by
        intro s hs
        obtain ⟨tree, found, hresolve, hasks⟩ :=
          included_of_mem_programSpecifiers htrees hpreferred s hs
        exact splicesAsking_of_load hresolve (ih hasks)
      obtain ⟨tokens, htokens, hkinds⟩ := hderives
      have hscan := Source.tokenize_eq_ok_iff.mp htokens
      obtain ⟨used, rest, rfl, hused, hrest⟩ := List.map_eq_append_iff.mp hkinds.symm
      obtain ⟨last, rfl, hlast⟩ := List.map_eq_singleton_iff.mp hrest
      have hbudget := source.length_scan_lt
      have hstands := stands_ofSource source journal
      rw [hscan] at hbudget hstands
      have hasked := program_asks hpreferred hsplice hused ⟨last, [], rfl, hlast⟩ hbudget
        _ _ hstands
      change Asked _ _ _ _ (reading resolve depth source _) at hasked
      rw [load_succ]
      generalize reading resolve depth source _ = result at hasked ⊢
      cases hasked with
      | @matched node t _ stands asked => exact ⟨node, _, rfl, asked.resolved⟩

theorem included_unique {specifier : String} {tree tree' : Node}
    (h : Included resolve (load resolve depth) specifier tree)
    (h' : Included resolve (load resolve depth) specifier tree') : tree = tree' := by
  obtain ⟨found, before, after, hresolve, hload⟩ := h
  obtain ⟨found', before', after', hresolve', hload'⟩ := h'
  rw [hresolve] at hresolve'
  cases hresolve'
  have hsame := load_journal resolve depth found before before'
  rw [hload, hload'] at hsame
  exact Except.ok.inj hsame

theorem exists_asksFor_of_load (h : load resolve depth source journal = .ok node journal') :
    ∃ trace places, AsksFor resolve depth source node trace places := by
  induction depth generalizing source node journal journal' with
  | zero => cases h
  | succ depth ih =>
      obtain ⟨statements, hderives, hpreferred, htree, -⟩ := exists_preferred_of_load h
      -- One trace for each specifier, since it is loaded as one tree only.
      have hinner : ∀ specifier, ∃ trace places, ∀ tree,
          Included resolve (load resolve depth) specifier tree →
            ∃ found, resolve specifier = .program found ∧
              AsksFor resolve depth found tree trace places := by
        intro specifier
        by_cases hloaded : ∃ tree, Included resolve (load resolve depth) specifier tree
        · obtain ⟨tree, htree⟩ := hloaded
          obtain ⟨found, before, after, hresolve, hload⟩ := id htree
          obtain ⟨trace, places, hasks⟩ := ih hload
          refine ⟨trace, places, fun tree' htree' => ⟨found, hresolve, ?_⟩⟩
          rwa [included_unique htree' htree]
        · exact ⟨[], [], fun tree htree => absurd ⟨tree, htree⟩ hloaded⟩
      choose inner below hasks using hinner
      exact ⟨_, _, statements, inner, below, hderives, hpreferred,
        htree.mono hasks, rfl, rfl⟩

/-- No two derivations of a source tell different traces. -/
theorem AsksFor.trace_eq {node' : Node} {trace' : List String} {places' : List (String × Nat)}
    (h : AsksFor resolve depth source node trace places)
    (h' : AsksFor resolve depth source node' trace' places') : trace = trace' := by
  obtain ⟨_, after, hload, hasked⟩ := load_of_asksFor h {}
  obtain ⟨_, after', hload', hasked'⟩ := load_of_asksFor h' {}
  rw [hload] at hload'
  cases hload'
  exact List.append_cancel_left (hasked.symm.trans hasked')

end Traces

def Event.begun? : Event → Option Source
  | .parsingImport source => some source
  | _ => none

namespace Journal

/-- The imported programs that were begun, in order and with repeats. -/
def begun (journal : Journal) : List Source :=
  journal.events.toList.filterMap Event.begun?

@[simp] theorem begun_record (journal : Journal) (event : Event) :
    (journal.record event).begun = journal.begun ++ event.begun?.toList := by
  rw [begun, record, Array.toList_push, List.filterMap_append]
  cases h : event.begun? <;> simp [begun, h]

@[simp] theorem begun_recordToken (journal : Journal) (token : Token) :
    (journal.recordToken token).begun = journal.begun := by
  unfold recordToken Event.ofToken?
  by_cases hend : token.isEnd = true
  · simp [hend]
  · simp [hend, Event.begun?]

/-- Since a journal just these names were asked for. Each stood for a program,
and just these programs were begun. -/
structure Answered (resolve : String → Resolution) (before after : Journal) (names : List String)
    (sources : List Source) : Prop where
  answers : List.Forall₂ (fun name found => resolve name = .program found) names sources
  resolved : after.resolved = before.resolved ++ names
  begun : after.begun = before.begun ++ sources

namespace Answered

variable {before middle after : Journal} {names names' : List String}
  {sources sources' : List Source}

theorem refl (journal : Journal) : Answered resolve journal journal [] [] :=
  ⟨.nil, (List.append_nil _).symm, (List.append_nil _).symm⟩

theorem trans (h : Answered resolve before middle names sources)
    (h' : Answered resolve middle after names' sources') :
    Answered resolve before after (names ++ names') (sources ++ sources') where
  answers := List.rel_append h.answers h'.answers
  resolved := by rw [h'.resolved, h.resolved, List.append_assoc]
  begun := by rw [h'.begun, h.begun, List.append_assoc]

theorem program {specifier : String} {found : Source}
    (hresolve : resolve specifier = .program found) (journal : Journal) :
    Answered resolve journal
      ((journal.record (.resolvingImport specifier)).record (.parsingImport found))
      [specifier] [found] where
  answers := .cons hresolve .nil
  resolved := by simp [Event.specifier?]
  begun := by simp [Event.begun?]

theorem recordToken (h : Answered resolve before after names sources) (token : Token) :
    Answered resolve before (after.recordToken token) names sources where
  answers := h.answers
  resolved := by rw [resolved_recordToken, h.resolved]
  begun := by rw [begun_recordToken, h.begun]

end Answered

end Journal

section Answers

variable (resolve)

/-- How the reading of a source ends with regard to the names asked for since a
journal: all were answered with programs, up to the one that an error is
about. -/
def AnsweredUntil (before : Journal) : Except Failure Node → Journal → Prop
  | .ok _, after => ∃ names sources, before.Answered resolve after names sources
  | .error failure, after => ∀ e specifier, failure = .fatal e → e.specifier? = some specifier →
      ∃ middle names sources, before.Answered resolve middle names sources ∧
        after.resolved = middle.resolved ++ [specifier] ∧ after.begun = middle.begun

/-- A reader with itself. All names were answered with programs as long as it
may read on. -/
def answering (σ : Type) (before : Journal) : Coupling σ σ where
  Ready s s' := s = s' ∧ ∃ names sources, before.Answered resolve s.journal names sources
  Since _ _ t t' := t = t' ∧ ∃ names sources, before.Answered resolve t.journal names sources
  Stop failure t _ := AnsweredUntil resolve before (.error failure) t.journal
  Seen _ := True
  Lenient := False

variable {resolve} {σ : Type} {before : Journal}

theorem AnsweredUntil.of_specifier {failure : Failure} {after : Journal}
    (h : ∀ e, failure = .fatal e → e.specifier? = none) :
    AnsweredUntil resolve before (.error failure) after := by
  intro e specifier he hspecifier
  rw [h e he] at hspecifier
  cases hspecifier

theorem AnsweredUntil.since {middle after : Journal} {names : List String} {sources : List Source}
    {result : Except Failure Node} (h : before.Answered resolve middle names sources)
    (h' : AnsweredUntil resolve middle result after) :
    AnsweredUntil resolve before result after := by
  cases result with
  | ok node =>
      obtain ⟨names', sources', h'⟩ := h'
      exact ⟨_, _, h.trans h'⟩
  | error failure =>
      intro e specifier he hspecifier
      obtain ⟨last, names', sources', h', hasked⟩ := h' e specifier he hspecifier
      exact ⟨last, _, _, h.trans h', hasked⟩

variable [TokenSupply σ]

theorem answering_read (read : σ → Except LexError Token × σ) {s s' : ParserState σ}
    (hs : (answering resolve σ before).Ready s s') :
    ReadAlike (answering resolve σ before) s s' (take read s) (take read s') := by
  rcases s with ⟨supply, journal⟩
  obtain ⟨rfl, names, sources, hanswered⟩ := hs
  simp only [take]
  rcases read supply with ⟨answer, rest⟩
  cases answer with
  | ok token =>
      have hafter : before.Answered resolve
          (if TokenSupply.fetched supply < TokenSupply.fetched rest then
            journal.recordToken token else journal) names sources := by
        split
        · exact hanswered.recordToken token
        · exact hanswered
      exact .token trivial ⟨rfl, _, _, hafter⟩ fun _ => ⟨rfl, _, _, hafter⟩
  | error e =>
      refine .fault (AnsweredUntil.of_specifier fun e' he => ?_)
      cases he
      rfl

theorem answering_lawful : (answering resolve σ before).Lawful where
  refl hs := hs
  trans _ h := h
  wind {s s' t t'} hs h := by
    obtain ⟨rfl, -⟩ := hs
    obtain ⟨rfl, hanswered⟩ := h
    exact ⟨⟨rfl, hanswered⟩, rfl, hanswered⟩
  peek hs := (answering_read TokenSupply.peek hs).agreed fun _ _ => id
  next hs := answering_read TokenSupply.next hs
  exhausted _ := AnsweredUntil.of_specifier fun _ he => nomatch he
  leftover _ _ := AnsweredUntil.of_specifier fun _ he => by cases he; rfl

theorem splice_refused {specifier : String} (h : ∀ found, resolve specifier ≠ .program found)
    (load : Loader) (location : Location) (s : ParserState σ) :
    ∃ e after, splice resolve load specifier location s = .error (.fatal e) ⟨s.supply, after⟩ ∧
      e.specifier? = some specifier ∧ after.resolved = s.journal.resolved ++ [specifier] ∧
      after.begun = s.journal.begun := by
  unfold splice
  cases hresolve : resolve specifier with
  | program found => exact absurd hresolve (h found)
  | external => exact ⟨_, _, rfl, rfl, by simp [Event.specifier?], by simp [Event.begun?]⟩
  | failed remark =>
      cases remark with
      | none => exact ⟨_, _, rfl, rfl, by simp [Event.specifier?], by simp [Event.begun?]⟩
      | some remark => exact ⟨_, _, rfl, rfl, by simp [Event.specifier?], by simp [Event.begun?]⟩

theorem answering_splice
    (hload : ∀ found journal, AnsweredUntil resolve journal
      (outcome (load resolve depth found journal))
      (finalState (load resolve depth found journal))) :
    SpliceInStep (answering resolve σ before) (splice resolve (load resolve depth))
      (splice resolve (load resolve depth)) := by
  rintro specifier token - s s' ⟨rfl, names, sources, hanswered⟩
  by_cases hresolved : ∃ found, resolve specifier = .program found
  · obtain ⟨found, hresolve⟩ := hresolved
    rw [splice_program hresolve]
    have hbegun := hanswered.trans (.program hresolve s.journal)
    generalize (s.journal.record _).record _ = journal at hbegun ⊢
    have hmismatch := (load_steady resolve depth).decides found journal
    have hafter := AnsweredUntil.since hbegun (hload found journal)
    generalize load resolve depth found journal = result at hmismatch hafter ⊢
    cases result with
    | ok node after => exact .matched trivial ⟨rfl, hafter⟩ ⟨rfl, hafter⟩
    | error failure after =>
        refine .stopped (fun token hfailure => ?_) hafter
        exact hmismatch token after (by rw [hfailure])
  · obtain ⟨e, after, hrun, he, hasked, hbegun⟩ :=
      splice_refused (not_exists.mp hresolved) (load resolve depth) token.location s
    rw [hrun]
    refine .stopped (by simp) ?_
    rintro e' specifier' ⟨rfl⟩ hspecifier
    obtain rfl : specifier = specifier' := Option.some.inj (he.symm.trans hspecifier)
    exact ⟨_, _, _, hanswered, hasked, hbegun⟩

theorem load_answered (resolve : String → Resolution) (depth : Nat) (source : Source)
    (journal : Journal) :
    AnsweredUntil resolve journal (outcome (load resolve depth source journal))
      (finalState (load resolve depth source journal)) := by
  induction depth generalizing source journal with
  | zero => exact AnsweredUntil.of_specifier fun _ he => nomatch he
  | succ depth ih =>
      have hsplice : SpliceInStep (answering resolve (Rewindable Lexer) journal)
          (splice resolve (load resolve depth)) (splice resolve (load resolve depth)) :=
        answering_splice ih
      have hready : (answering resolve (Rewindable Lexer) journal).Ready
          ⟨.ofStream (Lexer.ofSource source), journal⟩
          ⟨.ofStream (Lexer.ofSource source), journal⟩ :=
        ⟨rfl, [], [], .refl journal⟩
      have hagreed := inStep_program answering_lawful
        (inStep_value answering_lawful hsplice source.budget) source.budget _ _ hready
      rw [load_succ]
      change Agreed _ _ _ _ (reading resolve depth source _) (reading resolve depth source _)
        at hagreed
      generalize reading resolve depth source _ = result at hagreed ⊢
      cases hagreed with
      | matched _ ready => exact ready.2
      | mismatched => exact AnsweredUntil.of_specifier fun _ he => nomatch he
      | stopped _ stop => exact stop
      | spent lenient => exact lenient.elim

end Answers

section Places

/-- The tokens of an import of the specifier, with the first word at the
location. -/
def ImportStands (specifier : String) (location : Location) : Prop :=
  ∃ before word opening text closing after,
    location.source.scan.1 = before ++ word :: opening :: text :: closing :: after ∧
      word.location = location ∧ word.kind = .identifier "import" ∧ opening.kind = .parenOpen ∧
      text.kind = .string specifier ∧ closing.kind = .parenClose

/-- An error about a specifier tells how the resolver answered, and its place is
that of the import. -/
theorem import_of_load_error {e : ParseError} {specifier : String}
    (h : outcome (load resolve depth source journal) = .error (.fatal e))
    (hspecifier : e.specifier? = some specifier) :
    ImportStands specifier e.location ∧
      ((e = .importFailed specifier e.location ∧ ∃ remark, resolve specifier = .failed remark) ∨
        (e = .unknownImportType specifier e.location ∧ resolve specifier = .external)) := by
  induction depth generalizing source journal with
  | zero => cases h
  | succ depth ih =>
      cases load_blamed h with
      | leftover => cases hspecifier
      | inside hblamed =>
          cases hblamed with
          | lexical => cases hspecifier
          | @inclusion asked before after word opening text closing _ hscan hword hopening htext
              hclosing hhalts =>
              have hsource : word.location.source = source :=
                Source.location_of_mem_scan (by simp [hscan])
              have hstands : ImportStands asked word.location :=
                ⟨before, word, opening, text, closing, after, by rw [hsource, hscan], rfl, hword,
                  hopening, htext, hclosing⟩
              cases hhalts with
              | failed hresolve =>
                  cases hspecifier
                  exact ⟨hstands, .inl ⟨rfl, _, hresolve⟩⟩
              | external hresolve =>
                  cases hspecifier
                  exact ⟨hstands, .inr ⟨rfl, hresolve⟩⟩
              | within _ hload => exact ih (hload {})

end Places

/-- What is asked for is told by the syntax. A source that is parsed asks for
its trace, in order and with repeats. Every answer is a program, which is begun.
Each import is asked for twice for each comprehension body around it, whichever
source that is in. Where an import is in error, it is the last one that was asked
for, all answers before it were programs, and the error is located at its first
word. -/
theorem resolver_asked_for_trace (resolve : String → Resolution) (depth : Nat) (source : Source)
    (journal : Journal) :
    (∀ program, (parse resolve depth source journal).1 = .ok program →
      ∃ trace places sources, AsksFor resolve depth source program trace places ∧
        (∀ other trace' places', AsksFor resolve depth source other trace' places' →
          trace' = trace) ∧
        trace.Perm (repeated places) ∧
        List.Forall₂ (fun name found => resolve name = .program found) trace sources ∧
        (parse resolve depth source journal).2.resolved = journal.resolved ++ trace ∧
        (parse resolve depth source journal).2.begun = journal.begun ++ sources) ∧
    ∀ e specifier, (parse resolve depth source journal).1 = .error e →
      e.specifier? = some specifier →
      ∃ earlier sources,
        List.Forall₂ (fun name found => resolve name = .program found) earlier sources ∧
        (parse resolve depth source journal).2.resolved =
          journal.resolved ++ earlier ++ [specifier] ∧
        (parse resolve depth source journal).2.begun = journal.begun ++ sources ∧
        ImportStands specifier e.location ∧
        Relation.ReflTransGen (Imports resolve) e.location.source source ∧
        ((e = .importFailed specifier e.location ∧ ∃ remark, resolve specifier = .failed remark) ∨
          (e = .unknownImportType specifier e.location ∧ resolve specifier = .external)) := by
  have hanswered := load_answered resolve depth source (journal.record (.parsing source))
  refine ⟨fun program h => ?_, fun e specifier h hspecifier => ?_⟩
  · obtain ⟨after, hload⟩ := parse_eq_ok_iff.mp h
    obtain ⟨trace, places, hasks⟩ := exists_asksFor_of_load hload
    obtain ⟨_, _, hload', hasked⟩ := load_of_asksFor hasks (journal.record (.parsing source))
    rw [hload] at hload' hanswered
    cases hload'
    obtain ⟨names, sources, hanswers, hresolved, hbegun⟩ := hanswered
    obtain rfl : trace = names := List.append_cancel_left (hasked.symm.trans hresolved)
    refine ⟨trace, places, sources, hasks, fun _ _ _ hother => hother.trace_eq hasks,
      hasks.trace_perm, hanswers, ?_, ?_⟩
    · rw [parse, hload]
      simp [hasked, Event.specifier?]
    · rw [parse, hload]
      simpa [Event.begun?, finalState] using hbegun
  · have hload := (parse_eq_error h).resolve_right fun hdeep => by
      rw [hdeep.2] at hspecifier
      cases hspecifier
    obtain ⟨after, hrun⟩ := outcome_eq_error_iff.mp hload
    rw [hrun] at hanswered
    obtain ⟨middle, earlier, sources, ⟨hanswers, hresolved, hbegun⟩, hlast, hsame⟩ :=
      hanswered e specifier rfl hspecifier
    obtain ⟨hstands, hanswer⟩ := import_of_load_error hload hspecifier
    refine ⟨earlier, sources, hanswers, ?_, ?_, hstands, source_of_load_error hload, hanswer⟩
    · rw [parse, hrun]
      simp_all [Event.specifier?, finalState]
    · rw [parse, hrun]
      simp_all [Event.begun?, finalState]

def nestedImports : ImportTable :=
  ⟨[("lib", .program ⟨"lib", "z = [import(\"deep\") for j in w]", 1⟩),
    ("deep", .program ⟨"deep", "q = r", 2⟩)]⟩

/-- One import in the body of a comprehension, and three calls that are none. -/
def nestedSource : Source :=
  .ofText "import(\"no\") x = [[import(\"lib\") a.import(\"no\") import(\"no\" b)] for i in y]"

def failingSource : Source := .ofText "x = [import(\"gone\")]"

/-- Two comprehension bodies in two sources make four times. What only looks like
an import is not asked for. -/
theorem resolver_asked_for_trace_nested :
    (∃ program places, (parse nestedImports.resolve 3 nestedSource {}).1 = .ok program ∧
      AsksFor nestedImports.resolve 3 nestedSource program
        ["lib", "deep", "deep", "lib", "deep", "deep"] places ∧
      List.Perm ["lib", "deep", "deep", "lib", "deep", "deep"] (repeated places)) ∧
    (parse nestedImports.resolve 3 failingSource {}).1 =
      .error (.importFailed "gone" ⟨failingSource, ⟨5, 0, 1, 6⟩⟩) ∧
    ImportStands "gone" ⟨failingSource, ⟨5, 0, 1, 6⟩⟩ := by
  have hchecks : (match parse nestedImports.resolve 3 nestedSource {} with
      | (.ok _, journal) => journal.resolved == ["lib", "deep", "deep", "lib", "deep", "deep"]
      | (.error _, _) => false) = true := by decide +kernel
  have hfails : (match (parse nestedImports.resolve 3 failingSource {}).1 with
      | .ok _ => false
      | .error e => e == .importFailed "gone" ⟨failingSource, ⟨5, 0, 1, 6⟩⟩) = true := by
    decide +kernel
  obtain ⟨htraced, -⟩ := resolver_asked_for_trace nestedImports.resolve 3 nestedSource {}
  obtain ⟨-, hfailed⟩ := resolver_asked_for_trace nestedImports.resolve 3 failingSource {}
  refine ⟨?_, ?_⟩
  · generalize parse nestedImports.resolve 3 nestedSource {} = result at hchecks htraced ⊢
    rcases result with ⟨_ | program, journal⟩
    · cases hchecks
    · obtain ⟨trace, places, sources, hasks, -, hperm, -, htrace, -⟩ := htraced program rfl
      rw [beq_iff_eq.mp hchecks] at htrace
      obtain rfl : ["lib", "deep", "deep", "lib", "deep", "deep"] = trace := htrace
      exact ⟨program, places, rfl, hasks, hperm⟩
  · generalize (parse nestedImports.resolve 3 failingSource {}).1 = result at hfails hfailed ⊢
    cases result with
    | ok program => cases hfails
    | error e =>
        obtain rfl := beq_iff_eq.mp hfails
        obtain ⟨-, -, -, -, -, hstands, -⟩ := hfailed _ "gone" rfl rfl
        exact ⟨rfl, hstands⟩

end BuildScript
