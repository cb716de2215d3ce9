import BuildScript.Proofs.ProgramRun
import BuildScript.Parsing.Program

namespace BuildScript

open BuildScript.Parser BuildScript.Derivation BuildScript.Grammar

/-- An import of the specifier is loaded, whatever the journal. -/
def Available (resolve : String → Resolution) (load : Loader) (specifier : String) : Prop :=
  ∃ source, resolve specifier = .program source ∧
    ∀ journal, ∃ node journal', load source journal = .ok node journal'

/-- A tree that an import of the specifier is loaded as. -/
def Included (resolve : String → Resolution) (load : Loader) (specifier : String) (node : Node) :
    Prop :=
  ∃ source journal journal', resolve specifier = .program source ∧
    load source journal = .ok node journal'

/-- A loader whose failures let nothing else be tried, and that loads a source
whatever the journal, if it ever does. -/
structure Loader.Steady (load : Loader) : Prop where
  decides : ∀ source journal token journal',
    load source journal ≠ .error (.mismatch token) journal'
  always : ∀ source journal node journal', load source journal = .ok node journal' →
    ∀ other, ∃ node' other', load source other = .ok node' other'

section Splice

variable {τ : Type} [TokenStream τ] {resolve : String → Resolution} {load : Loader} {α : Type}

theorem record_bind {fault : Option LexError} {ts : List Token} {e : Event}
    {p : Parser (Rewindable τ) α} {Q : α → List Token → Prop} {mismatched : Prop}
    {stopped : Failure → Prop} (h : Triple p fault ts Q mismatched stopped) :
    Triple (Parser.record e >>= fun _ => p) fault ts Q mismatched stopped :=
  fun tape s hs => h tape ⟨s.supply, s.journal.record e⟩ hs

theorem splice_triple {specifier : String} {location : Location} {fault : Option LexError}
    {ts : List Token} {Q : Node → Prop} {mismatched : Prop} {stopped : Failure → Prop}
    (hok : ∀ source journal node journal', resolve specifier = .program source →
      load source journal = .ok node journal' → Q node)
    (hmismatch : ∀ source journal token journal', resolve specifier = .program source →
      load source journal = .error (.mismatch token) journal' → mismatched)
    (hstop : ∀ source journal failure journal', resolve specifier = .program source →
      load source journal = .error failure journal' → stopped failure)
    (hunresolved : ∀ e, (∀ source, resolve specifier ≠ .program source) → stopped (.fatal e)) :
    Triple (splice resolve load specifier location : Parser (Rewindable τ) Node) fault ts
      (fun node rest => rest = ts ∧ Q node) mismatched stopped := by
  unfold splice
  refine record_bind ?_
  cases hresolve : resolve specifier with
  | program source =>
      refine record_bind ?_
      rintro tape ⟨supply, journal⟩ hs
      dsimp only
      cases hload : load source journal with
      | ok node journal' =>
          exact ⟨ts, hs, Nat.le_refl _, rfl, hok _ _ _ _ hresolve hload⟩
      | error failure journal' =>
          cases failure with
          | mismatch token =>
              exact ⟨hs.1.1, Nat.le_refl _, hmismatch _ _ _ _ hresolve hload⟩
          | fatal e => exact hstop _ _ _ _ hresolve hload
          | exhausted => exact hstop _ _ _ _ hresolve hload
  | external => exact Triple.throw_fatal (hunresolved _ (by simp [hresolve]))
  | failed remark =>
      cases remark with
      | none => exact Triple.throw_fatal (hunresolved _ (by simp [hresolve]))
      | some remark =>
          exact record_bind (Triple.throw_fatal (hunresolved _ (by simp [hresolve])))

theorem splice_readsNothing :
    ReadsNothing (splice resolve load : String → Location → Parser (Rewindable τ) Node) := by
  intro specifier location fault ts
  refine (splice_triple (Q := fun _ => True) ?_ ?_ ?_ ?_).mono (fun _ _ h => h.1) id
    fun _ => id
  · exact fun _ _ _ _ _ _ => trivial
  · exact fun _ _ _ _ _ _ => trivial
  · exact fun _ _ _ _ _ _ => trivial
  · exact fun _ _ => trivial

theorem splice_splices (hload : load.Steady) :
    Splices (Available resolve load)
      (splice resolve load : String → Location → Parser (Rewindable τ) Node)
      (Included resolve load) := by
  intro specifier location ts
  refine (splice_triple (Q := fun node => Included resolve load specifier node ∧
    Available resolve load specifier) ?_ ?_ ?_ ?_).mono ?_ id fun _ => id
  · intro source journal node journal' hresolve hok
    exact ⟨⟨source, journal, journal', hresolve, hok⟩,
      source, hresolve, hload.always source journal node journal' hok⟩
  · intro source journal token journal' _ hmismatch
    exact hload.decides source journal token journal' hmismatch
  · intro source journal failure journal' hresolve herror hall
    obtain ⟨source', hresolve', hok⟩ := hall specifier (List.mem_singleton_self _)
    obtain rfl : source = source' := by simpa [hresolve] using hresolve'
    obtain ⟨node, journal'', hok⟩ := hok journal
    rw [herror] at hok
    cases hok
  · intro e hunresolved hall
    obtain ⟨source, hresolve, -⟩ := hall specifier (List.mem_singleton_self _)
    exact hunresolved source hresolve
  · rintro node rest ⟨hrest, hnode, havailable⟩
    exact ⟨hrest, hnode, by simpa using havailable⟩

end Splice

def Derives (source : Source) (statements : List Statement) : Prop :=
  ∃ tokens, source.tokenize = .ok tokens ∧ programKinds statements = tokens.map Token.kind

theorem stands_ofSource (source : Source) (journal : Journal) :
    Stands source.scan.1 source.scan.2 source.scan.1
      ⟨Rewindable.ofStream (Lexer.ofSource source), journal⟩ := by
  refine ⟨Rewindable.at_ofStream source.pulls_scan, fun hfault => ?_⟩
  obtain ⟨others, last, htokens, hkind, -⟩ :=
    Source.tokenize_eq_append (Source.tokenize_eq_ok_iff.mpr (Prod.ext rfl hfault))
  exact ⟨last, by simp [htokens], hkind⟩

theorem derives_of_spans {source : Source} {statements : List Statement} {last : Token}
    {others : List Token} (hlast : last.kind = .endOfStream)
    (hspans : Spans (statementKinds statements) source.scan.1 (last :: others)) :
    Derives source statements := by
  obtain ⟨before, ending, hscan, hbefore, hending⟩ := List.map_eq_append_iff.mp hspans
  obtain ⟨final, after, rfl, hfinal, hafter⟩ := List.map_eq_cons_iff.mp hending
  obtain ⟨htokenize, rfl⟩ := Source.tokenize_of_end hscan (hfinal.trans hlast)
  refine ⟨before ++ [final], htokenize, ?_⟩
  rw [programKinds, List.map_append, hbefore, List.map_singleton, hfinal, hlast]

section Load

variable {resolve : String → Resolution} {depth : Nat} {source : Source}

def reading (resolve : String → Resolution) (depth : Nat) (source : Source) :
    Parser (Rewindable Lexer) Node :=
  Grammar.program (Grammar.value (splice resolve (load resolve depth)) source.budget)
    source.budget

theorem load_succ (resolve : String → Resolution) (depth : Nat) (source : Source)
    (journal : Journal) :
    load resolve (depth + 1) source journal =
      match reading resolve depth source
        ⟨Rewindable.ofStream (Lexer.ofSource source), journal⟩ with
      | .ok node s => .ok node s.journal
      | .error failure s => .error failure s.journal := by
  simp only [load, loadWith, reading]
  split
  · rename_i h
    rw [h]
  · rename_i h
    rw [h]

theorem load_of_triple {tape : List Token} {fault : Option LexError}
    {Q : Node → List Token → Prop} {stopped : Failure → Prop} (hscan : source.scan = (tape, fault))
    (h : Triple (reading resolve depth source) fault tape Q False stopped) (journal : Journal) :
    (∃ node journal' rest, load resolve (depth + 1) source journal = .ok node journal' ∧
      Q node rest) ∨
    ∃ failure journal', load resolve (depth + 1) source journal = .error failure journal' ∧
      (∀ token, failure ≠ .mismatch token) ∧ stopped failure := by
  have hstands := stands_ofSource source journal
  rw [hscan] at hstands
  have hended := h _ _ hstands
  rw [load_succ]
  cases hrun : reading resolve depth source
      ⟨Rewindable.ofStream (Lexer.ofSource source), journal⟩ with
  | ok node s =>
      rw [hrun] at hended
      obtain ⟨rest, -, -, hnode⟩ := hended
      exact .inl ⟨node, s.journal, rest, rfl, hnode⟩
  | error failure s =>
      rw [hrun] at hended
      cases failure with
      | mismatch token => exact hended.2.2.elim
      | fatal e => exact .inr ⟨.fatal e, s.journal, rfl, by simp, hended⟩
      | exhausted => exact .inr ⟨.exhausted, s.journal, rfl, by simp, hended⟩

/-- Loading follows a preferred derivation of the source, if there is one. -/
theorem load_preferred (hload : (load resolve depth).Steady) {statements : List Statement}
    (hderives : Derives source statements)
    (hpreferred : ∀ statement ∈ statements, statement.Preferred) (journal : Journal) :
    (∃ node journal', load resolve (depth + 1) source journal = .ok node journal' ∧
      ProgramHasTree (Included resolve (load resolve depth)) statements node ∧
      ∀ s ∈ programSpecifiers statements, Available resolve (load resolve depth) s) ∨
    ∃ failure journal', load resolve (depth + 1) source journal = .error failure journal' ∧
      ¬∀ s ∈ programSpecifiers statements, Available resolve (load resolve depth) s := by
  obtain ⟨tokens, htokens, hkinds⟩ := hderives
  have hscan := Source.tokenize_eq_ok_iff.mp htokens
  obtain ⟨used, rest, rfl, hused, hrest⟩ := List.map_eq_append_iff.mp hkinds.symm
  obtain ⟨last, rfl, hlast⟩ := List.map_eq_singleton_iff.mp hrest
  have hbudget := source.length_scan_lt
  have hruns : Runs (Available resolve (load resolve depth)) (reading resolve depth source)
      (used ++ [last]) [last] (ProgramHasTree (Included resolve (load resolve depth)) statements)
      (programSpecifiers statements) := by
    rw [hscan] at hbudget
    exact program_runs (splice_splices hload) hpreferred hused ⟨last, [], rfl, hlast⟩ hbudget
  rcases load_of_triple hscan hruns journal with
    ⟨node, journal', rest, hok, -, htree, hall⟩ | ⟨failure, journal', herror, -, hbad⟩
  · exact .inl ⟨node, journal', hok, htree, hall⟩
  · exact .inr ⟨failure, journal', herror, hbad⟩

/-- Loading is never a mismatch, and what is loaded has a derivation. -/
theorem load_derives (resolve : String → Resolution) (depth : Nat) (source : Source)
    (journal : Journal) :
    (∃ node journal', load resolve (depth + 1) source journal = .ok node journal' ∧
      ∃ statements, Derives source statements) ∨
    ∃ failure journal', load resolve (depth + 1) source journal = .error failure journal' ∧
      ∀ token, failure ≠ .mismatch token := by
  have hvalue : Sound (Grammar.value (splice resolve (load resolve depth)) source.budget)
      Value.kinds := value_sound (splice_readsNothing (τ := Lexer)) source.budget
  have hsound := program_sound hvalue source.budget source.scan.2 source.scan.1
  rcases load_of_triple rfl hsound journal with
    ⟨node, journal', rest, hok, statements, last, others, rfl, hlast, hspans⟩ |
    ⟨failure, journal', herror, hmismatch, -⟩
  · exact .inl ⟨node, journal', hok, statements, derives_of_spans hlast hspans⟩
  · exact .inr ⟨failure, journal', herror, hmismatch⟩

theorem exists_preferred_derivation {statements : List Statement}
    (h : Derives source statements) :
    ∃ preferred, Derives source preferred ∧ (∀ statement ∈ preferred, statement.Preferred) ∧
      programSpecifiers preferred = programSpecifiers statements := by
  obtain ⟨tokens, htokens, hkinds⟩ := h
  obtain ⟨preferred, hpreferred, hsame, hspecifiers⟩ := exists_preferredStatements statements
  exact ⟨preferred, ⟨tokens, htokens, by rw [programKinds, hsame]; exact hkinds⟩, hpreferred,
    hspecifiers⟩

/-- Whether a source is loaded is decided by any of its derivations. -/
theorem load_isOk_iff (hload : (load resolve depth).Steady) {statements : List Statement}
    (hderives : Derives source statements) (journal : Journal) :
    (∃ node journal', load resolve (depth + 1) source journal = .ok node journal') ↔
      ∀ s ∈ programSpecifiers statements, Available resolve (load resolve depth) s := by
  obtain ⟨preferred, hpreferred, hall, hspecifiers⟩ := exists_preferred_derivation hderives
  rw [← hspecifiers]
  rcases load_preferred hload hpreferred hall journal with
    ⟨node, journal', hok, -, hgood⟩ | ⟨failure, journal', herror, hbad⟩
  · exact ⟨fun _ => hgood, fun _ => ⟨node, journal', hok⟩⟩
  · refine ⟨?_, fun hgood => absurd hgood hbad⟩
    rintro ⟨node, journal'', hok⟩
    rw [herror] at hok
    cases hok

theorem load_steady (resolve : String → Resolution) (depth : Nat) :
    (load resolve depth).Steady := by
  induction depth with
  | zero =>
      refine ⟨fun source journal token journal' h => ?_, fun source journal node journal' h => ?_⟩
      · cases h
      · cases h
  | succ depth ih =>
      refine ⟨fun source journal token journal' h => ?_,
        fun source journal node journal' h other => ?_⟩
      · rcases load_derives resolve depth source journal with
          ⟨node, journal'', hok, -⟩ | ⟨failure, journal'', herror, hmismatch⟩
        · rw [hok] at h
          cases h
        · rw [herror] at h
          cases h
          exact hmismatch token rfl
      · rcases load_derives resolve depth source journal with
          ⟨-, -, -, statements, hderives⟩ | ⟨failure, journal'', herror, -⟩
        · exact (load_isOk_iff ih hderives other).mpr
            ((load_isOk_iff ih hderives journal).mp ⟨node, journal', h⟩)
        · rw [herror] at h
          cases h

end Load

end BuildScript
