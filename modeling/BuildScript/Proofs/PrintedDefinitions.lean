import BuildScript.Proofs.Commitment
import BuildScript.Proofs.Declarative
import BuildScript.Proofs.ImportDepth
import BuildScript.Proofs.Splicing

namespace BuildScript

theorem Builtin.ofName?_isNone_iff {name : String} :
    (Builtin.ofName? name).isNone = true ↔ name ∉ Builtin.all.map Builtin.name := by
  rw [Option.isNone_iff_eq_none, Builtin.ofName?, List.find?_eq_none, List.mem_map]
  simp

namespace Bindings

variable {b b' : Bindings} {added : List (String × Handle)}

theorem notMem_names_of_entries_eq (h : b'.entries = b.entries ++ added) :
    ∀ e ∈ added, e.1 ∉ b.names := by
  intro e he hname
  have hdistinct := b'.distinct
  rw [h, List.map_append, List.nodup_append] at hdistinct
  exact hdistinct.2.2 e.1 hname e.1 (List.mem_map_of_mem he) rfl

end Bindings

section Definitions

variable {φ : Type} [Host φ]

/-- The assignments among statements that ran without errors are what the scope
has more than before. -/
theorem execute_added {statements : List Node} {b : Bindings} {m : Machine φ}
    (herrors : (execute statements (.root b) m).errors = []) :
    ∃ b' added, (execute statements (.root b) m).scope = .root b' ∧
      b'.entries = b.entries ++ added ∧
      added.map Prod.fst = statements.filterMap Node.assignedName? := by
  obtain ⟨k, -, added, b', reached, hcompleted, hends⟩ := execute_commits statements b m
  obtain ⟨hentries, hnames⟩ := hcompleted.entries_eq
  rcases hends with ⟨rfl, hrun⟩ | ⟨_, errors, _, _, hne, _, hrun⟩
  · rw [List.take_length] at hnames
    exact ⟨b', added, by rw [hrun], hentries, hnames⟩
  · rw [hrun] at herrors
    exact absurd herrors hne

end Definitions

/-- Entries are the definitions of a program: its variables in ascending order,
one entry for each assignment among its statements, with what the variable is
bound to in the scope. None of them is called like a builtin. -/
structure AreDefinitions (program : Node) (scope : Scope) (entries : List (String × Handle)) :
    Prop where
  ascending : entries.Pairwise (·.1 < ·.1)
  names : (entries.map Prod.fst).Perm (program.children.filterMap Node.assignedName?)
  bound : ∀ e ∈ entries, scope.get e.1 = .ok e.2
  own : ∀ e ∈ entries, Builtin.ofName? e.1 = none

theorem install_fresh : ∃ (a : Arena Builtin) (b : Bindings),
    b.names = Builtin.all.map Builtin.name ∧ ∀ journal, ∃ journal',
      Builtin.install id Arena.empty Scope.empty journal = (.ok (), a, .root b, journal') :=
  ⟨_, _, rfl, fun _ => ⟨_, rfl⟩⟩

theorem interpretFresh_added {program : Node} {journal : Journal}
    (herrors : (interpretFresh program journal).errors = []) :
    ∃ (b b' : Bindings) (added : List (String × Handle)), b.names = Builtin.all.map Builtin.name ∧
      (interpretFresh program journal).scope = .root b' ∧ b'.entries = b.entries ++ added ∧
      added.map Prod.fst = program.children.filterMap Node.assignedName? := by
  obtain ⟨a, b, hnames, hinstall⟩ := install_fresh
  obtain ⟨journal', hinstall⟩ := hinstall journal
  unfold interpretFresh at herrors ⊢
  rw [hinstall] at herrors ⊢
  dsimp only at herrors ⊢
  have hrun : SameRun (interpret program (.root b) ⟨a, journal'⟩)
      (execute program.children (.root b) ⟨a, journal'⟩) :=
    interpret_same (kind_of_interpret herrors) (.root b) rfl
  obtain ⟨b', added, hscope, hrest⟩ := execute_added (hrun.errors_eq_nil herrors)
  exact ⟨b, b', added, hnames, hrun.scope.trans hscope, hrest⟩

/-- The bindings of a fresh run that are not called like a builtin are the
definitions of its program. -/
theorem areDefinitions_sorted {program : Node} {journal : Journal}
    (herrors : (interpretFresh program journal).errors = []) :
    AreDefinitions program (interpretFresh program journal).scope
      ((interpretFresh program journal).scope.bindings.sorted.filter fun e =>
        (Builtin.ofName? e.1).isNone) := by
  obtain ⟨b, b', added, hbuiltins, hscope, hentries, hnames⟩ := interpretFresh_added herrors
  rw [hscope]
  -- what is left out is just what was bound before the program began
  have hfilter : b'.entries.filter (fun e => (Builtin.ofName? e.1).isNone) = added := by
    have hfirst : b.entries.filter (fun e => (Builtin.ofName? e.1).isNone) = [] := by
      refine List.filter_eq_nil_iff.mpr fun e he hnone => ?_
      rw [Builtin.ofName?_isNone_iff, ← hbuiltins] at hnone
      exact hnone (List.mem_map_of_mem he)
    have hlater : added.filter (fun e => (Builtin.ofName? e.1).isNone) = added := by
      refine List.filter_eq_self.mpr fun e he => ?_
      rw [Builtin.ofName?_isNone_iff, ← hbuiltins]
      exact Bindings.notMem_names_of_entries_eq hentries e he
    rw [hentries, List.filter_append, hfirst, hlater, List.nil_append]
  refine ⟨b'.pairwise_lt_sorted.filter _, ?_, fun e he => ?_, fun e he => ?_⟩
  · rw [← hnames, ← hfilter]
    exact (b'.perm_sorted.filter _).map _
  · have hmem := b'.perm_sorted.mem_iff.mp (List.mem_of_mem_filter he)
    exact Scope.get_root_eq_ok.mpr (Bindings.find?_of_mem hmem)
  · exact Option.isNone_iff_eq_none.mp (List.mem_filter.mp he).2

namespace Shell

variable {world : World} {options : Options} {program : Node} {journal : Journal}

/-- The line with the tree of a program, if it was asked for. -/
def treeLine (options : Options) (program : Node) : String :=
  if options.dumpTree then program.render ++ "\n" else ""

theorem logOf_quiet (hquiet : options.verbose = false) (journal : Journal) :
    logOf options journal = "" := by
  rw [logOf, if_neg (by simp [hquiet])]

theorem runProgram_quiet (hquiet : options.verbose = false) (program : Node) (journal : Journal) :
    runProgram options program journal =
      if (interpretFresh program journal).errors = [] then
        ⟨0, treeLine options program ++ bindingLines (interpretFresh program journal).machine.arena
          (interpretFresh program journal).scope, ""⟩
      else ⟨1, treeLine options program,
        String.join ((interpretFresh program journal).errors.map fun e =>
          report e.location e.message)⟩ := by
  rw [runProgram_eq]
  simp only [logOf_quiet hquiet, String.empty_append]
  rfl

/-- What a program is parsed to, with its imports seen from a directory, and the
journal of it. -/
def parseProgram (world : World) (root : String) (source : Source) :
    Except ParseError Node × Journal :=
  parse (resolveFile world root) world.depth source {}

/-- What a run prints, with its exit code, is what its program defined: if the
program was parsed and ran without errors, its definitions, one line for each,
after the line of its tree; else no definition, and a report for each error in
the order they were met. The depth of the world is enough for its imports. -/
structure PrintsDefinitions (world : World) (options : Options) (root : String) (source : Source) :
    Prop where
  decided : ∀ location, (parseProgram world root source).1 ≠ .error (.tooDeep location)
  code_eq_zero_iff : (runWith world options).code = 0 ↔ ∃ program journal,
    parseProgram world root source = (.ok program, journal) ∧
      (interpretFresh program journal).errors = []
  printed : ∀ program journal, parseProgram world root source = (.ok program, journal) →
    (interpretFresh program journal).errors = [] →
    ∃ entries, AreDefinitions program (interpretFresh program journal).scope entries ∧
      runWith world options = ⟨0, treeLine options program ++ String.join (entries.map fun e =>
        e.1 ++ " = " ++ (interpretFresh program journal).machine.arena.render e.2 ++ "\n"), ""⟩
  stopped : ∀ program journal, parseProgram world root source = (.ok program, journal) →
    (interpretFresh program journal).errors ≠ [] →
    runWith world options = ⟨1, treeLine options program,
      String.join ((interpretFresh program journal).errors.map fun e =>
        report e.location e.message)⟩
  malformed : ∀ e journal, parseProgram world root source = (.error e, journal) →
    runWith world options = ⟨1, "", report e.location e.message⟩

variable {source : Source} {directory : String}

theorem runWith_of_readProgram (hread : readProgram world options.file = .ok (source, directory)) :
    runWith world options =
      match parseProgram world (options.importRoot.getD directory) source with
      | (.error e, journal) => ⟨1, "", logOf options journal ++ report e.location e.message⟩
      | (.ok program, journal) => runProgram options program journal := by
  unfold runWith
  rw [hread]
  rfl

theorem printsDefinitions_of_finishes
    (hread : readProgram world options.file = .ok (source, directory))
    (hquiet : options.verbose = false)
    (hfinishes : Finishes (resolveFile world (options.importRoot.getD directory)) world.depth
      source) :
    PrintsDefinitions world options (options.importRoot.getD directory) source := by
  have hrun := runWith_of_readProgram hread
  have hdecided := ne_tooDeep_of_finishes hfinishes {}
  rcases hparse : parseProgram world (options.importRoot.getD directory) source with
    ⟨answer, journal⟩
  rw [hparse] at hrun
  cases answer with
  | error e =>
      dsimp only at hrun
      rw [logOf_quiet hquiet, String.empty_append] at hrun
      refine ⟨hdecided, ?_, ?_, ?_, ?_⟩
      · simp [hrun, hparse]
      · simp [hparse]
      · simp [hparse]
      · intro e' journal' h
        rw [hparse] at h
        cases h
        exact hrun
  | ok program =>
      dsimp only at hrun
      rw [runProgram_quiet hquiet] at hrun
      refine ⟨hdecided, ?_, ?_, ?_, ?_⟩
      · rw [hrun]
        constructor
        · intro hcode
          by_cases herrors : (interpretFresh program journal).errors = []
          · exact ⟨program, journal, hparse, herrors⟩
          · rw [if_neg herrors] at hcode
            cases hcode
        · rintro ⟨program', journal', h, herrors⟩
          rw [hparse] at h
          cases h
          rw [if_pos herrors]
      · intro program' journal' h herrors
        rw [hparse] at h
        cases h
        rw [if_pos herrors] at hrun
        exact ⟨_, areDefinitions_sorted herrors, hrun⟩
      · intro program' journal' h herrors
        rw [hparse] at h
        cases h
        rw [if_neg herrors] at hrun
        exact hrun
      · simp [hparse]

end Shell

end BuildScript
