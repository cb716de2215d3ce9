import BuildScript.Proofs.SplicedTrees
import BuildScript.Proofs.PlacedLoading

namespace BuildScript

open BuildScript.Parser BuildScript.Derivation

variable {resolve : String → Resolution} {depth : Nat} {source : Source} {node : Node}
  {journal journal' : Journal}

theorem location_of_load (h : load resolve depth source journal = .ok node journal') :
    node.location.source = source :=
  (program_of_load (outcome_eq_ok_iff.mpr ⟨journal', h⟩)).2

/-- The tree of a program is that of statements which derive its source, with
programs of the resolved sources in place of the imports. -/
def IsReadAs (resolve : String → Resolution) (program : Node) (statements : List Statement) :
    Prop :=
  Derives program.location.source statements ∧
    ProgramHasTree (fun specifier tree => resolve specifier = .program tree.location.source)
      statements program

/-- What is at the end of a path in a program stands in place of an import: the
nearest program around it has an import there, and the specifier that is written
there was resolved to its source. -/
def IsImported (resolve : String → Resolution) (program : Node) (path : List Nat) (below : Node) :
    Prop :=
  ∃ outer inner importer statements specifier, path = outer ++ inner ∧
    program.descend? outer = some importer ∧ IsReadAs resolve importer statements ∧
    programSpecifierAt? statements inner = some specifier ∧
    resolve specifier = .program below.location.source

theorem IsImported.within {program tree below : Node} {outer inner : List Nat}
    (houter : program.descend? outer = some tree) (h : IsImported resolve tree inner below) :
    IsImported resolve program (outer ++ inner) below := by
  obtain ⟨outer', inner', importer, statements, specifier, rfl, himporter, hrest⟩ := h
  refine ⟨outer ++ outer', inner', importer, statements, specifier, by simp, ?_, hrest⟩
  rw [Node.descend?_append, houter]
  exact himporter

theorem load_spliced {program below : Node} {path : List Nat}
    (h : load resolve depth source journal = .ok program journal')
    (hpath : program.descend? path = some below) (hkind : below.kind = .program) (hne : path ≠ []) :
    LoadsTo resolve depth below.location.source (.ok below) ∧
      IsImported resolve program path below := by
  induction depth generalizing source program journal journal' path with
  | zero => cases h
  | succ depth ih =>
      obtain ⟨statements, hderives, -, htree, -⟩ := exists_preferred_of_load h
      have hread : IsReadAs resolve program statements := by
        refine ⟨by rwa [location_of_load h], htree.mono ?_⟩
        rintro specifier tree ⟨found, _, _, hresolve, hload⟩
        rw [location_of_load hload, hresolve]
      obtain ⟨outer, inner, specifier, tree, rfl, hspecifier, houter,
        ⟨found, _, _, hresolve, hload⟩, hinner⟩ := htree.inImport hpath hkind hne
      -- Either the path ends at an import of this source, or it goes on into its tree.
      cases inner with
      | nil =>
          cases hinner
          have hloads : LoadsTo resolve depth found (.ok below) :=
            loadsTo_of_outcome (outcome_eq_ok_iff.mpr ⟨_, hload⟩) (by simp)
          rw [location_of_load hload]
          refine ⟨hloads.mono (Nat.le_succ depth), [], outer, program, statements, specifier, ?_⟩
          refine ⟨by simp, rfl, hread, hspecifier, ?_⟩
          rw [location_of_load hload, hresolve]
      | cons i inner =>
          obtain ⟨hloads, himported⟩ := ih hload hinner (by simp)
          exact ⟨hloads.mono (Nat.le_succ depth), himported.within houter⟩

theorem Settled.record {before after : Journal} {result : Except Failure Node}
    (h : Settled resolve depth source before result after) (event : Event)
    (hevent : ∀ found, event ≠ .parsingImport found) :
    Settled resolve depth source before result (after.record event) := by
  cases result with
  | ok node => exact Journal.GoesOn.record h event fun found he => absurd he (hevent found)
  | error failure =>
      intro hfailure
      obtain ⟨hgoes, he⟩ := h hfailure
      refine ⟨hgoes.record event fun found he => absurd he (hevent found), fun e hfatal => ?_⟩
      refine (he e hfatal).imp id (Or.imp id ?_)
      rintro ⟨specifier, hasked, hrest⟩
      exact ⟨specifier, Array.mem_push_of_mem event hasked, hrest⟩

theorem parse_settled (resolve : String → Resolution) (depth : Nat) (source : Source)
    (journal : Journal) :
    Settled resolve depth source (journal.record (.parsing source))
      (outcome (load resolve depth source (journal.record (.parsing source))))
      (parse resolve depth source journal).2 := by
  have hsettled := load_settled resolve depth source (journal.record (.parsing source))
  unfold parse
  cases hload : load resolve depth source (journal.record (.parsing source)) with
  | ok node after =>
      rw [hload] at hsettled
      exact hsettled.record _ (by simp)
  | error failure after =>
      rw [hload] at hsettled
      exact hsettled.record _ (by simp)

theorem mem_events_of_record {found : Source}
    (h : .parsingImport found ∈ (journal.record (.parsing source)).events) :
    .parsingImport found ∈ journal.events := by
  simpa [Journal.record] using h

theorem ne_tooDeep_of_finishes (h : Finishes resolve depth source) (journal : Journal)
    (location : Location) :
    (parse resolve depth source journal).1 ≠ .error (.tooDeep location) := by
  intro herror
  have hsettled := parse_settled resolve depth source journal
  rcases parse_eq_error herror with hfatal | ⟨hspent, -⟩
  · rw [hfatal] at hsettled
    exact ((hsettled (by simp)).2 _ rfl).1 location rfl
  · exact h _ hspent

/-- An import that was begun while a source was parsed is parsed to a tree, or
its error is the error of the whole. -/
theorem parse_import {found : Source}
    (hdeep : ∀ location, (parse resolve depth source journal).1 ≠ .error (.tooDeep location))
    (h : .parsingImport found ∈ (parse resolve depth source journal).2.events) :
    .parsingImport found ∈ journal.events ∨
      (∃ node, ∀ other, (parse resolve depth found other).1 = .ok node) ∨
      ∃ e, (∀ other, (parse resolve depth found other).1 = .error e) ∧
        (parse resolve depth source journal).1 = .error e := by
  have hsettled := parse_settled resolve depth source journal
  have hparsed (node : Node) (hnode : LoadsTo resolve depth found (.ok node)) (other : Journal) :
      (parse resolve depth found other).1 = .ok node := hnode.parse_eq other
  cases hparse : (parse resolve depth source journal).1 with
  | ok program =>
      rw [parse_fst, reported_eq_ok] at hparse
      rw [hparse] at hsettled
      rcases hsettled.imports found h with hbefore | ⟨node, hnode⟩
      · exact .inl (mem_events_of_record hbefore)
      · exact .inr (.inl ⟨node, hparsed node hnode⟩)
  | error e =>
      rcases parse_eq_error hparse with hfatal | ⟨-, rfl⟩
      · rw [hfatal] at hsettled
        rcases (hsettled (by simp)).1.imports found h with hbefore | ⟨node, hnode⟩ | hfailed
        · exact .inl (mem_events_of_record hbefore)
        · exact .inr (.inl ⟨node, hparsed node hnode⟩)
        · exact .inr (.inr ⟨e, fun other => hfailed.parse_eq other, rfl⟩)
      · exact absurd hparse (hdeep _)

theorem parse_foreign_error {e : ParseError}
    (h : (parse resolve depth source journal).1 = .error e)
    (hforeign : e.location.source ≠ source) :
    (∃ specifier, .resolvingImport specifier ∈ (parse resolve depth source journal).2.events ∧
      resolve specifier = .program e.location.source) ∧
    ∀ other, (parse resolve depth e.location.source other).1 = .error e := by
  have hsettled := parse_settled resolve depth source journal
  rcases parse_eq_error h with hfatal | ⟨-, rfl⟩
  · rw [hfatal] at hsettled
    rcases ((hsettled (by simp)).2 e rfl).2 with hown | ⟨specifier, hasked, hresolve, hfailed⟩
    · exact absurd hown hforeign
    · exact ⟨⟨specifier, hasked, hresolve⟩, fun other => hfailed.parse_eq other⟩
  · exact absurd rfl hforeign

/-- Where imports lead to no endless chain, some depth is enough to parse a
source. Once the depth is enough, every program inside the tree is what its own
source is parsed to, and the specifier written at its import was resolved to
that source. An error in another source is what that source is parsed to, and
the resolver was asked for it. No import that was begun, even one whose tree is
thrown away, has failed without its error being the one reported. -/
theorem splicing_compositional (resolve : String → Resolution) (source : Source) :
    (Acc (Imports resolve) source → ∃ bound, ∀ depth ≥ bound, ∀ journal location,
      (parse resolve depth source journal).1 ≠ .error (.tooDeep location)) ∧
    ∀ depth journal,
      (∀ location, (parse resolve depth source journal).1 ≠ .error (.tooDeep location)) →
      (∀ program, (parse resolve depth source journal).1 = .ok program →
        program.location.source = source ∧
        ∀ path below, path ≠ [] → program.descend? path = some below → below.kind = .program →
          (∀ other, (parse resolve depth below.location.source other).1 = .ok below) ∧
          IsImported resolve program path below) ∧
      (∀ e, (parse resolve depth source journal).1 = .error e → e.location.source ≠ source →
        (∃ specifier, .resolvingImport specifier ∈ (parse resolve depth source journal).2.events ∧
          resolve specifier = .program e.location.source) ∧
        ∀ other, (parse resolve depth e.location.source other).1 = .error e) ∧
      ∀ found, .parsingImport found ∈ (parse resolve depth source journal).2.events →
        .parsingImport found ∈ journal.events ∨
        (∃ node, ∀ other, (parse resolve depth found other).1 = .ok node) ∨
        ∃ e, (∀ other, (parse resolve depth found other).1 = .error e) ∧
          (parse resolve depth source journal).1 = .error e := by
  refine ⟨fun hacyclic => ?_, fun depth journal hdeep =>
    ⟨fun program h => ?_, fun e h hforeign => ?_, fun found h => parse_import hdeep h⟩⟩
  · obtain ⟨bound, hbound⟩ := exists_depth_of_acc hacyclic
    exact ⟨bound, fun depth hdepth => ne_tooDeep_of_finishes (hbound depth hdepth)⟩
  · obtain ⟨journal', hload⟩ := parse_eq_ok_iff.mp h
    refine ⟨location_of_load hload, fun path below hne hpath hkind => ?_⟩
    obtain ⟨hloads, himported⟩ := load_spliced hload hpath hkind hne
    exact ⟨fun other => hloads.parse_eq other, himported⟩
  · exact parse_foreign_error h hforeign

/-- The body of a comprehension is read twice, and its first tree is thrown
away. -/
theorem splicing_compositional_body :
    ∃ program below,
      (parse (ImportTable.mk [("lib", .program ⟨"lib", "a = b", 1⟩)]).resolve 2
        (.ofText "x = [import(\"lib\") for i in y]") {}).1 = .ok program ∧
      program.descend? [0, 1, 0] = some below ∧ below.kind = .program ∧
      below.location.source = ⟨"lib", "a = b", 1⟩ ∧
      (parse (ImportTable.mk [("lib", .program ⟨"lib", "a = b", 1⟩)]).resolve 2
        ⟨"lib", "a = b", 1⟩ {}).1 = .ok below := by
  obtain ⟨program, hparse, hchecks⟩ := exists_of_any
    (show (parse (ImportTable.mk [("lib", .program ⟨"lib", "a = b", 1⟩)]).resolve 2
      (.ofText "x = [import(\"lib\") for i in y]") {}).1.toOption.any (fun program =>
        (program.descend? [0, 1, 0]).any fun below =>
          below.kind == .program && below.location.source == ⟨"lib", "a = b", 1⟩) = true
      by decide +kernel)
  obtain ⟨below, hpath, hbelow⟩ := Option.any_eq_true .. |>.mp hchecks
  obtain ⟨hkind, hsource⟩ := Bool.and_eq_true_iff.mp hbelow
  have hsplicing := (splicing_compositional
    (ImportTable.mk [("lib", .program ⟨"lib", "a = b", 1⟩)]).resolve
    (.ofText "x = [import(\"lib\") for i in y]")).2 2 {}
  rw [hparse] at hsplicing
  obtain ⟨hparsed, -, -⟩ := hsplicing (by simp)
  obtain ⟨hown, -⟩ := (hparsed program rfl).2 _ below (by simp) hpath (beq_iff_eq.mp hkind)
  refine ⟨program, below, hparse, hpath, beq_iff_eq.mp hkind, beq_iff_eq.mp hsource, ?_⟩
  have hlib := hown {}
  rwa [beq_iff_eq.mp hsource] at hlib

end BuildScript
