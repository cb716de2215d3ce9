import BuildScript.Proofs.Loading

namespace BuildScript

open BuildScript.Derivation

/-- The sources a parser is to accept: their tokens have a derivation, and
every `import ( STRING )` that stands where a value begins leads to a source
that is accepted. Imports that go round in a circle are not accepted. -/
inductive Accepted (resolve : String → Resolution) : Source → Prop where
  | intro {source : Source} {statements : List Statement} (derives : Derives source statements)
      (resolved : ∀ s ∈ programSpecifiers statements, ∃ found, resolve s = .program found)
      (accepted : ∀ s ∈ programSpecifiers statements, ∀ found, resolve s = .program found →
        Accepted resolve found) :
      Accepted resolve source

/-- The trees of a source: those of its derivations, with trees of what it
imports in place of the imports. Imports nest at most `depth` deep. -/
def IsTreeOf (resolve : String → Resolution) : (depth : Nat) → Source → Node → Prop
  | 0, _, _ => False
  | depth + 1, source, node =>
      ∃ statements, Derives source statements ∧
        ProgramHasTree
          (fun s tree => ∃ found, resolve s = .program found ∧ IsTreeOf resolve depth found tree)
          statements node

variable {resolve : String → Resolution} {depth : Nat} {source : Source} {node : Node}
  {journal journal' : Journal}

theorem parse_eq_ok_iff :
    (parse resolve depth source journal).1 = .ok node ↔
      ∃ journal', load resolve depth source (journal.record (.parsing source)) =
        .ok node journal' := by
  unfold parse
  cases load resolve depth source (journal.record (.parsing source)) with
  | ok found journal' => simp
  | error failure journal' => simp

theorem exists_of_any {ε α : Type} {result : Except ε α} {P : α → Bool}
    (h : result.toOption.any P = true) : ∃ a, result = .ok a ∧ P a = true := by
  cases result with
  | error e => cases h
  | ok a => exact ⟨a, rfl, h⟩

theorem exists_preferred_of_load
    (h : load resolve (depth + 1) source journal = .ok node journal') :
    ∃ statements, Derives source statements ∧
      (∀ statement ∈ statements, statement.Preferred) ∧
      ProgramHasTree (Included resolve (load resolve depth)) statements node ∧
      ∀ s ∈ programSpecifiers statements, Available resolve (load resolve depth) s := by
  rcases load_derives resolve depth source journal with
    ⟨-, -, -, statements, hderives⟩ | ⟨failure, journal'', herror, -⟩
  · obtain ⟨preferred, hpreferred, hall, -⟩ := exists_preferred_derivation hderives
    rcases load_preferred (load_steady resolve depth) hpreferred hall journal with
      ⟨node', journal'', hok, htree, havailable⟩ | ⟨failure, journal'', herror, -⟩
    · rw [h] at hok
      cases hok
      exact ⟨preferred, hpreferred, hall, htree, havailable⟩
    · rw [h] at herror
      cases herror
  · rw [h] at herror
    cases herror

theorem isTreeOf_of_load (h : load resolve depth source journal = .ok node journal') :
    IsTreeOf resolve depth source node := by
  induction depth generalizing source node journal journal' with
  | zero => cases h
  | succ depth ih =>
      obtain ⟨statements, hderives, -, htree, -⟩ := exists_preferred_of_load h
      refine ⟨statements, hderives, htree.mono ?_⟩
      rintro s tree ⟨found, before, after, hresolve, hload⟩
      exact ⟨found, hresolve, ih hload⟩

/-- Where one derivation of a source lets it be loaded, the others lead to
accepted sources too. -/
theorem accepted_of_available {specifier : String}
    (ih : ∀ {source journal node journal'}, load resolve depth source journal = .ok node journal' →
      Accepted resolve source)
    (h : Available resolve (load resolve depth) specifier) :
    ∃ found, resolve specifier = .program found ∧ Accepted resolve found := by
  obtain ⟨found, hresolve, hok⟩ := h
  obtain ⟨node, journal', hload⟩ := hok {}
  exact ⟨found, hresolve, ih hload⟩

theorem accepted_of_load (h : load resolve depth source journal = .ok node journal') :
    Accepted resolve source := by
  induction depth generalizing source node journal journal' with
  | zero => cases h
  | succ depth ih =>
      obtain ⟨statements, hderives, -, -, havailable⟩ := exists_preferred_of_load h
      refine .intro hderives ?_ ?_
      · intro s hs
        obtain ⟨found, hresolve, -⟩ := accepted_of_available ih (havailable s hs)
        exact ⟨found, hresolve⟩
      · intro s hs found hresolve
        obtain ⟨found', hresolve', haccepted⟩ := accepted_of_available ih (havailable s hs)
        rw [hresolve] at hresolve'
        cases hresolve'
        exact haccepted

theorem imports_accepted_of_load (h : load resolve depth source journal = .ok node journal')
    {statements : List Statement} (hderives : Derives source statements) {specifier : String}
    (hs : specifier ∈ programSpecifiers statements) :
    ∃ found, resolve specifier = .program found ∧ Accepted resolve found := by
  cases depth with
  | zero => cases h
  | succ depth =>
      have havailable := (load_isOk_iff (load_steady resolve depth) hderives journal).mp
        ⟨node, journal', h⟩
      exact accepted_of_available accepted_of_load (havailable specifier hs)

theorem exists_common_bound {α : Type} {P : α → Nat → Prop} (items : List α)
    (h : ∀ a ∈ items, ∃ bound, ∀ n ≥ bound, P a n) :
    ∃ bound, ∀ n ≥ bound, ∀ a ∈ items, P a n := by
  induction items with
  | nil => exact ⟨0, by simp⟩
  | cons a items ih =>
      obtain ⟨first, hfirst⟩ := h a (by simp)
      obtain ⟨others, hothers⟩ := ih fun b hb => h b (by simp [hb])
      refine ⟨max first others, fun n hn b hb => ?_⟩
      rcases List.mem_cons.mp hb with rfl | hb
      · exact hfirst n (by omega)
      · exact hothers n (by omega) b hb

theorem load_of_accepted (h : Accepted resolve source) :
    ∃ bound, ∀ depth ≥ bound, ∀ journal, ∃ node journal',
      load resolve depth source journal = .ok node journal' := by
  induction h with
  | @intro source statements hderives hresolved haccepted ih =>
      have hbounds : ∀ s ∈ programSpecifiers statements, ∃ bound, ∀ depth ≥ bound,
          Available resolve (load resolve depth) s := by
        intro s hs
        obtain ⟨found, hfound⟩ := hresolved s hs
        obtain ⟨bound, hbound⟩ := ih s hs found hfound
        exact ⟨bound, fun depth hdepth => ⟨found, hfound, hbound depth hdepth⟩⟩
      obtain ⟨bound, hbound⟩ := exists_common_bound _ hbounds
      refine ⟨bound + 1, fun depth hdepth journal => ?_⟩
      obtain ⟨depth, rfl⟩ := Nat.exists_eq_succ_of_ne_zero (Nat.ne_zero_of_lt hdepth)
      exact (load_isOk_iff (load_steady resolve depth) hderives journal).mpr
        (hbound depth (by omega))

/-- A parser with depth enough for the imports reads a source if and only if
it is accepted by the grammar. Whatever is read, at whatever depth, is the tree
of a derivation, and each import of any derivation led to an accepted
source. -/
theorem parse_accepts_grammar (resolve : String → Resolution) (source : Source) :
    ((∃ bound, ∀ depth ≥ bound, ∀ journal, ∃ node,
        (parse resolve depth source journal).1 = .ok node) ↔ Accepted resolve source) ∧
      ∀ depth journal node, (parse resolve depth source journal).1 = .ok node →
        Accepted resolve source ∧ IsTreeOf resolve depth source node ∧
        ∀ statements, Derives source statements → ∀ s ∈ programSpecifiers statements,
          ∃ found, resolve s = .program found ∧ Accepted resolve found := by
  refine ⟨⟨?_, ?_⟩, ?_⟩
  · rintro ⟨bound, hbound⟩
    obtain ⟨node, hnode⟩ := hbound bound (Nat.le_refl bound) {}
    obtain ⟨journal', hload⟩ := parse_eq_ok_iff.mp hnode
    exact accepted_of_load hload
  · intro haccepted
    obtain ⟨bound, hbound⟩ := load_of_accepted haccepted
    refine ⟨bound, fun depth hdepth journal => ?_⟩
    obtain ⟨node, journal', hload⟩ := hbound depth hdepth (journal.record (.parsing source))
    exact ⟨node, parse_eq_ok_iff.mpr ⟨journal', hload⟩⟩
  · intro depth journal node hnode
    obtain ⟨journal', hload⟩ := parse_eq_ok_iff.mp hnode
    exact ⟨accepted_of_load hload, isTreeOf_of_load hload,
      fun statements hderives s hs => imports_accepted_of_load hload hderives hs⟩

end BuildScript
