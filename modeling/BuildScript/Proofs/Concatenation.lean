import BuildScript.Proofs.Lexemes
import BuildScript.Proofs.RelocatedEvaluation
import BuildScript.Proofs.Throwing
import BuildScript.Host.Builtin

namespace BuildScript

open BuildScript.Derivation Node

section Parsing

variable {resolve : String → Resolution} {first second whole : Source}

theorem statementKinds_append (statements statements' : List Statement) :
    statementKinds (statements ++ statements') =
      statementKinds statements ++ statementKinds statements' :=
  List.flatMap_append

theorem derives_newline {statements statements' : List Statement}
    (htext : whole.text = first.text ++ "\n" ++ second.text)
    (h : Derives first statements) (h' : Derives second statements') :
    Derives whole (statements ++ statements') := by
  obtain ⟨tokens, htokens, hkinds⟩ := h
  obtain ⟨tokens', htokens', hkinds'⟩ := h'
  obtain ⟨before, all, hbefore, hall, hallKinds⟩ := Source.tokenize_newline htext htokens htokens'
  have hstatements : statementKinds statements = before := by
    rw [hbefore, programKinds] at hkinds
    exact List.append_cancel_right hkinds
  refine ⟨all, hall, ?_⟩
  rw [hallKinds, ← hkinds', ← hstatements, programKinds, programKinds, statementKinds_append,
    List.append_assoc]

theorem Available.mono {depth depth' : Nat} {specifier : String} (hdepth : depth ≤ depth')
    (h : Available resolve (load resolve depth) specifier) :
    Available resolve (load resolve depth') specifier := by
  obtain ⟨found, hfound, hok⟩ := h
  obtain ⟨node, journal, hload⟩ := hok {}
  exact ⟨found, hfound, fun other => load_mono hload hdepth other⟩

theorem Included.matches {depth depth' : Nat} {specifier : String} {node node' : Node}
    (h : Included resolve (load resolve depth) specifier node)
    (h' : Included resolve (load resolve depth') specifier node') : node.Matches node' := by
  obtain ⟨found, _, _, hfound, hload⟩ := h
  obtain ⟨found', _, _, hfound', hload'⟩ := h'
  rw [hfound] at hfound'
  cases hfound'
  exact load_matches hload hload'

theorem load_kind {depth : Nat} {source : Source} {node : Node} {journal journal' : Journal}
    (h : load resolve depth source journal = .ok node journal') : node.kind = .program := by
  cases depth with
  | zero => cases h
  | succ depth =>
      obtain ⟨_, -, -, ⟨_, _, rfl, -⟩, -⟩ := exists_preferred_of_load h
      rfl

theorem load_newline {depth₁ depth₂ depth : Nat} {node₁ node₂ : Node}
    {journal₁ journal₁' journal₂ journal₂' : Journal}
    (htext : whole.text = first.text ++ "\n" ++ second.text)
    (h₁ : load resolve depth₁ first journal₁ = .ok node₁ journal₁')
    (h₂ : load resolve depth₂ second journal₂ = .ok node₂ journal₂')
    (hdepth₁ : depth₁ ≤ depth) (hdepth₂ : depth₂ ≤ depth) (journal : Journal) :
    ∃ node journal', load resolve depth whole journal = .ok node journal' ∧
      MatchesAll node.children (node₁.children ++ node₂.children) := by
  obtain ⟨depth₁, rfl⟩ : ∃ n, depth₁ = n + 1 :=
    Nat.exists_eq_succ_of_ne_zero fun hzero => by subst hzero; cases h₁
  obtain ⟨depth₂, rfl⟩ : ∃ n, depth₂ = n + 1 :=
    Nat.exists_eq_succ_of_ne_zero fun hzero => by subst hzero; cases h₂
  obtain ⟨depth, rfl⟩ := Nat.exists_eq_succ_of_ne_zero (Nat.ne_zero_of_lt hdepth₁)
  obtain ⟨statements₁, hderives₁, hpreferred₁, ⟨_, nodes₁, rfl, htrees₁⟩, havailable₁⟩ :=
    exists_preferred_of_load h₁
  obtain ⟨statements₂, hderives₂, hpreferred₂, ⟨_, nodes₂, rfl, htrees₂⟩, havailable₂⟩ :=
    exists_preferred_of_load h₂
  have hpreferred : ∀ statement ∈ statements₁ ++ statements₂, statement.Preferred :=
    List.forall_mem_append.mpr ⟨hpreferred₁, hpreferred₂⟩
  have havailable : ∀ s ∈ programSpecifiers (statements₁ ++ statements₂),
      Available resolve (load resolve depth) s := by
    rw [programSpecifiers, List.flatMap_append]
    refine List.forall_mem_append.mpr ⟨fun s hs => ?_, fun s hs => ?_⟩
    · exact (havailable₁ s hs).mono (Nat.le_of_succ_le_succ hdepth₁)
    · exact (havailable₂ s hs).mono (Nat.le_of_succ_le_succ hdepth₂)
  obtain ⟨node, journal', hok, _, nodes, rfl, htrees⟩ :=
    load_of_derivation (derives_newline htext hderives₁ hderives₂) hpreferred havailable journal
  refine ⟨_, journal', hok, ?_⟩
  let included (s : String) (tree : Node) : Prop :=
    Included resolve (load resolve depth₁) s tree ∨ Included resolve (load resolve depth₂) s tree
  have htrees' : List.Forall₂ (Statement.HasTree included) (statements₁ ++ statements₂)
      (nodes₁ ++ nodes₂) :=
    List.rel_append (htrees₁.imp fun _ _ htree => htree.mono fun _ _ => .inl)
      (htrees₂.imp fun _ _ htree => htree.mono fun _ _ => .inr)
  refine statementTrees_match ?_ htrees htrees'
  rintro s tree tree' htree (htree' | htree')
  · exact htree.matches htree'
  · exact htree.matches htree'

end Parsing

section Running

variable {φ : Type} [Host φ]

theorem interpret_append {program first second : Node} (hprogram : program.kind = .program)
    (hfirst : first.kind = .program) (hsecond : second.kind = .program)
    (hchildren : MatchesAll program.children (first.children ++ second.children)) {scope : Scope}
    {m m' : Machine φ} (harena : m.arena = m'.arena)
    (herrors : (interpret first scope m').errors = []) :
    SameRun (interpret program scope m)
      (interpret second (interpret first scope m').scope (interpret first scope m').machine) := by
  have hrun := interpret_same hfirst scope (rfl : m'.arena = m'.arena)
  have hwhole : SameRun (interpret program scope m)
      (execute (first.children ++ second.children) scope m') :=
    (interpret_same hprogram scope rfl).trans (execute_same hchildren scope harena)
  rw [execute_append _ _ (hrun.errors_eq_nil herrors), ← hrun.scope] at hwhole
  exact hwhole.trans (interpret_same hsecond _ hrun.arena).symm

end Running

/-- Two texts that are read are also read with a newline between them, and the
statements are those of the first followed by those of the second. If the first
runs without errors, running the pieces one after the other makes the same
objects, leaves the same scope and meets the same faults as running the
whole. -/
theorem whole_eq_pieces {resolve : String → Resolution} {first second whole : Source}
    {depth₁ depth₂ : Nat} {journal₁ journal₂ : Journal} {program₁ program₂ : Node}
    (htext : whole.text = first.text ++ "\n" ++ second.text)
    (h₁ : (parse resolve depth₁ first journal₁).1 = .ok program₁)
    (h₂ : (parse resolve depth₂ second journal₂).1 = .ok program₂) :
    ∀ depth ≥ max depth₁ depth₂, ∀ journal, ∃ program,
      (parse resolve depth whole journal).1 = .ok program ∧
      MatchesAll program.children (program₁.children ++ program₂.children) ∧
      ∀ (φ : Type) [Host φ] (scope : Scope) (m m' : Machine φ), m.arena = m'.arena →
        (interpret program₁ scope m').errors = [] →
        SameRun (interpret program scope m)
          (interpret program₂ (interpret program₁ scope m').scope
            (interpret program₁ scope m').machine) := by
  intro depth hdepth journal
  obtain ⟨_, hload₁⟩ := parse_eq_ok_iff.mp h₁
  obtain ⟨_, hload₂⟩ := parse_eq_ok_iff.mp h₂
  obtain ⟨program, journal', hload, hchildren⟩ := load_newline htext hload₁ hload₂
    (Nat.le_trans (Nat.le_max_left _ _) hdepth) (Nat.le_trans (Nat.le_max_right _ _) hdepth)
    (journal.record (.parsing whole))
  refine ⟨program, parse_eq_ok_iff.mpr ⟨journal', hload⟩, hchildren, ?_⟩
  intro φ _ scope m m' harena herrors
  exact interpret_append (load_kind hload) (load_kind hload₁) (load_kind hload₂) hchildren harena
    herrors

theorem whole_eq_pieces_two_assignments :
    ∃ program₁ program₂ program, ∃ m : Machine Builtin,
      (parseAlone (.ofText "x = \"a\"") {}).1 = .ok program₁ ∧
      (parseAlone (.ofText "y = [x]") {}).1 = .ok program₂ ∧
      (parseAlone (.ofText "x = \"a\"\ny = [x]") {}).1 = .ok program ∧
      (interpret program₁ .empty m).errors = [] ∧
      SameRun (interpret program .empty m)
        (interpret program₂ (interpret program₁ .empty m).scope
          (interpret program₁ .empty m).machine) := by
  obtain ⟨program₁, h₁, hrun⟩ := exists_of_any
    (show (parseAlone (.ofText "x = \"a\"") {}).1.toOption.any (fun program =>
      (interpret program .empty ⟨Arena.empty, {}⟩ : Interpretation Builtin).errors.isEmpty) = true
      by decide +kernel)
  obtain ⟨program₂, h₂, -⟩ := exists_of_any
    (show (parseAlone (.ofText "y = [x]") {}).1.toOption.any (fun _ => true) = true
      by decide +kernel)
  have htext : (Source.ofText "x = \"a\"\ny = [x]").text =
      (Source.ofText "x = \"a\"").text ++ "\n" ++ (Source.ofText "y = [x]").text := by
    decide +kernel
  have herrors := List.isEmpty_iff.mp hrun
  obtain ⟨program, hprogram, -, hsame⟩ := whole_eq_pieces htext h₁ h₂ 1 (Nat.le_refl 1) {}
  exact ⟨program₁, program₂, program, ⟨Arena.empty, {}⟩, h₁, h₂, hprogram, herrors,
    hsame Builtin .empty _ _ rfl herrors⟩

end BuildScript
