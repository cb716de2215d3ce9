import BuildScript.Proofs.ParsedShape
import BuildScript.Proofs.RelocatedEvaluation
import BuildScript.Proofs.Throwing
import BuildScript.Proofs.GuardedEvaluation
import BuildScript.Proofs.LawfulHosts

namespace BuildScript

open Node

theorem interpret_expected {φ : Type} [Host φ] {program : Node} (hshape : program.WellShaped)
    (hkind : program.kind = .program) (scope : Scope) (m : Machine φ) :
    Expected (interpret program scope m).errors := by
  have hstatements : ∀ node ∈ program.children, node.WellShaped ∧ IsStatement node.kind := by
    rcases program with ⟨_, location, text?, children⟩
    obtain rfl : _ = NodeKind.program := hkind
    exact fun node hnode => ⟨hshape.child hnode, hshape.obeys.2 node hnode⟩
  intro e he kind hfault
  have hfaults : e.fault ∈ (execute program.children scope m).errors.map (·.fault) := by
    rw [← (interpret_same hkind scope rfl).faults]
    exact List.mem_map_of_mem he
  obtain ⟨e', he', hsame⟩ := List.mem_map.mp hfaults
  exact execute_expected hstatements scope m e' he' kind (hsame.trans hfault)

/-- Every node of a program that was read obeys the arity table. So whatever
the host, the arena and the scope, interpreting it never records an unexpected
node. Where the arena and the scope hold handles of the arena only, an index is
out of range only after a function has answered with something else, and where
the functions answer as they should no index ever is. -/
theorem parse_never_malformed {resolve : String → Resolution} {depth : Nat} {source : Source}
    {journal : Journal} {program : Node}
    (h : (parse resolve depth source journal).1 = .ok program) :
    (program.kind = .program ∧
      ∀ path node, program.descend? path = some node → node.Obeys) ∧
    (∀ (φ : Type) [Host φ] (scope : Scope) (m : Machine φ),
      ∀ e ∈ (interpret program scope m).errors, ∀ kind, e.fault ≠ .unexpectedNode kind) ∧
    (∀ (φ : Type) [Host φ] (scope : Scope) (m : Machine φ),
      m.arena.HoldsItsOwn → scope.Fits m.arena.size →
      interpretWatched program scope m = .error true ∨
        ∃ misled, interpretWatched program scope m = .ok (interpret program scope m, misled)) ∧
    ∀ (φ : Type) [Host φ] [LawfulHost φ] (scope : Scope) (m : Machine φ),
      m.arena.IsLawful → scope.Fits m.arena.size →
      interpretWatched program scope m = .ok (interpret program scope m, false) := by
  obtain ⟨journal', hload⟩ := parse_eq_ok_iff.mp h
  obtain ⟨hshape, hkind⟩ := load_wellShaped hload
  refine ⟨⟨hkind, fun path node hpath => hshape.obeys_descend hpath⟩, ?_, ?_, ?_⟩
  · intro φ _ scope m
    exact interpret_expected hshape hkind scope m
  · intro φ _ scope m hclosed hscope
    exact interpretWatched_of_holdsItsOwn hshape hkind hclosed hscope
  · intro φ _ _ scope m hlawful hscope
    exact interpretWatched_of_isLawful hshape hkind hlawful hscope

theorem parse_never_malformed_call :
    ∃ program, ∃ m : Machine StockFunction, ∃ scope : Scope,
      (parseAlone (.ofText "x = f(k = \"s\") y = x.k") {}).1 = .ok program ∧
      (∀ path node, program.descend? path = some node → node.Obeys) ∧
      scope.get "f" = .ok ⟨1⟩ ∧ m.arena.asFunction ⟨1⟩ = .ok (.builtin .struct) ∧
      m.arena.HoldsItsOwn ∧ m.arena.IsLawful ∧ scope.Fits m.arena.size ∧
      (∀ e ∈ (interpret program scope m).errors, ∀ kind, e.fault ≠ .unexpectedNode kind) ∧
      (interpretWatched program scope m = .error true ∨
        ∃ misled, interpretWatched program scope m = .ok (interpret program scope m, misled)) ∧
      interpretWatched program scope m = .ok (interpret program scope m, false) ∧
      (interpret program scope m).errors = [] ∧
      ((interpret program scope m).scope.get "y").toOption.map
        (interpret program scope m).machine.arena.render = some "\"s\"" := by
  let m : Machine StockFunction := ⟨(Arena.empty.create (.function (.builtin .struct))).2, {}⟩
  let scope : Scope := .root ⟨[("f", ⟨1⟩)], by decide⟩
  obtain ⟨program, h, hrun⟩ := exists_of_any
    (show (parseAlone (.ofText "x = f(k = \"s\") y = x.k") {}).1.toOption.any
      (fun program => (interpret program scope m).errors == [] &&
        ((interpret program scope m).scope.get "y").toOption.map
          (interpret program scope m).machine.arena.render == some "\"s\"") = true by
      decide +kernel)
  obtain ⟨herrors, hvalue⟩ := Bool.and_eq_true_iff.mp hrun
  have hlawful : m.arena.IsLawful :=
    (Arena.closed_empty _).create LawfulHost.fits_mono trivial
  have hscope : scope.Fits m.arena.size := by
    show InRange _ _
    decide
  obtain ⟨⟨-, hobeys⟩, hexpected, hany, hall⟩ := parse_never_malformed h
  exact ⟨program, m, scope, h, hobeys, by decide, rfl, hlawful.holdsItsOwn, hlawful, hscope,
    hexpected StockFunction scope m, hany StockFunction scope m hlawful.holdsItsOwn hscope,
    hall StockFunction scope m hlawful hscope, beq_iff_eq.mp herrors, beq_iff_eq.mp hvalue⟩

/-- A function that answers with a handle from elsewhere. All handles of the
arena and of the scope are valid, but the list it is asked for is looked for
beyond the end of the arena. -/
theorem foreign_answer_out_of_range :
    ∃ program call : Node, ∃ m : Machine StockFunction, ∃ scope : Scope,
      (parseAlone (.ofText "x = [y for y in f()]") {}).1 = .ok program ∧
      m.arena.HoldsItsOwn ∧ scope.Fits m.arena.size ∧
      program.descend? [0, 1, 2] = some call ∧
      (∃ called : Machine StockFunction,
        evaluate call scope m = .ok ⟨99⟩ called ∧ called.arena.size = 2) ∧
      interpretWatched program scope m = .error true := by
  let m : Machine StockFunction := ⟨(Arena.empty.create (.function (.constant ⟨99⟩))).2, {}⟩
  let scope : Scope := .root ⟨[("f", ⟨1⟩)], by decide⟩
  obtain ⟨program, h, hrun⟩ := exists_of_any
    (show (parseAlone (.ofText "x = [y for y in f()]") {}).1.toOption.any
      (fun program =>
        (match interpretWatched program scope m with
          | .ok _ => false
          | .error misled => misled) &&
        (program.descend? [0, 1, 2]).any fun call =>
          match evaluate call scope m with
          | .ok handle called => handle == ⟨99⟩ && called.arena.size == 2
          | .error _ _ => false) = true by decide +kernel)
  obtain ⟨hwatched, hcall⟩ := Bool.and_eq_true_iff.mp hrun
  obtain ⟨call, hpath, hcall⟩ := (Option.any_eq_true _ _).mp hcall
  refine ⟨program, call, m, scope, h, by decide, by show InRange _ _; decide, hpath, ?_, ?_⟩
  · split at hcall
    · rename_i handle called hevaluate
      obtain ⟨hhandle, hsize⟩ := Bool.and_eq_true_iff.mp hcall
      exact ⟨called, by rw [hevaluate, beq_iff_eq.mp hhandle], beq_iff_eq.mp hsize⟩
    · cases hcall
  · split at hwatched
    · cases hwatched
    · rename_i misled hanswer
      rw [hanswer, hwatched]

end BuildScript
