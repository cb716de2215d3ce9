import BuildScript.Proofs.StructuralBuiltins
import BuildScript.Proofs.RelocatedEvaluation
import BuildScript.Proofs.PrintedBindings

namespace BuildScript

open Eval Node

variable {φ : Type}

/-- Bindings stay and no object is lost. -/
structure Grown (a a' : Arena φ) (scope scope' : Scope) : Prop where
  arena : a'.Extends a
  get : ∀ {name h}, scope.get name = .ok h → scope'.get name = .ok h

theorem Grown.refl (a : Arena φ) (scope : Scope) : Grown a a scope scope := ⟨.refl a, id⟩

theorem Grown.trans {a a' a'' : Arena φ} {scope scope' scope'' : Scope}
    (h : Grown a a' scope scope') (h' : Grown a' a'' scope' scope'') : Grown a a'' scope scope'' :=
  ⟨h'.arena.trans h.arena, fun hget => h'.get (h.get hget)⟩

/-- A root scope of an arena. Its handles are alike to themselves, which is to
say that they and all they refer to are in the arena. -/
structure Rooted (a : Arena φ) (scope : Scope) : Prop where
  root : ∃ b, scope = .root b
  self : Compatible a a scope scope

theorem Rooted.mono {a a' : Arena φ} {scope : Scope} (h : Rooted a scope) (ha : a'.Extends a) :
    Rooted a' scope :=
  ⟨h.root, h.self.mono ha ha⟩

theorem Rooted.put {a : Arena φ} {scope scope' : Scope} (h : Rooted a scope) {name : String}
    {handle : Handle} (hhandle : Alike a a handle handle)
    (hput : scope.put name handle = .ok scope') :
    Rooted a scope' ∧ Grown a a scope scope' := by
  obtain ⟨b, rfl⟩ := h.root
  obtain ⟨b', rfl, hfresh, -⟩ := Scope.put_root_eq_ok hput
  refine ⟨⟨⟨b', rfl⟩, h.self.put hhandle hput hput⟩, .refl a, fun {other found} hget => ?_⟩
  rw [Scope.get_put hput]
  by_cases hname : other = name
  · rw [hname, Scope.get_root_eq_ok] at hget
    rw [Bindings.find?_eq_none_iff.mpr hfresh] at hget
    cases hget
  · rw [if_neg hname]
    exact hget

/-- A statement has been run on the way to a scope: if it is an assignment,
its value was evaluated in a scope within this one, and the name is bound to
the value. -/
def Settles [Host φ] (a : Arena φ) (scope : Scope) (node : Node) : Prop :=
  ∀ target value others, node.kind = .assignment → node.children = target :: value :: others →
    ∃ (before : Scope) (m m' : Machine φ) (handle : Handle), Rooted m.arena before ∧
      Grown m.arena a before scope ∧ evaluate value before m = .ok handle m' ∧
      a.Extends m'.arena ∧ scope.get target.text = .ok handle

section Settles

variable [Host φ]

theorem Settles.mono {a a' : Arena φ} {scope scope' : Scope} {node : Node}
    (h : Settles a scope node) (hgrown : Grown a a' scope scope') : Settles a' scope' node := by
  intro target value others hkind hchildren
  obtain ⟨before, m, m', handle, hrooted, hbefore, hvalue, hextends, hget⟩ :=
    h target value others hkind hchildren
  exact ⟨before, m, m', handle, hrooted, hbefore.trans hgrown, hvalue,
    hgrown.arena.trans hextends, hgrown.get hget⟩

theorem Settles.of_matches {a : Arena φ} {scope : Scope} {node node' : Node}
    (h : Settles a scope node) (hmatches : node.Matches node') : Settles a scope node' := by
  rcases node with ⟨kind, location, text?, children⟩
  rcases node' with ⟨kind', location', text?', children'⟩
  obtain ⟨rfl, rfl, hchildren⟩ := hmatches
  rintro target' value' others' hkind rfl
  obtain ⟨target, children, rfl, htarget, hchildren⟩ := hchildren.eq_cons
  obtain ⟨value, others, rfl, hvalue, -⟩ := hchildren.eq_cons
  obtain ⟨before, m, m', handle, hrooted, hbefore, hevaluate, hextends, hget⟩ :=
    h target value others hkind rfl
  have hsame := evaluate_same hvalue before m m rfl
  rw [hevaluate] at hsame
  cases hevaluate' : evaluate value' before m with
  | ok handle' m'' =>
      rw [hevaluate'] at hsame
      obtain ⟨rfl, harena⟩ := hsame
      rw [harena] at hextends
      rw [htarget.text_eq] at hget
      exact ⟨before, m, m'', handle, hrooted, hbefore, hevaluate', hextends, hget⟩
  | error errors m'' =>
      rw [hevaluate'] at hsame
      exact hsame.elim

end Settles

/-- Every binding of the second scope is one of the first, with a value that
is alike. -/
def Covers (a a' : Arena φ) (scope scope' : Scope) : Prop :=
  ∀ name h', scope'.get name = .ok h' → ∃ h, scope.get name = .ok h ∧ Alike a a' h h'

section Runs

variable [Host φ] [StructuralHost φ]

theorem executeStatement_settles {node : Node} {scope scope' : Scope} {m m' : Machine φ}
    (hrooted : Rooted m.arena scope) (h : executeStatement node scope m = .ok scope' m') :
    Rooted m'.arena scope' ∧ Grown m.arena m'.arena scope scope' ∧
      Settles m'.arena scope' node := by
  obtain ⟨target, value, others, handle, m₁, hkind, hchildren, harena, hvalue, hput⟩ |
    ⟨handle, m₁, hkind, rfl, harena, hvalue⟩ := executeStatement_eq_ok h
  · rw [← harena] at hrooted ⊢
    obtain ⟨hextends, -, hhandle⟩ := evaluate_alike hrooted.self hvalue hvalue
    obtain ⟨hrooted', hput'⟩ := (hrooted.mono hextends).put hhandle hput
    have hgrown : Grown m₁.arena m'.arena scope scope' := ⟨hextends, hput'.get⟩
    refine ⟨hrooted', hgrown, ?_⟩
    intro target' value' others' _ hchildren'
    rw [hchildren] at hchildren'
    cases hchildren'
    refine ⟨scope, m₁, m', handle, hrooted, hgrown, hvalue, .refl _, ?_⟩
    rw [Scope.get_put hput, if_pos rfl]
  · rw [← harena] at hrooted ⊢
    obtain ⟨hextends, -, -⟩ := evaluate_alike hrooted.self hvalue hvalue
    refine ⟨hrooted.mono hextends, ⟨hextends, id⟩, ?_⟩
    intro _ _ _ hkind'
    rw [hkind] at hkind'
    cases hkind'

theorem execute_settles {nodes : List Node} {scope : Scope} {m : Machine φ}
    (hrooted : Rooted m.arena scope) (herrors : (execute nodes scope m).errors = []) :
    Rooted (execute nodes scope m).machine.arena (execute nodes scope m).scope ∧
      Grown m.arena (execute nodes scope m).machine.arena scope (execute nodes scope m).scope ∧
      ∀ node ∈ nodes,
        Settles (execute nodes scope m).machine.arena (execute nodes scope m).scope node := by
  induction nodes generalizing scope m with
  | nil =>
      rw [execute_nil]
      exact ⟨hrooted, .refl _ _, fun _ hnode => by cases hnode⟩
  | cons node nodes ih =>
      obtain ⟨scope', m', hstatement, hrest⟩ := execute_cons_eq herrors
      obtain ⟨hrooted', hgrown, hsettles⟩ := executeStatement_settles hrooted hstatement
      rw [hrest] at herrors ⊢
      obtain ⟨hfinal, hlater, hothers⟩ := ih hrooted' herrors
      exact ⟨hfinal, hgrown.trans hlater, List.forall_mem_cons.mpr ⟨hsettles.mono hlater, hothers⟩⟩

/-- A settled statement that is run anew, in a scope that has no other
bindings, binds nothing else. -/
theorem executeStatement_covers {a : Arena φ} {final scope scope' : Scope} {node : Node}
    {m m' : Machine φ} (hsettles : Settles a final node) (hrooted : Rooted m.arena scope)
    (hcovers : Covers a m.arena final scope) (h : executeStatement node scope m = .ok scope' m') :
    Covers a m'.arena final scope' := by
  obtain ⟨-, hgrown, -⟩ := executeStatement_settles hrooted h
  have hkept : Covers a m'.arena final scope := by
    intro name h' hget'
    obtain ⟨h, hget, halike⟩ := hcovers name h' hget'
    exact ⟨h, hget, halike.mono (.refl a) hgrown.arena⟩
  obtain ⟨target, value, others, handle', m₁', hkind, hchildren, harena, hvalue', hput⟩ |
    ⟨_, _, _, rfl, _⟩ := executeStatement_eq_ok h
  · obtain ⟨before, m₁, m₂, handle, hbefore, hwithin, hvalue, hextends, hget⟩ :=
      hsettles target value others hkind hchildren
    -- both scopes of the value are within the final one
    have hcompatible : Compatible m₁.arena m₁'.arena before scope := by
      intro name x x' hx hx'
      obtain ⟨found, hfound, halike⟩ := hcovers name x' hx'
      rw [hwithin.get hx] at hfound
      cases hfound
      rw [harena]
      exact halike.restrict hwithin.arena (hbefore.self name x x hx hx).lt_size.1
    obtain ⟨-, -, halike⟩ := evaluate_alike hcompatible hvalue hvalue'
    intro name x' hx'
    rw [Scope.get_put hput] at hx'
    by_cases hname : name = target.text
    · rw [if_pos hname] at hx'
      cases hx'
      rw [hname]
      exact ⟨handle, hget, halike.mono hextends (.refl _)⟩
    · rw [if_neg hname] at hx'
      exact hkept name x' hx'
  · exact hkept

theorem execute_covers {a : Arena φ} {final : Scope} {nodes : List Node}
    (hsettles : ∀ node ∈ nodes, Settles a final node) {scope : Scope} {m : Machine φ}
    (hrooted : Rooted m.arena scope) (hcovers : Covers a m.arena final scope)
    (herrors : (execute nodes scope m).errors = []) :
    Covers a (execute nodes scope m).machine.arena final (execute nodes scope m).scope := by
  induction nodes generalizing scope m with
  | nil =>
      rw [execute_nil]
      exact hcovers
  | cons node nodes ih =>
      obtain ⟨hnode, hnodes⟩ := List.forall_mem_cons.mp hsettles
      obtain ⟨scope', m', hstatement, hrest⟩ := execute_cons_eq herrors
      obtain ⟨hrooted', -, -⟩ := executeStatement_settles hrooted hstatement
      rw [hrest] at herrors ⊢
      exact ih hnodes hrooted' (executeStatement_covers hnode hrooted hcovers hstatement) herrors

/-- Statements that are all among others, wherever located, bind nothing else
than those. -/
theorem execute_covers_of_subset {nodes nodes' : List Node}
    (hsubset : ∀ node' ∈ nodes', ∃ node ∈ nodes, node.Matches node') {scope : Scope}
    {m : Machine φ} (hrooted : Rooted m.arena scope) (herrors : (execute nodes scope m).errors = [])
    (herrors' : (execute nodes' scope m).errors = []) :
    Covers (execute nodes scope m).machine.arena (execute nodes' scope m).machine.arena
      (execute nodes scope m).scope (execute nodes' scope m).scope := by
  obtain ⟨-, hgrown, hsettles⟩ := execute_settles hrooted herrors
  have hsettles' : ∀ node' ∈ nodes', Settles (execute nodes scope m).machine.arena
      (execute nodes scope m).scope node' := by
    intro node' hnode'
    obtain ⟨node, hnode, hmatches⟩ := hsubset node' hnode'
    exact (hsettles node hnode).of_matches hmatches
  have hcovers : Covers (execute nodes scope m).machine.arena m.arena
      (execute nodes scope m).scope scope := fun name h hget =>
    ⟨h, hgrown.get hget, (hrooted.self name h h hget hget).mono hgrown.arena (.refl _)⟩
  exact execute_covers hsettles' hrooted hcovers herrors'

end Runs

namespace Builtin

theorem bindAll_rooted (embed : Builtin → φ) (bs : List Builtin) {a : Arena φ} {scope : Scope}
    (h : Rooted a scope) :
    Rooted (bindAll embed bs a scope).2.1 (bindAll embed bs a scope).2.2 := by
  induction bs generalizing a scope with
  | nil => exact h
  | cons b bs ih =>
      have hcreated := h.mono (a.extends_create (.function (embed b)))
      have hobject := a.getElem?_create (.function (embed b))
      simp only [bindAll]
      split
      · rename_i hput
        exact ih (hcreated.put (.function hobject hobject) hput).1
      · exact hcreated

theorem install_rooted (embed : Builtin → φ) {a : Arena φ} {scope : Scope} (h : Rooted a scope) :
    ∃ a' scope', Rooted a' scope' ∧ ∀ journal, ∃ result journal',
      install embed a scope journal = (result, a', scope', journal') := by
  refine ⟨_, _, bindAll_rooted embed all h, fun journal => ?_⟩
  unfold install
  split
  · rename_i hbind
    exact ⟨_, _, by rw [hbind]⟩
  · rename_i hbind
    exact ⟨_, _, by rw [hbind]⟩

end Builtin

theorem rooted_empty : Rooted (Arena.empty : Arena φ) Scope.empty := by
  refine ⟨⟨.empty, rfl⟩, ?_⟩
  intro name h _ hget
  cases hget

/-- Interprets a program with nothing but the builtins around. -/
def interpretFresh (program : Node) (journal : Journal) : Interpretation Builtin :=
  match Builtin.install id Arena.empty Scope.empty journal with
  | (_, arena, scope, journal) => interpret program scope ⟨arena, journal⟩

theorem Shell.runProgram_eq (options : Options) (program : Node) (journal : Journal) :
    runProgram options program journal =
      let result := interpretFresh program journal
      let tree := if options.dumpTree then program.render ++ "\n" else ""
      let log := logOf options result.machine.journal
      if result.errors = [] then ⟨0, tree ++ bindingLines result.machine.arena result.scope, log⟩
      else ⟨1, tree, log ++ String.join
        (result.errors.map fun e => report e.location e.message)⟩ := by
  obtain ⟨a, scope, journal', hinstall⟩ : ∃ a scope journal',
      Builtin.install id Arena.empty Scope.empty journal = (.ok (), a, scope, journal') :=
    ⟨_, _, _, rfl⟩
  unfold runProgram interpretFresh
  rw [hinstall]
  dsimp only
  split
  · rename_i herrors
    rw [if_pos herrors]
  · rename_i herrors
    rw [if_neg herrors]

theorem Shell.runProgram_stdout {program : Node} {journal : Journal}
    (herrors : (interpretFresh program journal).errors = []) (options : Options) :
    (runProgram options program journal).stdout =
      (if options.dumpTree then program.render ++ "\n" else "") ++
        bindingLines (interpretFresh program journal).machine.arena
          (interpretFresh program journal).scope := by
  rw [runProgram_eq]
  dsimp only
  rw [if_pos herrors]

theorem interpretFresh_same : ∃ (a : Arena Builtin) (scope : Scope), Rooted a scope ∧
    ∀ program journal, (interpretFresh program journal).errors = [] →
      SameRun (interpretFresh program journal) (execute program.children scope ⟨a, {}⟩) := by
  obtain ⟨a, scope, hrooted, hinstall⟩ := Builtin.install_rooted id rooted_empty
  refine ⟨a, scope, hrooted, fun program journal herrors => ?_⟩
  obtain ⟨result, journal', heq⟩ := hinstall journal
  unfold interpretFresh at herrors ⊢
  rw [heq] at herrors ⊢
  exact interpret_same (kind_of_interpret herrors) scope rfl

theorem interpretFresh_root {program : Node} {journal : Journal}
    (herrors : (interpretFresh program journal).errors = []) :
    ∃ b, (interpretFresh program journal).scope = .root b := by
  obtain ⟨a, scope, hrooted, hfresh⟩ := interpretFresh_same
  have hrun := hfresh program journal herrors
  rw [hrun.scope]
  exact (execute_settles hrooted (hrun.errors_eq_nil herrors)).1.root

theorem interpretFresh_covers {program program' : Node}
    (hsubset : ∀ node' ∈ program'.children, ∃ node ∈ program.children, node.Matches node')
    {journal journal' : Journal} (herrors : (interpretFresh program journal).errors = [])
    (herrors' : (interpretFresh program' journal').errors = []) :
    Covers (interpretFresh program journal).machine.arena
      (interpretFresh program' journal').machine.arena (interpretFresh program journal).scope
      (interpretFresh program' journal').scope := by
  obtain ⟨a, scope, hrooted, hfresh⟩ := interpretFresh_same
  have hrun := hfresh program journal herrors
  have hrun' := hfresh program' journal' herrors'
  rw [hrun.arena, hrun'.arena, hrun.scope, hrun'.scope]
  exact execute_covers_of_subset hsubset hrooted (hrun.errors_eq_nil herrors)
    (hrun'.errors_eq_nil herrors')

theorem Covers.texts_eq {a a' : Arena φ} {b b' : Bindings} (h : Covers a a' (.root b) (.root b'))
    (h' : Covers a' a (.root b') (.root b)) (name : String) :
    (b.find? name).map a.render = (b'.find? name).map a'.render := by
  cases hfind' : b'.find? name with
  | some x' =>
      obtain ⟨x, hget, halike⟩ := h name x' (Scope.get_root_eq_ok.mpr hfind')
      rw [Scope.get_root_eq_ok.mp hget, Option.map_some, Option.map_some, halike.render_eq]
  | none =>
      cases hfind : b.find? name with
      | none => rw [Option.map_none, Option.map_none]
      | some x =>
          obtain ⟨x', hget', -⟩ := h' name x (Scope.get_root_eq_ok.mpr hfind)
          rw [Scope.get_root_eq_ok.mp hget'] at hfind'
          cases hfind'

/-- Statements are declarative. If two programs have the same statements, in
whatever order and wherever located, and both run without errors, then they
bind the same names to values of the same text, and what a run prints of them
is the same. -/
theorem interpretFresh_of_perm {program program' : Node} {nodes : List Node}
    (hperm : program.children.Perm nodes) (hmatches : MatchesAll nodes program'.children)
    {journal journal' : Journal} (herrors : (interpretFresh program journal).errors = [])
    (herrors' : (interpretFresh program' journal').errors = []) :
    (∀ name, name ∈ (interpretFresh program journal).scope.bindings.names ↔
      name ∈ (interpretFresh program' journal').scope.bindings.names) ∧
    (∀ name h h', (interpretFresh program journal).scope.get name = .ok h →
      (interpretFresh program' journal').scope.get name = .ok h' →
      (interpretFresh program journal).machine.arena.render h =
        (interpretFresh program' journal').machine.arena.render h') ∧
    Shell.bindingLines (interpretFresh program journal).machine.arena
        (interpretFresh program journal).scope =
      Shell.bindingLines (interpretFresh program' journal').machine.arena
        (interpretFresh program' journal').scope ∧
    ∀ options : Shell.Options, options.dumpTree = false →
      (Shell.runProgram options program journal).stdout =
        (Shell.runProgram options program' journal').stdout := by
  obtain ⟨b, hb⟩ := interpretFresh_root herrors
  obtain ⟨b', hb'⟩ := interpretFresh_root herrors'
  have hcovers := interpretFresh_covers (fun node' hnode' => by
    obtain ⟨node, hnode, hmatch⟩ := hmatches.exists_left node' hnode'
    exact ⟨node, hperm.mem_iff.mpr hnode, hmatch⟩) herrors herrors'
  have hcovers' := interpretFresh_covers (fun node hnode =>
    hmatches.symm.exists_left node (hperm.mem_iff.mp hnode)) herrors' herrors
  rw [hb, hb'] at hcovers hcovers'
  have htexts := hcovers.texts_eq hcovers'
  have hlines : Shell.bindingLines (interpretFresh program journal).machine.arena
      (interpretFresh program journal).scope =
      Shell.bindingLines (interpretFresh program' journal').machine.arena
        (interpretFresh program' journal').scope := by
    rw [hb, hb']
    exact Shell.bindingLines_eq htexts
  refine ⟨fun name => ?_, fun name h h' hget hget' => ?_, hlines, fun options htree => ?_⟩
  · rw [hb, hb']
    exact Bindings.mem_names_iff_of_map_eq (htexts name)
  · have htext := htexts name
    rw [hb, Scope.get_root_eq_ok] at hget
    rw [hb', Scope.get_root_eq_ok] at hget'
    rw [hget, hget'] at htext
    exact Option.some.inj htext
  · rw [Shell.runProgram_stdout herrors, Shell.runProgram_stdout herrors', htree, hlines]
    rfl

theorem interpretFresh_of_perm_two_orders : ∃ program program' : Node,
    (parseAlone (.ofText "x = concat(\"a\")\ny = [\"b\"]") {}).1 = .ok program ∧
    (parseAlone (.ofText "y = [\"b\"]\nx = concat(\"a\")") {}).1 = .ok program' ∧
    MatchesAll program.children.reverse program'.children ∧
    (interpretFresh program {}).errors = [] ∧ (interpretFresh program' {}).errors = [] ∧
    Shell.bindingLines (interpretFresh program {}).machine.arena (interpretFresh program {}).scope =
      Shell.bindingLines (interpretFresh program' {}).machine.arena
        (interpretFresh program' {}).scope := by
  obtain ⟨program, hprogram, herrors⟩ := exists_of_any
    (show (parseAlone (.ofText "x = concat(\"a\")\ny = [\"b\"]") {}).1.toOption.any (fun program =>
      (interpretFresh program {}).errors.isEmpty) = true by decide +kernel)
  obtain ⟨program', hprogram', hothers⟩ := exists_of_any
    (show (parseAlone (.ofText "y = [\"b\"]\nx = concat(\"a\")") {}).1.toOption.any
      (fun program' => (interpretFresh program' {}).errors.isEmpty &&
        (parseAlone (.ofText "x = concat(\"a\")\ny = [\"b\"]") {}).1.toOption.any (fun program =>
          decide (MatchesAll program.children.reverse program'.children))) = true
      by decide +kernel)
  obtain ⟨herrors', hmatches⟩ := Bool.and_eq_true_iff.mp hothers
  rw [hprogram] at hmatches
  have hmatches := of_decide_eq_true hmatches
  have herrors := List.isEmpty_iff.mp herrors
  have herrors' := List.isEmpty_iff.mp herrors'
  have hresult := interpretFresh_of_perm (List.reverse_perm program.children).symm hmatches herrors
    herrors'
  exact ⟨program, program', hprogram, hprogram', hmatches, herrors, herrors', hresult.2.2.1⟩

end BuildScript
