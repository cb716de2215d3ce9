import BuildScript.Proofs.Throwing
import BuildScript.Proofs.SpelledTrees

namespace BuildScript

open Eval Node

variable {φ α : Type} {P : Location → Prop}

def AllAt (P : Location → Prop) (errors : List RuntimeError) : Prop := ∀ e ∈ errors, P e.location

theorem allAt_single {fault : RuntimeFault} {location : Location} (h : P location) :
    AllAt P [⟨fault, location⟩] := by
  simpa [AllAt] using h

/-- A fault with an argument that the call does not have is reported at the
call. -/
theorem allAt_replyErrors {location : Location} {places : List Location} (reply : Reply)
    (h : P location) (hplaces : ∀ place ∈ places, P place) :
    AllAt P (replyErrors location places reply) := by
  intro e he
  rcases List.mem_append.mp he with hargument | hcall
  · obtain ⟨⟨id, message⟩, -, rfl⟩ := List.mem_map.mp hargument
    show P (places.getD id location)
    cases hplace : places[id]? with
    | none => rwa [List.getD_eq_getElem?_getD, hplace]
    | some place =>
        rw [List.getD_eq_getElem?_getD, hplace]
        exact hplaces place (List.mem_of_getElem? hplace)
  · obtain ⟨message, -, rfl⟩ := List.mem_map.mp hcall
    exact h

namespace Throws

variable {location : Location}

theorem inspect_at (h : P location) (ask : Arena φ → Except ObjectError α) :
    Throws (AllAt P) (Eval.inspect location ask) := by
  intro m errors m' hrun
  rw [inspect_apply] at hrun
  split at hrun
  · cases hrun
  · cases hrun
    exact allAt_single h

theorem lookUp_at (h : P location) (scope : Scope) (name : String) :
    Throws (AllAt P) (Eval.lookUp location scope name : Eval φ Handle) := by
  intro m errors m' hrun
  rw [lookUp_apply] at hrun
  split at hrun
  · cases hrun
  · cases hrun
    exact allAt_single h

theorem assign_at (h : P location) (scope : Scope) (name : String) (value : Handle) :
    Throws (AllAt P) (Eval.assign location scope name value : Eval φ Scope) := by
  intro m errors m' hrun
  rw [assign_apply] at hrun
  split at hrun
  · cases hrun
    exact allAt_single h
  · split at hrun
    · cases hrun
    · cases hrun
      exact allAt_single h

theorem invoke_at [Host φ] (h : P location) {places : List Location}
    (hplaces : ∀ place ∈ places, P place) (body : φ) (args : Arguments) :
    Throws (AllAt P) (Eval.invoke location places body args) := by
  intro m errors m' hrun
  rw [invoke_apply] at hrun
  split at hrun
  · cases hrun
  · cases hrun
    exact allAt_replyErrors _ h hplaces

end Throws

variable [Host φ]

private theorem throws_at :
    (∀ (node : Node) (scope : Scope), node.Everywhere (P ·.location) →
      Throws (AllAt P) (evaluate node scope : Eval φ Handle)) ∧
    (∀ (nodes : List Node) (scope : Scope) (m : Machine φ),
      (∀ node ∈ nodes, node.Everywhere (P ·.location)) →
      (execute nodes scope m).errors = [] ∨ AllAt P (execute nodes scope m).errors) ∧
    (∀ (nodes : List Node) (scope : Scope) (args : Arguments),
      (∀ node ∈ nodes, node.Everywhere (P ·.location)) →
      Throws (AllAt P) (evaluateArguments nodes scope args : Eval φ Arguments)) ∧
    (∀ (nodes : List Node) (scope : Scope), (∀ node ∈ nodes, node.Everywhere (P ·.location)) →
      Throws (AllAt P) (evaluateAll nodes scope : Eval φ (List Handle))) := by
  apply evaluate.mutual_induct
  case case1 =>
    intro location text? scope h
    rw [evaluate]
    exact .lookUp_at (everywhere_mk.mp h).1 scope _
  case case2 =>
    intro location text? owner others scope ih h
    obtain ⟨hlocation, hchildren⟩ := everywhere_mk.mp h
    rw [evaluate]
    exact .bind (ih (hchildren owner List.mem_cons_self)) fun handle => .inspect_at hlocation _
  case case3 =>
    intro location text? children scope _
    rw [evaluate]
    exact .create _
  case case4 =>
    intro location text? entries scope ih h
    rw [evaluate]
    exact .bind (ih (everywhere_mk.mp h).2) fun handles => .create _
  case case5 =>
    intro location text? body element source others scope ihSource ihBody h
    have hchildren := (everywhere_mk.mp h).2
    have hsource := hchildren source (by simp)
    rw [evaluate]
    refine .bind (ihSource hsource) fun list =>
      .bind (.inspect_at (everywhere_iff.mp hsource).1 _) fun handles => ?_
    exact .bind (.mapM handles fun handle => ihBody handle (hchildren body List.mem_cons_self))
      fun results => .create _
  case case6 =>
    intro location text? callee arguments scope ihCallee ihArguments h
    obtain ⟨hlocation, hchildren⟩ := everywhere_mk.mp h
    obtain ⟨hcallee, harguments⟩ := List.forall_mem_cons.mp hchildren
    have hplaces : ∀ place ∈ arguments.map (·.location), P place := by
      intro place hplace
      obtain ⟨argument, hargument, rfl⟩ := List.mem_map.mp hplace
      exact (everywhere_iff.mp (harguments argument hargument)).1
    rw [evaluate]
    refine .bind (ihCallee hcallee) fun handle => .bind (.inspect_at hlocation _) fun body => ?_
    exact .bind (ihArguments harguments) fun args => .invoke_at hlocation hplaces body args
  case case7 =>
    intro location text? statements scope ih h
    rw [evaluate]
    refine .bind (.record _) fun _ => .bind (.finish fun m => ?_) fun scope => .create _
    exact ih m (everywhere_mk.mp h).2
  case case8 =>
    intro kind location text? children scope hobject hattribute hstring hlist hlistFor hcall
      hprogram h
    rw [evaluate]
    · exact .fail (allAt_single (everywhere_mk.mp h).1)
    all_goals assumption
  case case9 =>
    intro scope m _
    rw [execute]
    exact .inl rfl
  case case10 =>
    intro location text? target value others nodes scope m ihValue ihNodes h
    obtain ⟨hstatement, hnodes⟩ := List.forall_mem_cons.mp h
    obtain ⟨hlocation, hchildren⟩ := everywhere_mk.mp hstatement
    rw [execute]
    refine Throws.step (.bind (.record _) fun _ => .bind (ihValue (hchildren value (by simp)))
      fun handle => .assign_at hlocation scope _ handle) (fun scope m => ?_) m
    exact ihNodes scope m hnodes
  case case11 =>
    intro location text? children nodes scope m ihCall ihNodes h
    obtain ⟨hstatement, hnodes⟩ := List.forall_mem_cons.mp h
    rw [execute]
    refine Throws.step (.bind (.record _) fun _ => .bind (ihCall hstatement) fun _ => .pure scope)
      (fun scope m => ?_) m
    exact ihNodes scope m hnodes
  case case12 =>
    intro kind location text? children nodes scope m hassignment hcall ihNodes h
    obtain ⟨hstatement, hnodes⟩ := List.forall_mem_cons.mp h
    rw [execute]
    · refine Throws.step (.bind (.record _) fun _ =>
        .fail (allAt_single (everywhere_mk.mp hstatement).1)) (fun scope m => ?_) m
      exact ihNodes scope m hnodes
    all_goals assumption
  case case13 =>
    intro scope args _
    rw [evaluateArguments]
    exact .pure args
  case case14 =>
    intro location text? nodes scope args h
    rw [evaluateArguments]
    exact .fail (allAt_single (everywhere_mk.mp (List.forall_mem_cons.mp h).1).1)
  case case15 =>
    intro location text? value others nodes scope args ihValue ihNodes h
    obtain ⟨hargument, hnodes⟩ := List.forall_mem_cons.mp h
    rw [evaluateArguments]
    exact .bind (ihValue ((everywhere_mk.mp hargument).2 value List.mem_cons_self))
      fun handle => ihNodes handle hnodes
  case case16 =>
    intro node nodes scope args hempty hkeyword ihNode ihNodes h
    obtain ⟨hnode, hnodes⟩ := List.forall_mem_cons.mp h
    rw [evaluateArguments]
    · exact .bind (ihNode hnode) fun handle => ihNodes handle hnodes
    · exact hempty
    · exact hkeyword
  case case17 =>
    intro scope _
    rw [evaluateAll]
    exact .pure []
  case case18 =>
    intro node nodes scope ihNode ihNodes h
    obtain ⟨hnode, hnodes⟩ := List.forall_mem_cons.mp h
    rw [evaluateAll]
    exact .bind (ihNode hnode) fun handle => .bind (ihNodes hnodes) fun handles => .pure _

theorem execute_errors_at {nodes : List Node} (h : ∀ node ∈ nodes, node.Everywhere (P ·.location))
    (scope : Scope) (m : Machine φ) : AllAt P (execute nodes scope m).errors := by
  rcases throws_at.2.1 nodes scope m h with hnil | hall
  · rw [hnil]
    exact fun e he => nomatch he
  · exact hall

theorem interpret_errors (program : Node) (scope : Scope) (m : Machine φ) :
    (interpret program scope m).errors = (executeProgram program scope
      { m with journal := m.journal.record (.interpreting program.children.length) }).errors := by
  unfold interpret
  dsimp only
  split
  · rfl
  · rfl

/-- The errors of a program are located at nodes of its tree. -/
theorem interpret_errors_at {program : Node} (h : program.Everywhere (P ·.location))
    (scope : Scope) (m : Machine φ) : AllAt P (interpret program scope m).errors := by
  obtain ⟨hlocation, hchildren⟩ := everywhere_iff.mp h
  rw [interpret_errors]
  unfold executeProgram
  split
  · exact execute_errors_at hchildren scope _
  · exact allAt_single hlocation

end BuildScript
