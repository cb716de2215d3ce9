import BuildScript.Proofs.ParallelEvaluation

namespace BuildScript

open Eval

def Node.assignedName? : Node → Option String
  | ⟨.assignment, _, _, target :: _⟩ => some target.text
  | _ => none

variable {φ : Type} [Host φ]

/-- A statement that was run to its end from the bindings `b` and the machine
`m`. An assignment makes one binding, of its target to the handle of its value;
a call makes none. -/
inductive Commits : Node → Bindings → Machine φ → List (String × Handle) → Bindings →
    Machine φ → Prop where
  | assignment {location : Location} {text? : Option String} {target value : Node}
      {others : List Node} {b b' : Bindings} {m m' : Machine φ} {handle : Handle}
      (hvalue : evaluate value (.root b)
        { m with journal := m.journal.record (.executing .assignment location) } = .ok handle m')
      (hnull : handle ≠ .null) (hfresh : target.text ∉ b.names)
      (hbound : b'.entries = b.entries ++ [(target.text, handle)]) :
      Commits ⟨.assignment, location, text?, target :: value :: others⟩ b m
        [(target.text, handle)] b' m'
  | call {location : Location} {text? : Option String} {children : List Node} {b : Bindings}
      {m m' : Machine φ} {handle : Handle}
      (hcall : evaluate ⟨.call, location, text?, children⟩ (.root b)
        { m with journal := m.journal.record (.executing .call location) } = .ok handle m') :
      Commits ⟨.call, location, text?, children⟩ b m [] b m'

/-- Statements that were run one after the other, each to its end, and the
bindings they made. -/
inductive Completed : List Node → Bindings → Machine φ → List (String × Handle) → Bindings →
    Machine φ → Prop where
  | nil (b : Bindings) (m : Machine φ) : Completed [] b m [] b m
  | cons {node : Node} {nodes : List Node} {b b₁ b' : Bindings} {m m₁ m' : Machine φ}
      {bound added : List (String × Handle)} (hnode : Commits node b m bound b₁ m₁)
      (hnodes : Completed nodes b₁ m₁ added b' m') :
      Completed (node :: nodes) b m (bound ++ added) b' m'

theorem Commits.entries_eq {node : Node} {b b' : Bindings} {m m' : Machine φ}
    {bound : List (String × Handle)} (h : Commits node b m bound b' m') :
    b'.entries = b.entries ++ bound ∧ bound.map Prod.fst = node.assignedName?.toList := by
  cases h with
  | assignment _ _ _ hbound => exact ⟨hbound, rfl⟩
  | call _ => exact ⟨(List.append_nil _).symm, rfl⟩

theorem Completed.entries_eq {nodes : List Node} {b b' : Bindings} {m m' : Machine φ}
    {added : List (String × Handle)} (h : Completed nodes b m added b' m') :
    b'.entries = b.entries ++ added ∧ added.map Prod.fst = nodes.filterMap Node.assignedName? := by
  induction h with
  | nil b m => simp
  | @cons node nodes b b₁ b' m m₁ m' bound added hnode _ ih =>
      obtain ⟨hentries, hnames⟩ := hnode.entries_eq
      constructor
      · rw [ih.1, hentries, List.append_assoc]
      · rw [List.map_append, hnames, ih.2, List.filterMap_cons]
        cases node.assignedName? <;> simp

theorem executeStatement_commits {node : Node} {b : Bindings} {scope : Scope} {m m' : Machine φ}
    (h : executeStatement node (.root b) m = .ok scope m') :
    ∃ bound b', scope = .root b' ∧ Commits node b m bound b' m' := by
  generalize hroot : Scope.root b = root at h
  unfold executeStatement at h
  split at h <;> subst hroot
  · obtain ⟨_, m₁, hrecord, hstatement⟩ := bind_eq_ok h
    obtain ⟨handle, m₂, hvalue, hassign⟩ := bind_eq_ok hstatement
    have hnull := ne_null_of_assign hassign
    obtain ⟨hput, rfl⟩ := assign_eq_ok hassign
    obtain ⟨b', rfl, hfresh, hbound⟩ := Scope.put_root_eq_ok hput
    cases hrecord
    exact ⟨_, b', rfl, .assignment hvalue hnull hfresh hbound⟩
  · obtain ⟨_, m₁, hrecord, hstatement⟩ := bind_eq_ok h
    obtain ⟨handle, m₂, hcall, hpure⟩ := bind_eq_ok hstatement
    cases hrecord
    cases hpure
    exact ⟨[], b, rfl, .call hcall⟩
  · obtain ⟨_, m₁, -, hfail⟩ := bind_eq_ok h
    cases hfail

/-- What is left of a run once its first `k` statements have completed: they
were all there are, or the next one stops the run, and its machine is the last
one. -/
def EndsAt (statements : List Node) (k : Nat) (b : Bindings) (m : Machine φ)
    (result : Interpretation φ) : Prop :=
  (k = statements.length ∧ result = ⟨m, .root b, []⟩) ∨
    ∃ statement errors m', statements[k]? = some statement ∧ errors ≠ [] ∧
      executeStatement statement (.root b) m = .error errors m' ∧ result = ⟨m', .root b, errors⟩

theorem execute_commits (statements : List Node) (b : Bindings) (m : Machine φ) :
    ∃ k ≤ statements.length, ∃ added b' reached,
      Completed (statements.take k) b m added b' reached ∧
      EndsAt statements k b' reached (execute statements (.root b) m) := by
  induction statements generalizing b m with
  | nil => exact ⟨0, Nat.le_refl 0, [], b, m, .nil b m, .inl ⟨rfl, execute_nil _ _⟩⟩
  | cons statement statements ih =>
      rw [execute_cons, Interpretation.step]
      cases hstatement : executeStatement statement (.root b) m with
      | ok scope m₁ =>
          obtain ⟨bound, b₁, rfl, hcommits⟩ := executeStatement_commits hstatement
          obtain ⟨k, hk, added, b', reached, hcompleted, hends⟩ := ih b₁ m₁
          refine ⟨k + 1, Nat.succ_le_succ hk, bound ++ added, b', reached, ?_, ?_⟩
          · exact .cons hcommits hcompleted
          · apply hends.imp
            · rintro ⟨rfl, hresult⟩
              exact ⟨rfl, hresult⟩
            · rintro ⟨next, errors, m', hnext, hrest⟩
              exact ⟨next, errors, m', by simpa using hnext, hrest⟩
      | error errors m₁ =>
          refine ⟨0, Nat.zero_le _, [], b, m, .nil b m, .inr ⟨statement, errors, m₁, rfl, ?_⟩⟩
          have herrors := executeStatement_throws_ne_nil statement (.root b) m errors m₁ hstatement
          exact ⟨herrors, hstatement, rfl⟩

theorem interpret_eq (location : Location) (text? : Option String) (statements : List Node)
    (scope : Scope) (m : Machine φ) :
    interpret ⟨.program, location, text?, statements⟩ scope m =
      let begun := { m with journal := m.journal.record (.interpreting statements.length) }
      let result := execute statements scope begun
      if result.errors = [] then result
      else { result with
        machine := { result.machine with
          journal := result.machine.journal.record
            (.interpretationStopped result.errors.length) } } := by
  simp only [interpret, executeProgram]
  split
  · rename_i herrors
    rw [if_pos herrors]
  · rename_i herrors
    rw [if_neg herrors]

/-- A program is run up to the first statement that fails, if there is one. The
scope then has what it had, in its place, and one binding more for each
assignment among the statements before: of its name to the handle its value was
evaluated to, which is not null. The statement that fails adds no binding and
stops the run, so that its machine is the last one. -/
theorem interpret_commits (location : Location) (text? : Option String) (statements : List Node)
    (b : Bindings) (m : Machine φ) :
    let result := interpret ⟨.program, location, text?, statements⟩ (.root b) m
    ∃ k ≤ statements.length, ∃ added b' reached,
      Completed (statements.take k) b
        { m with journal := m.journal.record (.interpreting statements.length) } added b' reached ∧
      result.scope = .root b' ∧ b'.entries = b.entries ++ added ∧
      added.map Prod.fst = (statements.take k).filterMap Node.assignedName? ∧
      (result.errors = [] ↔ k = statements.length) ∧
      (k = statements.length → result.machine = reached) ∧
      ∀ statement, statements[k]? = some statement → ∃ m',
        executeStatement statement (.root b') reached = .error result.errors m' ∧
        result.machine = { m' with
          journal := m'.journal.record (.interpretationStopped result.errors.length) } := by
  intro result
  obtain ⟨k, hk, added, b', reached, hcompleted, hends⟩ := execute_commits statements b
    { m with journal := m.journal.record (.interpreting statements.length) }
  have hresult : result = _ := interpret_eq location text? statements (.root b) m
  obtain ⟨hentries, hnames⟩ := hcompleted.entries_eq
  refine ⟨k, hk, added, b', reached, hcompleted, ?_⟩
  rcases hends with ⟨rfl, hrun⟩ | ⟨statement, errors, m', hstatement, herrors, hfails, hrun⟩
  · simp only [hrun, if_true] at hresult
    rw [hresult]
    refine ⟨rfl, hentries, hnames, by simp, fun _ => rfl, ?_⟩
    intro statement hstatement
    simp at hstatement
  · have hlt : k < statements.length := (List.getElem?_eq_some_iff.mp hstatement).choose
    simp only [hrun, herrors, if_false] at hresult
    rw [hresult]
    refine ⟨rfl, hentries, hnames, ?_, fun hall => absurd hall (Nat.ne_of_lt hlt), ?_⟩
    · simp only [herrors, false_iff]
      exact Nat.ne_of_lt hlt
    · intro other hother
      rw [hstatement] at hother
      cases hother
      exact ⟨m', hfails, rfl⟩

end BuildScript
