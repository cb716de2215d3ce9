import BuildScript.Proofs.GrammarCompleteness
import BuildScript.Proofs.GrammarSoundness

namespace BuildScript.Grammar

open BuildScript.Parser BuildScript.Derivation

variable {τ : Type} [TokenStream τ] {good : String → Prop}
  {splice : String → Location → Parser (Rewindable τ) Node} {included : String → Node → Prop}

/-- A statement that is followed by another one, or by the end, is not
continued by it. -/
def Separate (kind : TokenKind) : Prop :=
  kind = .endOfStream ∨ ∃ name, kind = .identifier name

theorem Separate.apart {kind : TokenKind} (h : Separate kind) : Apart kind := by
  rcases h with rfl | ⟨name, rfl⟩
  · exact ⟨by decide, by decide, by decide⟩
  · exact ⟨by simp, by simp, by simp⟩

theorem assignment_refuses {value : Parser (Rewindable τ) Node} {ts : List Token}
    (h : ∀ name kinds, ts.map Token.kind ≠ .identifier name :: .assign :: kinds) :
    Refuses (assignment value) ts := by
  refine Refuses.here_bind fun _ => Refuses.read (accepts_identifier.map _) ?_
  rintro t ts node rfl ht
  obtain ⟨⟨name, location⟩, hname, -⟩ := Option.map_eq_some_iff.mp ht
  refine Refuses.read (accepts_expect rfl (by decide)) ?_
  rintro u ts _ rfl hu
  refine absurd ?_ (h name (ts.map Token.kind))
  simp [kind_of_name? hname, kind_of_ofKind? hu]

theorem callKinds_append_ne_assignment {callee : Path} {arguments : List Argument}
    (rest : List TokenKind) (name : String) (kinds : List TokenKind) :
    callKinds callee arguments ++ rest ≠ .identifier name :: .assign :: kinds := by
  rw [callKinds, List.append_assoc]
  exact path_append_ne_keyword (by decide) _ name kinds

theorem statement_refuses {value : Parser (Rewindable τ) Node} {budget : Nat} {ts : List Token}
    (h : NextKind (· = .endOfStream) ts) : Refuses (statement value budget) ts := by
  obtain ⟨t, ts, rfl, ht⟩ := h
  refine Refuses.firstOf (assignment_refuses ?_) (Triple.firstOf_all ?_)
  · intro name kinds hkinds
    rw [List.map_cons, ht] at hkinds
    cases hkinds
  · intro q hq
    obtain rfl := List.mem_singleton.mp hq
    exact call_refuses (by simp [ht])

theorem statement_runs (hsplice : Splices good splice included) {derived : Statement}
    {budget : Nat} {used rest : List Token} (hpreferred : derived.Preferred)
    (hused : used.map Token.kind = derived.kinds) (hrest : NextKind Apart rest)
    (hbudget : (used ++ rest).length < budget) :
    Runs good (statement (value splice budget) budget) (used ++ rest) rest
      (derived.HasTree included) derived.specifiers := by
  cases derived with
  | assignment target derived =>
      obtain ⟨t, used, rfl, ht, hused⟩ := List.map_eq_cons_iff.mp hused
      obtain ⟨u, used, rfl, hu, hused⟩ := List.map_eq_cons_iff.mp hused
      simp only [List.cons_append, List.length_cons] at hbudget
      have hvalue := value_runs hsplice derived budget hpreferred used rest hused
        (fun _ => hrest) (by omega)
      refine Runs.first (Runs.here_bind fun location => ?_)
      refine Runs.step (accepts_identifier.map _) (by rw [name?_of_eq ht]; rfl) ?_
      refine Runs.step (accepts_expect rfl (by decide)) (ofKind?_of_eq hu) ?_
      refine Runs.bind hvalue (fun node hnode => ?_) (List.append_nil _).symm
      exact Runs.pure ⟨location, t.location, node, rfl, hnode⟩
  | call callee arguments =>
      refine Runs.skip (assignment_refuses ?_) ?_
      · intro name kinds
        rw [List.map_append, hused]
        exact callKinds_append_ne_assignment _ name kinds
      · exact Runs.first (call_runs hused hbudget (Nat.lt_succ_of_lt hbudget)
          (arguments_run hsplice arguments budget hpreferred))

theorem separate_of_statements {statements : List Statement} {used rest : List Token}
    (hused : used.map Token.kind = statementKinds statements)
    (hrest : NextKind (· = .endOfStream) rest) : NextKind Separate (used ++ rest) := by
  cases statements with
  | nil =>
      obtain rfl := List.map_eq_nil_iff.mp hused
      exact hrest.mono fun _ => .inl
  | cons first others =>
      obtain ⟨name, kinds, hkinds⟩ := first.kinds_eq_cons
      rw [statementKinds_cons, hkinds] at hused
      obtain ⟨t, used, rfl, ht, -⟩ := List.map_eq_cons_iff.mp hused
      exact ⟨t, used ++ rest, rfl, .inr ⟨name, ht⟩⟩

theorem statements_run (hsplice : Splices good splice included) {budget : Nat} {rest : List Token}
    (hrest : NextKind (· = .endOfStream) rest) (statements : List Statement) {count : Nat}
    {used : List Token} (hpreferred : ∀ derived ∈ statements, derived.Preferred)
    (hused : used.map Token.kind = statementKinds statements)
    (hbudget : (used ++ rest).length < budget) (hcount : (used ++ rest).length < count) :
    Runs good (many (statement (value splice budget) budget) count) (used ++ rest) rest
      (List.Forall₂ (Statement.HasTree included) statements) (programSpecifiers statements) := by
  induction statements generalizing count used with
  | nil =>
      obtain rfl := List.map_eq_nil_iff.mp hused
      obtain ⟨count, rfl⟩ := Nat.exists_eq_succ_of_ne_zero (Nat.ne_zero_of_lt hcount)
      refine (Runs.many_nil (statement_refuses hrest)).mono ?_
      rintro nodes rfl
      exact .nil
  | cons first others ih =>
      obtain ⟨count, rfl⟩ := Nat.exists_eq_succ_of_ne_zero (Nat.ne_zero_of_lt hcount)
      rw [statementKinds_cons] at hused
      obtain ⟨usedFirst, usedOthers, rfl, hkindsFirst, hkindsOthers, hfits, hbudget, hcount⟩ :=
        exists_items hused first.kinds_ne_nil hbudget hcount
      rw [List.append_assoc]
      have hfirst := statement_runs hsplice (hpreferred first (by simp)) hkindsFirst
        ((separate_of_statements hkindsOthers hrest).mono fun _ => Separate.apart) hfits
      have hlater : ∀ derived ∈ others, derived.Preferred :=
        fun derived hderived => hpreferred derived (List.mem_cons_of_mem first hderived)
      have hothers := ih hlater hkindsOthers hbudget hcount
      refine (Runs.many_cons hfirst hothers List.flatMap_cons).mono ?_
      rintro nodes ⟨node, nodes, rfl, hnode, hnodes⟩
      exact .cons hnode hnodes

/-- A program runs along its preferred derivation up to the end. -/
theorem program_runs (hsplice : Splices good splice included) {statements : List Statement}
    {budget : Nat} {used rest : List Token}
    (hpreferred : ∀ derived ∈ statements, derived.Preferred)
    (hused : used.map Token.kind = statementKinds statements)
    (hrest : NextKind (· = .endOfStream) rest) (hbudget : (used ++ rest).length < budget) :
    Runs good (program (value splice budget) budget) (used ++ rest) rest
      (ProgramHasTree included statements) (programSpecifiers statements) := by
  have hrun := statements_run hsplice hrest statements hpreferred hused hbudget hbudget
  refine Runs.here_bind fun location => ?_
  refine Runs.bind hrun (fun nodes hnodes => ?_) (List.append_nil _).symm
  obtain ⟨last, others, rfl, hlast⟩ := hrest
  refine Triple.bind (Q := fun t ts => t = last ∧ ts = last :: others) ?_ ?_
  · refine Triple.peek ?_ fun _ hfault => by cases hfault
    rintro t ts hts
    cases hts
    exact ⟨rfl, rfl⟩
  · rintro t _ ⟨rfl, rfl⟩
    rw [if_pos (by simp [Token.isEnd, hlast])]
    exact Runs.pure ⟨location, nodes, rfl, hnodes⟩

end BuildScript.Grammar
