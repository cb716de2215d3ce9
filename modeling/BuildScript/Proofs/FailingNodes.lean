import BuildScript.Proofs.ErrorPlaces
import BuildScript.Proofs.Moments
import BuildScript.Proofs.Recording

/-!
Where the errors of an interpretation come from. An interpretation that stops
has come to a last moment, and its errors are those of that moment: the fault of
the node that was begun there, which is then the only error, or all errors of
one reply to a call. The main statement says so of every program, both ways,
together with what recorders show: an evaluation finishes if and only if it
reported nothing.
-/

namespace BuildScript

open Eval

variable {φ : Type}

theorem Scope.get_eq_error {scope : Scope} {name : String} {e : ScopeError}
    (h : scope.get name = .error e) : e = .undefined name := by
  induction scope with
  | root bindings =>
      rw [get] at h
      split at h <;> cases h
      rfl
  | nested bindings outer ih =>
      rw [get] at h
      split at h
      · cases h
      · exact ih h

theorem Scope.put_eq_error {scope : Scope} {name : String} {handle : Handle} {e : ScopeError}
    (h : scope.put name handle = .error e) : e = .alreadyDefined name := by
  unfold put at h
  split at h <;> cases h
  rfl

theorem Arena.attr_eq_error {a : Arena φ} {h : Handle} {name : String} {e : ObjectError}
    (herror : a.attr h name = .error e) : e = .unknownAttribute name (a.get h).type := by
  unfold attr Object.attr at herror
  cases hobject : a.get h with
  | struct attributes =>
      rw [hobject] at herror
      dsimp only at herror
      split at herror <;> cases herror
      rfl
  | _ =>
      rw [hobject] at herror
      cases herror
      rfl

theorem Arena.asList_eq_error {a : Arena φ} {h : Handle} {e : ObjectError}
    (herror : a.asList h = .error e) : e = .notAList (a.get h).type := by
  unfold asList at herror
  cases hobject : a.get h <;> rw [hobject] at herror <;> cases herror <;> rfl

theorem Arena.asFunction_eq_error {a : Arena φ} {h : Handle} {e : ObjectError}
    (herror : a.asFunction h = .error e) : e = .notCallable (a.get h).type := by
  unfold asFunction at herror
  cases hobject : a.get h <;> rw [hobject] at herror <;> cases herror <;> rfl

namespace Moment

variable [Host φ]

def Fails (moment : Moment φ) (errors : List RuntimeError) : Prop :=
  ∃ last, Relation.ReflTransGen Leads moment last ∧ last.Stops errors

variable {moment next : Moment φ} {fault : RuntimeFault} {location : Location}
  {errors : List RuntimeError}

/-- A node that is itself at fault does not speak for a function. -/
theorem Faults.ne_reply (h : moment.Faults fault location) (message : String) :
    fault ≠ .call message ∧ fault ≠ .argument message := by
  cases h <;> constructor <;> intro heq <;> cases heq

theorem Faults.fails (h : moment.Faults fault location) : moment.Fails [⟨fault, location⟩] :=
  ⟨moment, .refl, .inl ⟨fault, location, h, rfl⟩⟩

theorem Leads.fails (h : moment.Leads next) (hnext : next.Fails errors) : moment.Fails errors := by
  obtain ⟨last, hleads, hstops⟩ := hnext
  exact ⟨last, .head h hleads, hstops⟩

end Moment

/-- Going through items in order came past some of them and failed at the next
one. -/
def FailsAt {γ δ : Type} (Past : List γ → δ → Prop) (Here : γ → δ → Prop) (items : List γ) :
    Prop :=
  ∃ before item after d, items = before ++ item :: after ∧ Past before d ∧ Here item d

namespace FailsAt

variable {γ δ : Type} {Past Past' : List γ → δ → Prop} {Here : γ → δ → Prop} {item : γ}
  {items : List γ}

theorem head {d : δ} (hpast : Past [] d) (h : Here item d) : FailsAt Past Here (item :: items) :=
  ⟨[], item, items, d, rfl, hpast, h⟩

theorem cons (hpast : ∀ before d, Past' before d → Past (item :: before) d)
    (h : FailsAt Past' Here items) : FailsAt Past Here (item :: items) := by
  obtain ⟨before, next, after, d, rfl, hbefore, hnext⟩ := h
  exact ⟨item :: before, next, after, d, rfl, hpast before d hbefore, hnext⟩

theorem mapM {α : Type} {f : γ → Eval φ α} {errors : List RuntimeError}
    {m m' : Machine φ} (h : items.mapM f m = .error errors m') :
    FailsAt (fun before m₁ => ∃ results, before.mapM f m = .ok results m₁)
      (fun item m₁ => ∃ m', f item m₁ = .error errors m') items := by
  induction items generalizing m with
  | nil => cases h
  | cons item items ih =>
      rw [List.mapM_cons] at h
      rcases bind_eq_error h with hitem | ⟨result, m₁, hitem, hothers⟩
      · exact head ⟨[], rfl⟩ ⟨m', hitem⟩
      · rcases bind_eq_error hothers with hitems | ⟨_, _, _, hpure⟩
        · refine cons (fun before m₂ hpast => ?_) (ih hitems)
          obtain ⟨results, hbefore⟩ := hpast
          refine ⟨result :: results, ?_⟩
          rw [List.mapM_cons, bind_of_eq_ok hitem, bind_of_eq_ok hbefore]
          rfl
        · cases hpure

end FailsAt

variable [Host φ]

/-- Statements that were all run, with the scope and the machine they left. -/
def RanTo (scope : Scope) (m : Machine φ) (statements : List Node) (d : Scope × Machine φ) :
    Prop :=
  execute statements scope m = ⟨d.2, d.1, []⟩

def StatementFails (errors : List RuntimeError) (node : Node) (d : Scope × Machine φ) : Prop :=
  Moment.Fails ⟨.statement, node, d.1, d.2⟩ errors

theorem execute_cons_fails {node : Node} {nodes : List Node} {scope : Scope} {m : Machine φ}
    (hstatement : ∀ errors m', executeStatement node scope m = .error errors m' →
      StatementFails errors node (scope, m))
    (hnodes : ∀ scope' (m' : Machine φ), (execute nodes scope' m').errors ≠ [] →
      FailsAt (RanTo scope' m') (StatementFails (execute nodes scope' m').errors) nodes)
    (h : (execute (node :: nodes) scope m).errors ≠ []) :
    FailsAt (RanTo scope m) (StatementFails (execute (node :: nodes) scope m).errors)
      (node :: nodes) := by
  have hcons := fun nodes => execute_cons node nodes scope m
  unfold Interpretation.step at hcons
  cases hrun : executeStatement node scope m with
  | ok scope' m' =>
      simp only [hrun] at hcons
      rw [hcons] at h ⊢
      refine .cons (fun before d hbefore => ?_) (hnodes scope' m' h)
      exact (hcons before).trans hbefore
  | error errors m' =>
      simp only [hrun] at hcons
      rw [hcons]
      exact .head (d := (scope, m)) (execute_nil scope m) (hstatement errors m' hrun)

private theorem evaluation_fails :
    (∀ (node : Node) (scope : Scope) (m : Machine φ) (errors : List RuntimeError) (m' : Machine φ),
      evaluate node scope m = .error errors m' →
      Moment.Fails ⟨.value, node, scope, m⟩ errors) ∧
    (∀ (nodes : List Node) (scope : Scope) (m : Machine φ), (execute nodes scope m).errors ≠ [] →
      FailsAt (RanTo scope m) (StatementFails (execute nodes scope m).errors) nodes) ∧
    (∀ (nodes : List Node) (scope : Scope) (args : Arguments) (m : Machine φ)
      (errors : List RuntimeError) (m' : Machine φ),
      evaluateArguments nodes scope args m = .error errors m' →
      FailsAt (fun before m₁ => ∃ args', evaluateArguments before scope args m = .ok args' m₁)
        (fun node m₁ => Moment.Fails ⟨.argument, node, scope, m₁⟩ errors) nodes) ∧
    (∀ (nodes : List Node) (scope : Scope), ∀ node ∈ nodes, ∀ (m : Machine φ)
      (errors : List RuntimeError) (m' : Machine φ), evaluate node scope m = .error errors m' →
      Moment.Fails ⟨.value, node, scope, m⟩ errors) := by
  apply evaluate.mutual_induct
  case case1 =>
    intro location text? scope m errors m' h
    rw [evaluate] at h
    obtain ⟨e, he, rfl⟩ := lookUp_eq_error h
    obtain rfl := Scope.get_eq_error he
    exact (Moment.Faults.undefined he).fails
  case case2 =>
    intro location text? owner others scope ih m errors m' h
    rw [evaluate] at h
    rcases bind_eq_error h with howner | ⟨handle, m₁, howner, hattribute⟩
    · exact Moment.Leads.owner.fails (ih m errors m' howner)
    · obtain ⟨e, he, rfl⟩ := inspect_eq_error hattribute
      obtain rfl := Arena.attr_eq_error he
      exact (Moment.Faults.unknownAttribute howner he).fails
  case case3 =>
    intro location text? children scope m errors m' h
    rw [evaluate] at h
    cases h
  case case4 =>
    intro location text? entries scope ih m errors m' h
    rw [evaluate] at h
    rcases bind_eq_error h with hentries | ⟨handles, m₁, -, hcreate⟩
    · rw [evaluateAll_eq_mapM] at hentries
      obtain ⟨before, node, after, m₁, rfl, ⟨handles, hbefore⟩, m₂, hnode⟩ := FailsAt.mapM hentries
      rw [← evaluateAll_eq_mapM] at hbefore
      have hmem : node ∈ before ++ node :: after := List.mem_append_right _ List.mem_cons_self
      exact (Moment.Leads.entry hbefore).fails (ih node hmem m₁ errors m₂ hnode)
    · cases hcreate
  case case5 =>
    intro location text? body element source others scope ihSource ihBody m errors m' h
    rw [evaluate] at h
    rcases bind_eq_error h with hsource | ⟨list, m₁, hsource, hloop⟩
    · exact Moment.Leads.source.fails (ihSource m errors m' hsource)
    rcases bind_eq_error hloop with hlist | ⟨handles, m₂, hlist, hbodies⟩
    · obtain ⟨e, he, rfl⟩ := inspect_eq_error hlist
      obtain rfl := Arena.asList_eq_error he
      exact (Moment.Faults.notAList hsource he).fails
    obtain ⟨hlist, rfl⟩ := inspect_eq_ok hlist
    rcases bind_eq_error hbodies with hbodies | ⟨results, m₃, -, hcreate⟩
    · obtain ⟨before, handle, after, m₃, rfl, ⟨results, hbefore⟩, m₄, hbody⟩ :=
        FailsAt.mapM hbodies
      exact (Moment.Leads.body hsource hlist hbefore).fails (ihBody handle m₃ errors m₄ hbody)
    · cases hcreate
  case case6 =>
    intro location text? callee arguments scope ihCallee ihArguments m errors m' h
    rw [evaluate] at h
    rcases bind_eq_error h with hcallee | ⟨handle, m₁, hcallee, hcall⟩
    · exact Moment.Leads.callee.fails (ihCallee m errors m' hcallee)
    rcases bind_eq_error hcall with hfunction | ⟨body, m₂, hfunction, hrest⟩
    · obtain ⟨e, he, rfl⟩ := inspect_eq_error hfunction
      obtain rfl := Arena.asFunction_eq_error he
      exact (Moment.Faults.notCallable hcallee he).fails
    obtain ⟨hfunction, rfl⟩ := inspect_eq_ok hfunction
    rcases bind_eq_error hrest with harguments | ⟨args, m₃, harguments, hinvoke⟩
    · obtain ⟨before, node, after, m₃, rfl, ⟨args, hbefore⟩, hnode⟩ :=
        ihArguments m₂ errors m' harguments
      exact (Moment.Leads.argument ⟨handle, m₂, hcallee, hfunction, hbefore⟩).fails hnode
    · obtain ⟨hfailed, rfl⟩ := invoke_eq_error hinvoke
      refine ⟨_, .refl, .inr ?_⟩
      exact .call ⟨handle, m₂, hcallee, hfunction, harguments⟩ rfl hfailed
  case case7 =>
    intro location text? statements scope ih m errors m' h
    rw [evaluate] at h
    rcases bind_eq_error h with hrecord | ⟨_, m₁, hrecord, hprogram⟩
    · cases hrecord
    cases hrecord
    rcases bind_eq_error hprogram with hstatements | ⟨_, _, _, hcreate⟩
    · obtain ⟨rfl, hne, -⟩ := Interpretation.finish_eq_error hstatements
      obtain ⟨before, node, after, ⟨scope', m₁⟩, rfl, hbefore, hnode⟩ := ih _ hne
      exact (Moment.Leads.imported hbefore).fails hnode
    · cases hcreate
  case case8 =>
    intro kind location text? children scope hobject hattribute hstring hlist hlistFor hcall
      hprogram m errors m' h
    rw [evaluate] at h
    · cases h
      refine Moment.Faults.fails (.unexpected ?_)
      have hnot : kind ≠ .object := by
        rintro rfl
        cases children with
        | nil => exact hobject rfl rfl
        | cons owner others => exact hattribute owner others rfl rfl
      show Node.isEvaluable _ = false
      unfold Node.isEvaluable
      grind
    all_goals assumption
  case case9 =>
    intro scope m h
    exact absurd (by rw [execute]) h
  case case10 =>
    intro location text? target value others nodes scope m ihValue ihNodes h
    refine execute_cons_fails (fun errors m' hstatement => ?_) ihNodes h
    rcases bind_eq_error hstatement with hrecord | ⟨_, m₁, hrecord, hassignment⟩
    · cases hrecord
    cases hrecord
    rcases bind_eq_error hassignment with hvalue | ⟨handle, m₂, hvalue, hassign⟩
    · exact Moment.Leads.assigned.fails (ihValue _ errors m' hvalue)
    · rcases assign_eq_error hassign with ⟨rfl, rfl⟩ | ⟨hnull, e, he, rfl⟩
      · exact (Moment.Faults.nullAssignment hvalue).fails
      · obtain rfl := Scope.put_eq_error he
        exact (Moment.Faults.alreadyDefined hvalue hnull he).fails
  case case11 =>
    intro location text? children nodes scope m ihCall ihNodes h
    refine execute_cons_fails (fun errors m' hstatement => ?_) ihNodes h
    rcases bind_eq_error hstatement with hrecord | ⟨_, m₁, hrecord, hcall⟩
    · cases hrecord
    cases hrecord
    rcases bind_eq_error hcall with hvalue | ⟨_, _, _, hpure⟩
    · exact Moment.Leads.called.fails (ihCall _ errors m' hvalue)
    · cases hpure
  case case12 =>
    intro kind location text? children nodes scope m hassignment hcall ihNodes h
    refine execute_cons_fails (fun errors m' hstatement => ?_) ihNodes h
    have hfail : executeStatement ⟨kind, location, text?, children⟩ scope m =
        .error [⟨.unexpectedNode kind, location⟩]
          { m with journal := m.journal.record (.executing kind location) } := by
      rw [executeStatement]
      · rfl
      · exact hassignment
      · exact hcall
    rw [hfail] at hstatement
    cases hstatement
    refine Moment.Faults.fails (.unexpected ?_)
    show Node.isRunnable _ = false
    unfold Node.isRunnable
    grind
  case case13 =>
    intro scope args m errors m' h
    rw [evaluateArguments] at h
    cases h
  case case14 =>
    intro location text? nodes scope args m errors m' h
    rw [evaluateArguments] at h
    cases h
    refine .head ⟨args, by rw [evaluateArguments]; rfl⟩ ?_
    exact (Moment.Faults.unexpected rfl).fails
  case case15 =>
    intro location text? value others nodes scope args ihValue ihNodes m errors m' h
    rw [evaluateArguments_cons] at h
    rcases bind_eq_error h with hvalue | ⟨handle, m₁, hvalue, hnodes⟩
    · refine .head ⟨args, by rw [evaluateArguments]; rfl⟩ ?_
      exact Moment.Leads.keyword.fails (ihValue m errors m' hvalue)
    · refine .cons (fun before m₂ hpast => ?_) (ihNodes handle m₁ errors m' hnodes)
      obtain ⟨args', hbefore⟩ := hpast
      refine ⟨args', ?_⟩
      rw [evaluateArguments_cons, bind_of_eq_ok hvalue]
      exact hbefore
  case case16 =>
    intro node nodes scope args hempty hkeyword ihNode ihNodes m errors m' h
    have hkind : node.kind ≠ .keyword := by
      obtain ⟨kind, location, text?, children⟩ := node
      rintro rfl
      cases children with
      | nil => exact hempty location text? rfl
      | cons value others => exact hkeyword location text? value others rfl
    have hpush : ∀ handle, args.push node handle = args.pushPositional handle := fun handle =>
      if_neg hkind
    rw [evaluateArguments_cons, evaluateArgument_positional hkind] at h
    rcases bind_eq_error h with hnode | ⟨handle, m₁, hnode, hnodes⟩
    · refine .head ⟨args, by rw [evaluateArguments]; rfl⟩ ?_
      exact (Moment.Leads.positional hkind).fails (ihNode m errors m' hnode)
    · rw [hpush] at hnodes
      refine .cons (fun before m₂ hpast => ?_) (ihNodes handle m₁ errors m' hnodes)
      obtain ⟨args', hbefore⟩ := hpast
      refine ⟨args', ?_⟩
      rw [evaluateArguments_cons, evaluateArgument_positional hkind, bind_of_eq_ok hnode, hpush,
        hbefore]
  case case17 => exact fun scope node hnode => absurd hnode List.not_mem_nil
  case case18 =>
    exact fun node nodes scope ihNode ihNodes => List.forall_mem_cons.mpr ⟨ihNode, ihNodes⟩

theorem executeProgram_fails {program : Node} {scope : Scope} {m : Machine φ}
    (h : (executeProgram program scope m).errors ≠ []) :
    Moment.Fails ⟨.main, program, scope, m⟩ (executeProgram program scope m).errors := by
  obtain ⟨kind, location, text?, statements⟩ := program
  by_cases hkind : kind = .program
  · subst hkind
    obtain ⟨before, node, after, ⟨scope', m'⟩, rfl, hbefore, hnode⟩ :=
      evaluation_fails.2.1 statements scope m h
    exact (Moment.Leads.statement hbefore).fails hnode
  · have hrun : executeProgram ⟨kind, location, text?, statements⟩ scope m =
        ⟨m, scope, [⟨.unexpectedNode kind, location⟩]⟩ := by
      cases kind with
      | program => exact absurd rfl hkind
      | _ => rfl
    rw [hrun]
    exact (Moment.Faults.unexpected (by simpa [Role.takes] using hkind)).fails

/-- An evaluation finishes if and only if it reported nothing, and what was
reported is what evaluation stops with. An interpretation stops with errors if
and only if they are those of one node it comes to: its own fault, which is the
only error and not a function's, or all that the function of a call answered. -/
theorem interpret_errors_have_one_origin :
    (∀ (node : Node) (scope : Scope) (r : Recorder φ),
      ((∃ handle r', Recording.evaluate node scope r = .ok handle r') ↔
        (Recording.left (Recording.evaluate node scope r)).errors = r.errors) ∧
      Recording.evaluate node scope r =
        Recording.noted r.errors (evaluate node scope r.machine)) ∧
    ∀ (program : Node) (scope : Scope) (m : Machine φ),
      Recording.interpret program scope m = (interpret program scope m).noted [] ∧
      ∀ errors, (interpret program scope m).errors = errors ∧ errors ≠ [] ↔
        ∃ moment : Moment φ, Relation.ReflTransGen Moment.Leads
            ⟨.main, program, scope,
              { m with journal := m.journal.record (.interpreting program.children.length) }⟩
            moment ∧
          ((∃ fault location, moment.Faults fault location ∧
              (∀ message, fault ≠ .call message ∧ fault ≠ .argument message) ∧
              errors = [⟨fault, location⟩]) ∨
            moment.Refused errors) := by
  refine ⟨fun node scope r => ?_, fun program scope m => ⟨?_, fun errors => ⟨?_, ?_⟩⟩⟩
  · have hrecords := Recording.evaluate_records (φ := φ) node scope
    exact ⟨hrecords.finishes_iff (evaluate_throws_ne_nil node scope) r,
      hrecords r.machine r.errors⟩
  · exact Recording.interpret_eq program scope m
  · rintro ⟨rfl, hne⟩
    rw [interpret_errors] at hne ⊢
    obtain ⟨moment, hleads, ⟨fault, location, hfault, herrors⟩ | hrefused⟩ :=
      executeProgram_fails hne
    · exact ⟨moment, hleads, .inl ⟨fault, location, hfault, hfault.ne_reply, herrors⟩⟩
    · exact ⟨moment, hleads, .inr hrefused⟩
  · rintro ⟨moment, hleads, hstops⟩
    have hstops : moment.Stops errors := by
      rcases hstops with ⟨fault, location, hfault, -, herrors⟩ | hrefused
      · exact .inl ⟨fault, location, hfault, herrors⟩
      · exact .inr hrefused
    rw [interpret_errors]
    exact ⟨Moment.errors_eq_of_leads hleads hstops, hstops.ne_nil⟩

end BuildScript
