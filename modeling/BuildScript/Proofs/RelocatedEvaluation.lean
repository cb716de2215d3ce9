import BuildScript.Proofs.Relocation
import BuildScript.Proofs.Actions

namespace BuildScript

open Eval

namespace Node

theorem MatchesAll.eq_nil {ms : List Node} (h : MatchesAll ms []) : ms = [] := by
  cases ms with
  | nil => rfl
  | cons m ms => exact h.elim

theorem MatchesAll.eq_cons {ms ns : List Node} {n : Node} (h : MatchesAll ms (n :: ns)) :
    ∃ m ms', ms = m :: ms' ∧ m.Matches n ∧ MatchesAll ms' ns := by
  cases ms with
  | nil => exact h.elim
  | cons m ms => exact ⟨m, ms, rfl, h.1, h.2⟩

end Node

open Node

variable {φ α β : Type}

/-- Two evaluations ended alike: with the same value or the same faults, and
with the same objects. -/
def SameResult : EStateM.Result (List RuntimeError) (Machine φ) α →
    EStateM.Result (List RuntimeError) (Machine φ) α → Prop
  | .ok a m, .ok a' m' => a = a' ∧ m.arena = m'.arena
  | .error errors m, .error errors' m' =>
      errors.map (·.fault) = errors'.map (·.fault) ∧ m.arena = m'.arena
  | _, _ => False

def SameEval (p q : Eval φ α) : Prop :=
  ∀ m m' : Machine φ, m.arena = m'.arena → SameResult (p m) (q m')

namespace SameEval

theorem pure (a : α) : SameEval (Pure.pure a : Eval φ α) (Pure.pure a) :=
  fun _ _ harena => ⟨rfl, harena⟩

theorem fail (location location' : Location) (fault : RuntimeFault) :
    SameEval (Eval.fail location fault : Eval φ α) (Eval.fail location' fault) :=
  fun _ _ harena => ⟨rfl, harena⟩

theorem record (e e' : Event) : SameEval (Eval.record e : Eval φ Unit) (Eval.record e') :=
  fun _ _ harena => ⟨rfl, harena⟩

theorem bind {p q : Eval φ α} {f g : α → Eval φ β} (hp : SameEval p q)
    (hf : ∀ a, SameEval (f a) (g a)) : SameEval (p >>= f) (q >>= g) := by
  intro m m' harena
  have hresult := hp m m' harena
  rw [bind_apply, bind_apply]
  cases h : p m with
  | ok a m₁ =>
      cases h' : q m' with
      | ok a' m₁' =>
          rw [h, h'] at hresult
          obtain ⟨rfl, harena'⟩ := hresult
          exact hf a m₁ m₁' harena'
      | error errors m₁' =>
          rw [h, h'] at hresult
          exact hresult.elim
  | error errors m₁ =>
      cases h' : q m' with
      | ok a' m₁' =>
          rw [h, h'] at hresult
          exact hresult.elim
      | error errors' m₁' =>
          rw [h, h'] at hresult
          exact hresult

theorem create (object : Object φ) : SameEval (Eval.create object) (Eval.create object) := by
  intro m m' harena
  rw [create_apply, create_apply, harena]
  exact ⟨rfl, rfl⟩

theorem inspect (location location' : Location) (ask : Arena φ → Except ObjectError α) :
    SameEval (Eval.inspect location ask) (Eval.inspect location' ask) := by
  intro m m' harena
  rw [inspect_apply, inspect_apply, harena]
  cases ask m'.arena with
  | ok a => exact ⟨rfl, harena⟩
  | error e => exact ⟨rfl, harena⟩

theorem lookUp (location location' : Location) (scope : Scope) (name : String) :
    SameEval (Eval.lookUp location scope name : Eval φ Handle)
      (Eval.lookUp location' scope name) := by
  unfold Eval.lookUp
  cases scope.get name with
  | ok handle => exact pure handle
  | error e => exact fail location location' (.scope e)

theorem assign (location location' : Location) (scope : Scope) (name : String) (value : Handle) :
    SameEval (Eval.assign location scope name value : Eval φ Scope)
      (Eval.assign location' scope name value) := by
  unfold Eval.assign
  by_cases hnull : value.isNull = true
  · rw [if_pos hnull, if_pos hnull]
    exact fail location location' (.nullAssignment name)
  · rw [if_neg hnull, if_neg hnull]
    cases scope.put name value with
    | ok scope => exact pure scope
    | error e => exact fail location location' (.scope e)

theorem invoke [Host φ] (location location' : Location) (places places' : List Location) (body : φ)
    (args : Arguments) :
    SameEval (Eval.invoke location places body args) (Eval.invoke location' places' body args) := by
  intro m m' harena
  rw [invoke_apply, invoke_apply, harena]
  by_cases hsuccess : (Host.call body m'.arena args).1.isSuccess = true
  · rw [if_pos hsuccess, if_pos hsuccess]
    exact ⟨rfl, rfl⟩
  · rw [if_neg hsuccess, if_neg hsuccess]
    refine ⟨?_, rfl⟩
    rw [map_fault_replyErrors, map_fault_replyErrors]

theorem mapM {γ : Type} {f g : γ → Eval φ β} (items : List γ) (h : ∀ c, SameEval (f c) (g c)) :
    SameEval (items.mapM f) (items.mapM g) := by
  induction items with
  | nil => exact pure []
  | cons item items ih =>
      rw [List.mapM_cons, List.mapM_cons]
      exact bind (h item) fun first => bind ih fun others => pure (first :: others)

end SameEval

/-- Two runs of statements that made the same objects, left the same scope and
met the same faults. -/
structure SameRun (i j : Interpretation φ) : Prop where
  arena : i.machine.arena = j.machine.arena
  scope : i.scope = j.scope
  faults : i.errors.map (·.fault) = j.errors.map (·.fault)

namespace SameRun

theorem symm {i j : Interpretation φ} (h : SameRun i j) : SameRun j i :=
  ⟨h.arena.symm, h.scope.symm, h.faults.symm⟩

theorem trans {i j k : Interpretation φ} (h : SameRun i j) (h' : SameRun j k) : SameRun i k :=
  ⟨h.arena.trans h'.arena, h.scope.trans h'.scope, h.faults.trans h'.faults⟩

theorem errors_eq_nil {i j : Interpretation φ} (h : SameRun i j) (hnil : i.errors = []) :
    j.errors = [] := by
  have hfaults := h.faults
  rw [hnil] at hfaults
  simpa using hfaults.symm

theorem finish {i j : Interpretation φ} (h : SameRun i j) :
    SameResult i.finish j.finish := by
  rcases i with ⟨m, scope, errors⟩
  rcases j with ⟨m', scope', errors'⟩
  obtain ⟨harena, hscope, hfaults⟩ := h
  cases errors with
  | nil =>
      obtain rfl : errors' = [] := by simpa using hfaults.symm
      exact ⟨hscope, harena⟩
  | cons e errors =>
      cases errors' with
      | nil => simp at hfaults
      | cons e' errors' => exact ⟨hfaults, harena⟩

theorem step {scope : Scope} {p q : Eval φ Scope}
    {f g : Scope → Machine φ → Interpretation φ} (hp : SameEval p q)
    (hf : ∀ scope m m', m.arena = m'.arena → SameRun (f scope m) (g scope m')) {m m' : Machine φ}
    (harena : m.arena = m'.arena) :
    SameRun (Interpretation.step scope p f m) (Interpretation.step scope q g m') := by
  have hresult := hp m m' harena
  unfold Interpretation.step
  cases h : p m with
  | ok scope₁ m₁ =>
      cases h' : q m' with
      | ok scope₁' m₁' =>
          rw [h, h'] at hresult
          obtain ⟨rfl, harena'⟩ := hresult
          exact hf scope₁ m₁ m₁' harena'
      | error errors m₁' =>
          rw [h, h'] at hresult
          exact hresult.elim
  | error errors m₁ =>
      cases h' : q m' with
      | ok scope₁' m₁' =>
          rw [h, h'] at hresult
          exact hresult.elim
      | error errors' m₁' =>
          rw [h, h'] at hresult
          exact ⟨hresult.2, rfl, hresult.1⟩

end SameRun

variable [Host φ]

private theorem same_evaluation :
    (∀ (node : Node) (scope : Scope) (node' : Node), node.Matches node' →
      SameEval (evaluate node scope : Eval φ Handle) (evaluate node' scope)) ∧
    (∀ (nodes : List Node) (scope : Scope) (m : Machine φ) (nodes' : List Node) (m' : Machine φ),
      MatchesAll nodes nodes' → m.arena = m'.arena →
      SameRun (execute nodes scope m) (execute nodes' scope m')) ∧
    (∀ (nodes : List Node) (scope : Scope) (args : Arguments) (nodes' : List Node),
      MatchesAll nodes nodes' →
      SameEval (evaluateArguments nodes scope args : Eval φ Arguments)
        (evaluateArguments nodes' scope args)) ∧
    (∀ (nodes : List Node) (scope : Scope) (nodes' : List Node), MatchesAll nodes nodes' →
      SameEval (evaluateAll nodes scope : Eval φ (List Handle)) (evaluateAll nodes' scope)) := by
  -- the arenas stay equal, so both sides come by the same handles
  apply evaluate.mutual_induct
    (fun node scope => ∀ node' : Node, node.Matches node' →
      SameEval (evaluate node scope : Eval φ Handle) (evaluate node' scope))
    (fun nodes scope m => ∀ (nodes' : List Node) (m' : Machine φ), MatchesAll nodes nodes' →
      m.arena = m'.arena → SameRun (execute nodes scope m) (execute nodes' scope m'))
    (fun nodes scope args => ∀ nodes' : List Node, MatchesAll nodes nodes' →
      SameEval (evaluateArguments nodes scope args : Eval φ Arguments)
        (evaluateArguments nodes' scope args))
    (fun nodes scope => ∀ nodes' : List Node, MatchesAll nodes nodes' →
      SameEval (evaluateAll nodes scope : Eval φ (List Handle)) (evaluateAll nodes' scope))
  case case1 =>
    rintro location text? scope ⟨_, location', _, children'⟩ ⟨rfl, rfl, hchildren⟩
    obtain rfl := hchildren.symm.eq_nil
    rw [evaluate, evaluate]
    exact .lookUp location location' scope _
  case case2 =>
    rintro location text? owner others scope ih ⟨_, location', _, children'⟩ ⟨rfl, rfl, hchildren⟩
    obtain ⟨owner', others', rfl, howner, -⟩ := hchildren.symm.eq_cons
    rw [evaluate, evaluate]
    exact .bind (ih owner' howner.symm) fun handle => .inspect location location' _
  case case3 =>
    rintro location text? children scope ⟨_, location', _, children'⟩ ⟨rfl, rfl, -⟩
    rw [evaluate, evaluate]
    exact .create _
  case case4 =>
    rintro location text? entries scope ih ⟨_, location', _, entries'⟩ ⟨rfl, rfl, hentries⟩
    rw [evaluate, evaluate]
    exact .bind (ih entries' hentries) fun handles => .create _
  case case5 =>
    rintro location text? body element source others scope ihSource ihBody
      ⟨_, location', _, children'⟩ ⟨rfl, rfl, hchildren⟩
    obtain ⟨body', children', rfl, hbody, hchildren⟩ := hchildren.symm.eq_cons
    obtain ⟨element', children', rfl, helement, hchildren⟩ := hchildren.eq_cons
    obtain ⟨source', others', rfl, hsource, -⟩ := hchildren.eq_cons
    rw [evaluate, evaluate, helement.text_eq]
    refine .bind (ihSource source' hsource.symm) fun list => ?_
    refine .bind (.inspect _ _ _) fun handles => ?_
    refine .bind (.mapM handles fun handle => ?_) fun results => .create _
    exact ihBody handle body' hbody.symm
  case case6 =>
    rintro location text? callee arguments scope ihCallee ihArguments ⟨_, location', _, children'⟩
      ⟨rfl, rfl, hchildren⟩
    obtain ⟨callee', arguments', rfl, hcallee, harguments⟩ := hchildren.symm.eq_cons
    rw [evaluate, evaluate]
    refine .bind (ihCallee callee' hcallee.symm) fun handle => ?_
    refine .bind (.inspect location location' _) fun body => ?_
    refine .bind (ihArguments arguments' harguments.symm) fun args => ?_
    exact .invoke location location' _ _ body args
  case case7 =>
    rintro location text? statements scope ih ⟨_, location', _, statements'⟩
      ⟨rfl, rfl, hstatements⟩
    rw [evaluate, evaluate]
    refine .bind (.record _ _) fun _ => .bind ?_ fun scope => .create _
    intro m m' harena
    exact (ih m statements' m' hstatements harena).finish
  case case8 =>
    rintro kind location text? children scope hobject hattribute hstring hlist hlistFor hcall
      hprogram ⟨_, location', _, children'⟩ ⟨rfl, rfl, hchildren⟩
    rw [evaluate, evaluate]
    · exact .fail location location' _
    · rintro hkind rfl
      exact hobject hkind hchildren.eq_nil
    · rintro owner' others' hkind rfl
      obtain ⟨owner, others, rfl, -⟩ := hchildren.eq_cons
      exact hattribute owner others hkind rfl
    · exact hstring
    · exact hlist
    · rintro body' element' source' others' hkind rfl
      obtain ⟨body, children, rfl, -, hchildren⟩ := hchildren.eq_cons
      obtain ⟨element, children, rfl, -, hchildren⟩ := hchildren.eq_cons
      obtain ⟨source, others, rfl, -⟩ := hchildren.eq_cons
      exact hlistFor body element source others hkind rfl
    · rintro callee' arguments' hkind rfl
      obtain ⟨callee, arguments, rfl, -⟩ := hchildren.eq_cons
      exact hcall callee arguments hkind rfl
    · exact hprogram
    · exact hobject
    · exact hattribute
    · exact hstring
    · exact hlist
    · exact hlistFor
    · exact hcall
    · exact hprogram
  case case9 =>
    intro scope m nodes' m' hnodes harena
    obtain rfl := hnodes.symm.eq_nil
    rw [execute, execute]
    exact ⟨harena, rfl, rfl⟩
  case case10 =>
    intro location text? target value others nodes scope m ihValue ihNodes nodes' m' hnodes harena
    obtain ⟨⟨_, location', _, children'⟩, nodes', rfl, ⟨rfl, rfl, hchildren⟩, hlater⟩ :=
      hnodes.symm.eq_cons
    obtain ⟨target', children', rfl, htarget, hchildren⟩ := hchildren.eq_cons
    obtain ⟨value', others', rfl, hvalue, -⟩ := hchildren.eq_cons
    rw [execute, execute, htarget.text_eq]
    refine .step ?_ (fun scope m m' harena => ihNodes scope m nodes' m' hlater.symm harena) harena
    refine .bind (.record _ _) fun _ => .bind (ihValue value' hvalue.symm) fun handle => ?_
    exact .assign location location' scope _ handle
  case case11 =>
    intro location text? children nodes scope m ihCall ihNodes nodes' m' hnodes harena
    obtain ⟨⟨_, location', _, children'⟩, nodes', rfl, ⟨rfl, rfl, hchildren⟩, hlater⟩ :=
      hnodes.symm.eq_cons
    rw [execute, execute]
    refine .step ?_ (fun scope m m' harena => ihNodes scope m nodes' m' hlater.symm harena) harena
    have hcall := ihCall ⟨.call, location', _, children'⟩ ⟨rfl, rfl, hchildren.symm⟩
    exact .bind (.record _ _) fun _ => .bind hcall fun _ => .pure scope
  case case12 =>
    intro kind location text? children nodes scope m hassignment hcall ihNodes nodes' m' hnodes
      harena
    obtain ⟨⟨_, location', _, children'⟩, nodes', rfl, ⟨rfl, rfl, hchildren⟩, hlater⟩ :=
      hnodes.symm.eq_cons
    rw [execute, execute]
    · refine .step ?_ (fun scope m m' harena => ihNodes scope m nodes' m' hlater.symm harena) harena
      exact .bind (.record _ _) fun _ => .fail location location' _
    · rintro target' value' others' hkind rfl
      obtain ⟨target, children, rfl, -, hchildren⟩ := hchildren.symm.eq_cons
      obtain ⟨value, others, rfl, -⟩ := hchildren.eq_cons
      exact hassignment target value others hkind rfl
    · exact hcall
    · exact hassignment
    · exact hcall
  case case13 =>
    intro scope args nodes' hnodes
    obtain rfl := hnodes.symm.eq_nil
    rw [evaluateArguments]
    exact .pure args
  case case14 =>
    intro location text? nodes scope args nodes' hnodes
    obtain ⟨⟨_, location', _, children'⟩, nodes', rfl, ⟨rfl, rfl, hchildren⟩, -⟩ :=
      hnodes.symm.eq_cons
    obtain rfl := hchildren.eq_nil
    rw [evaluateArguments, evaluateArguments]
    exact .fail location location' _
  case case15 =>
    intro location text? value others nodes scope args ihValue ihNodes nodes' hnodes
    obtain ⟨⟨_, location', _, children'⟩, nodes', rfl, ⟨rfl, rfl, hchildren⟩, hlater⟩ :=
      hnodes.symm.eq_cons
    obtain ⟨value', others', rfl, hvalue, -⟩ := hchildren.eq_cons
    rw [evaluateArguments, evaluateArguments]
    exact .bind (ihValue value' hvalue.symm) fun handle => ihNodes handle nodes' hlater.symm
  case case16 =>
    intro node nodes scope args hempty hkeyword ihNode ihNodes nodes' hnodes
    obtain ⟨node', nodes', rfl, hnode, hlater⟩ := hnodes.symm.eq_cons
    rw [evaluateArguments, evaluateArguments]
    · exact .bind (ihNode node' hnode.symm) fun handle => ihNodes handle nodes' hlater.symm
    · rintro location' text? rfl
      rcases node with ⟨_, location, _, children⟩
      obtain ⟨rfl, rfl, hchildren⟩ := hnode
      obtain rfl := hchildren.symm.eq_nil
      exact hempty location text? rfl
    · rintro location' text? value' others' rfl
      rcases node with ⟨_, location, _, children⟩
      obtain ⟨rfl, rfl, hchildren⟩ := hnode
      obtain ⟨value, others, rfl, -⟩ := hchildren.symm.eq_cons
      exact hkeyword location text? value others rfl
    · exact hempty
    · exact hkeyword
  case case17 =>
    intro scope nodes' hnodes
    obtain rfl := hnodes.symm.eq_nil
    rw [evaluateAll]
    exact .pure []
  case case18 =>
    intro node nodes scope ihNode ihNodes nodes' hnodes
    obtain ⟨node', nodes', rfl, hnode, hlater⟩ := hnodes.symm.eq_cons
    rw [evaluateAll, evaluateAll]
    exact .bind (ihNode node' hnode.symm) fun handle =>
      .bind (ihNodes nodes' hlater.symm) fun handles => .pure _

theorem evaluate_same {node node' : Node} (h : node.Matches node') (scope : Scope) :
    SameEval (evaluate node scope : Eval φ Handle) (evaluate node' scope) :=
  same_evaluation.1 node scope node' h

theorem execute_same {nodes nodes' : List Node} (h : MatchesAll nodes nodes') (scope : Scope)
    {m m' : Machine φ} (harena : m.arena = m'.arena) :
    SameRun (execute nodes scope m) (execute nodes' scope m') :=
  same_evaluation.2.1 nodes scope m nodes' m' h harena

theorem kind_of_interpret {program : Node} {scope : Scope} {m : Machine φ}
    (h : (interpret program scope m).errors = []) : program.kind = .program := by
  unfold interpret executeProgram at h
  split at h
  · assumption
  · cases h

/-- Interpreting a program is running its statements, but for the journal. -/
theorem interpret_same {program : Node} (h : program.kind = .program) (scope : Scope)
    {m m' : Machine φ} (harena : m.arena = m'.arena) :
    SameRun (interpret program scope m) (execute program.children scope m') := by
  have hrun : SameRun (execute program.children scope
      { m with journal := m.journal.record (.interpreting program.children.length) })
      (execute program.children scope m') :=
    execute_same (MatchesAll.refl program.children) scope harena
  unfold interpret executeProgram
  rw [h]
  dsimp only
  split
  · exact hrun
  · exact ⟨hrun.arena, hrun.scope, hrun.faults⟩

end BuildScript
