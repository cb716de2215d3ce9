import BuildScript.Proofs.Transplant
import BuildScript.Proofs.Commitment
import BuildScript.Proofs.Acceptance
import BuildScript.Proofs.ParallelLoading
import BuildScript.Host.Builtin

namespace BuildScript

open Eval

variable {φ α α' β β' : Type}

/-- What a run on its own comes to if it begins with the machine `base`. -/
def Machine.onto (base : Machine φ) (m : Machine Empty) : Machine φ :=
  ⟨base.arena.onto m.arena, ⟨base.journal.events ++ m.journal.events⟩⟩

/-- A run on its own so far: it has its own objects only, and no function was
called. -/
structure Machine.IsAlone (m : Machine Empty) : Prop where
  owns : m.arena.Owns
  quiet : ∀ e ∈ m.journal.events, ∀ location count, e ≠ .calling location count

theorem Machine.onto_start (base : Machine φ) : base.onto ⟨Arena.empty, {}⟩ = base := by
  simp [onto, Arena.onto_empty]

theorem Machine.isAlone_start : Machine.IsAlone ⟨Arena.empty, {}⟩ :=
  ⟨Arena.owns_empty, fun e he => by simp at he⟩

/-- The result of a run on its own that began in `m`, and the result of the run
that began with what `m` comes to. -/
def Carried (base : Machine φ) (m : Machine Empty) (t : α → α') (Q : α → Nat → Prop) :
    EStateM.Result (List RuntimeError) (Machine Empty) α →
      EStateM.Result (List RuntimeError) (Machine φ) α' → Prop
  | .ok a m₁, result => result = .ok (t a) (base.onto m₁) ∧ m₁.IsAlone ∧
      m.arena.size ≤ m₁.arena.size ∧ Q a m₁.arena.size
  | .error errors m₁, result => result = .error errors (base.onto m₁) ∧ m₁.IsAlone ∧
      m.arena.size ≤ m₁.arena.size

/-- From any machine on its own with at least `n` objects on, the two evaluations
go on alike. -/
def Carries (base : Machine φ) (n : Nat) (t : α → α') (Q : α → Nat → Prop) (p : Eval Empty α)
    (p' : Eval φ α') : Prop :=
  ∀ m : Machine Empty, m.IsAlone → n ≤ m.arena.size →
    Carried base m t Q (p m) (p' (base.onto m))

namespace Carries

variable {base : Machine φ} {n : Nat} {t : α → α'} {Q : α → Nat → Prop} {p : Eval Empty α}
  {p' : Eval φ α'}

theorem pure {a : α} (h : ∀ n' ≥ n, Q a n') :
    Carries base n t Q (Pure.pure a) (Pure.pure (t a)) :=
  fun m hm hn => ⟨rfl, hm, Nat.le_refl _, h m.arena.size hn⟩

theorem fail (location : Location) (fault : RuntimeFault) :
    Carries base n t Q (Eval.fail location fault) (Eval.fail location fault) :=
  fun _ hm _ => ⟨rfl, hm, Nat.le_refl _⟩

theorem record {e : Event} (he : ∀ location count, e ≠ .calling location count) :
    Carries base n id (fun _ _ => True) (Eval.record e) (Eval.record e) := by
  intro m hm _
  refine ⟨?_, ⟨hm.owns, ?_⟩, Nat.le_refl _, trivial⟩
  · simp [record_apply, Machine.onto, Journal.record]
  · intro e' he'
    rcases Array.mem_push.mp he' with he' | rfl
    · exact hm.quiet e' he'
    · exact he

theorem bind {u : β → β'} {R : β → Nat → Prop} {f : α → Eval Empty β} {f' : α' → Eval φ β'}
    (hp : Carries base n t Q p p')
    (hf : ∀ a, ∀ n' ≥ n, Q a n' → Carries base n' u R (f a) (f' (t a))) :
    Carries base n u R (p >>= f) (p' >>= f') := by
  intro m hm hn
  have hcarried := hp m hm hn
  rw [bind_apply, bind_apply]
  cases hrun : p m with
  | ok a m₁ =>
      rw [hrun] at hcarried
      obtain ⟨hrun', hm₁, hsize, ha⟩ := hcarried
      have hrest := hf a m₁.arena.size (Nat.le_trans hn hsize) ha m₁ hm₁ (Nat.le_refl _)
      rw [hrun']
      dsimp only
      cases hresult : f a m₁ with
      | ok b m₂ =>
          rw [hresult] at hrest
          exact ⟨hrest.1, hrest.2.1, Nat.le_trans hsize hrest.2.2.1, hrest.2.2.2⟩
      | error errors m₂ =>
          rw [hresult] at hrest
          exact ⟨hrest.1, hrest.2.1, Nat.le_trans hsize hrest.2.2⟩
  | error errors m₁ =>
      rw [hrun] at hcarried
      obtain ⟨hrun', hm₁, hsize⟩ := hcarried
      rw [hrun']
      exact ⟨rfl, hm₁, hsize⟩

theorem create {object : Object Empty} (h : ∀ n' ≥ n, object.IsOwn n') :
    Carries base n (Handle.onto base.arena.size) (fun h n => h.IsOwn n) (Eval.create object)
      (Eval.create (object.onto base.arena.size)) := by
  intro m hm hn
  obtain ⟨howns, hown⟩ := hm.owns.create (h m.arena.size hn)
  refine ⟨?_, ⟨howns, hm.quiet⟩, ?_, hown⟩
  · simp only [create_apply, Machine.onto, Arena.create_onto hm.owns.nonempty]
    rfl
  · show m.arena.size ≤ (m.arena.create object).2.size
    rw [Arena.size_create]
    exact Nat.le_succ _

theorem inspect (location : Location) {ask : Arena Empty → Except ObjectError α}
    {ask' : Arena φ → Except ObjectError α'}
    (hask : ∀ a : Arena Empty, a.Owns → n ≤ a.size →
      ask' (base.arena.onto a) = (ask a).map t)
    (hQ : ∀ (a : Arena Empty) x, a.Owns → n ≤ a.size → ask a = .ok x → Q x a.size) :
    Carries base n t Q (Eval.inspect location ask) (Eval.inspect location ask') := by
  intro m hm hn
  rw [inspect_apply, inspect_apply, Machine.onto, hask m.arena hm.owns hn]
  cases hfound : ask m.arena with
  | ok x => exact ⟨rfl, hm, Nat.le_refl _, hQ m.arena x hm.owns hn hfound⟩
  | error e => exact ⟨rfl, hm, Nat.le_refl _⟩

theorem lookUp (location : Location) {scope : Scope} (hscope : scope.IsOwn n) (name : String) :
    Carries base n (Handle.onto base.arena.size) (fun h n => h.IsOwn n)
      (Eval.lookUp location scope name)
      (Eval.lookUp location (scope.onto base.arena.size) name) := by
  intro m hm hn
  rw [lookUp_apply, lookUp_apply, Scope.get_onto]
  cases hget : scope.get name with
  | ok h => exact ⟨rfl, hm, Nat.le_refl _, (hscope.get hget).mono hn⟩
  | error e => exact ⟨rfl, hm, Nat.le_refl _⟩

theorem assign (hbase : 0 < base.arena.size) (location : Location) {scope : Scope}
    (hscope : scope.IsOwn n) {value : Handle} (hvalue : value.IsOwn n) (name : String) :
    Carries base n (Scope.onto base.arena.size) (fun scope n => scope.IsOwn n)
      (Eval.assign location scope name value)
      (Eval.assign location (scope.onto base.arena.size) name (value.onto base.arena.size)) := by
  intro m hm hn
  rw [assign_apply, assign_apply, Handle.isNull_onto hbase, Handle.isNull_eq_false hvalue,
    Scope.put_onto]
  cases hput : scope.put name value with
  | ok scope' => exact ⟨rfl, hm, Nat.le_refl _, (hscope.put hvalue hput).mono hn⟩
  | error e => exact ⟨rfl, hm, Nat.le_refl _⟩

theorem mapM {f : Handle → Eval Empty Handle} {f' : Handle → Eval φ Handle} {handles : List Handle}
    (hhandles : ∀ h ∈ handles, h.IsOwn n)
    (hf : ∀ h, ∀ n' ≥ n, h.IsOwn n' →
      Carries base n' (Handle.onto base.arena.size) (fun h n => h.IsOwn n) (f h)
        (f' (h.onto base.arena.size))) :
    Carries base n (List.map (Handle.onto base.arena.size)) (fun hs n => ∀ h ∈ hs, h.IsOwn n)
      (handles.mapM f) ((handles.map (Handle.onto base.arena.size)).mapM f') := by
  induction handles generalizing n with
  | nil => exact pure fun _ _ _ h => by cases h
  | cons handle handles ih =>
      obtain ⟨hhandle, hhandles⟩ := List.forall_mem_cons.mp hhandles
      rw [List.map_cons, List.mapM_cons, List.mapM_cons]
      refine bind (hf handle n (Nat.le_refl n) hhandle) fun first n₁ hn₁ hfirst => ?_
      have hothers := ih (n := n₁) (fun h hh => (hhandles h hh).mono hn₁)
        fun h n' hn' => hf h n' (Nat.le_trans hn₁ hn')
      refine bind hothers fun others n₂ hn₂ hothers => ?_
      apply pure
      intro n₃ hn₃ h hh
      rcases List.mem_cons.mp hh with rfl | hh
      · exact hfirst.mono (Nat.le_trans hn₂ hn₃)
      · exact (hothers h hh).mono hn₃

end Carries

def Interpretation.onto (base : Machine φ) (i : Interpretation Empty) : Interpretation φ :=
  ⟨base.onto i.machine, i.scope.onto base.arena.size, i.errors⟩

def CarriesRun (base : Machine φ) (m : Machine Empty) (run : Interpretation Empty)
    (run' : Interpretation φ) : Prop :=
  run' = run.onto base ∧ run.machine.IsAlone ∧ m.arena.size ≤ run.machine.arena.size ∧
    run.scope.IsOwn run.machine.arena.size

theorem CarriesRun.step {base : Machine φ} {m : Machine Empty} {scope : Scope}
    {statement : Eval Empty Scope} {statement' : Eval φ Scope}
    {rest : Scope → Machine Empty → Interpretation Empty}
    {rest' : Scope → Machine φ → Interpretation φ} (hm : m.IsAlone)
    (hscope : scope.IsOwn m.arena.size)
    (hstatement : Carries base m.arena.size (Scope.onto base.arena.size)
      (fun scope n => scope.IsOwn n) statement statement')
    (hrest : ∀ scope (m : Machine Empty), m.IsAlone → scope.IsOwn m.arena.size →
      CarriesRun base m (rest scope m) (rest' (scope.onto base.arena.size) (base.onto m))) :
    CarriesRun base m (Interpretation.step scope statement rest m)
      (Interpretation.step (scope.onto base.arena.size) statement' rest' (base.onto m)) := by
  have hcarried := hstatement m hm (Nat.le_refl _)
  unfold Interpretation.step
  cases hrun : statement m with
  | ok scope₁ m₁ =>
      rw [hrun] at hcarried
      obtain ⟨hrun', hm₁, hsize, hscope₁⟩ := hcarried
      obtain ⟨heq, halone, hsize', hown⟩ := hrest scope₁ m₁ hm₁ hscope₁
      rw [hrun']
      exact ⟨heq, halone, Nat.le_trans hsize hsize', hown⟩
  | error errors m₁ =>
      rw [hrun] at hcarried
      obtain ⟨hrun', hm₁, hsize⟩ := hcarried
      rw [hrun']
      exact ⟨rfl, hm₁, hsize, hscope.mono hsize⟩

theorem Carries.finish {base : Machine φ} {n : Nat} {run : Machine Empty → Interpretation Empty}
    {run' : Machine φ → Interpretation φ}
    (h : ∀ m : Machine Empty, m.IsAlone → n ≤ m.arena.size →
      CarriesRun base m (run m) (run' (base.onto m))) :
    Carries base n (Scope.onto base.arena.size) (fun scope n => scope.IsOwn n)
      (fun m => (run m).finish) (fun m => (run' m).finish) := by
  intro m hm hn
  obtain ⟨heq, halone, hsize, hown⟩ := h m hm hn
  dsimp only
  rw [heq]
  unfold Interpretation.finish Interpretation.onto
  cases herrors : (run m).errors with
  | nil => exact ⟨rfl, halone, hsize, hown⟩
  | cons e errors => exact ⟨rfl, halone, hsize⟩

variable [Host φ]

private theorem carries_evaluation (base : Machine φ) (hbase : 0 < base.arena.size) :
    (∀ (node : Node) (scope : Scope) (n : Nat), scope.IsOwn n →
      Carries base n (Handle.onto base.arena.size) (fun h n => h.IsOwn n)
        (evaluate node scope) (evaluate node (scope.onto base.arena.size))) ∧
    (∀ (nodes : List Node) (scope : Scope) (m : Machine Empty), m.IsAlone →
      scope.IsOwn m.arena.size →
      CarriesRun base m (execute nodes scope m)
        (execute nodes (scope.onto base.arena.size) (base.onto m))) ∧
    (∀ (_ : List Node) (_ : Scope) (_ : Arguments), True) ∧
    (∀ (nodes : List Node) (scope : Scope) (n : Nat), scope.IsOwn n →
      Carries base n (List.map (Handle.onto base.arena.size)) (fun hs n => ∀ h ∈ hs, h.IsOwn n)
        (evaluateAll nodes scope) (evaluateAll nodes (scope.onto base.arena.size))) := by
  apply evaluate.mutual_induct
  case case1 =>
    intro location text? scope n hscope
    rw [evaluate, evaluate]
    exact .lookUp location hscope _
  case case2 =>
    intro location text? owner others scope ih n hscope
    rw [evaluate, evaluate]
    refine .bind (ih n hscope) fun handle n' _ hown => .inspect location ?_ ?_
    · intro a ha hn'
      show ((base.arena.onto a).get _).attr _ = _
      rw [Arena.get_onto (hown.mono hn'), Object.attr_onto]
      rfl
    · intro a found ha hn' hattr
      exact ha.attr (hown.mono hn') hattr
  case case3 =>
    intro location text? children scope n _
    rw [evaluate, evaluate]
    exact .create fun _ _ => ⟨rfl, fun _ h => by cases h⟩
  case case4 =>
    intro location text? entries scope ih n hscope
    rw [evaluate, evaluate]
    refine .bind (ih n hscope) fun handles n' _ hhandles => .create ?_
    exact fun n₁ hn₁ => ⟨rfl, fun h hh => (hhandles h hh).mono hn₁⟩
  case case5 =>
    intro location text? body element source others scope ihSource ihBody n hscope
    rw [evaluate, evaluate]
    refine .bind (ihSource n hscope) fun list n₁ hn₁ hlist => ?_
    refine .bind (.inspect (t := List.map (Handle.onto base.arena.size))
      (Q := fun hs n => ∀ h ∈ hs, h.IsOwn n) source.location ?_ ?_)
        fun handles n₂ hn₂ hhandles => ?_
    · intro a ha hn
      show ((base.arena.onto a).get _).asList = _
      rw [Arena.get_onto (hlist.mono hn), Object.asList_onto]
      rfl
    · intro a found ha hn hfound
      exact ha.asList (hlist.mono hn) hfound
    · have hscope' := hscope.mono (Nat.le_trans hn₁ hn₂)
      refine .bind (.mapM hhandles fun handle n₃ hn₃ hhandle => ?_)
        fun results n₄ hn₄ hresults => .create ?_
      · rw [Scope.withElement_onto]
        exact ihBody handle n₃ ((hscope'.mono hn₃).withElement hhandle _)
      · exact fun n₅ hn₅ => ⟨rfl, fun h hh => (hresults h hh).mono hn₅⟩
  case case6 =>
    -- the callee is no function, so the arguments are never come to
    intro location text? callee arguments scope ihCallee _ n hscope
    rw [evaluate, evaluate]
    refine .bind (ihCallee n hscope) fun handle n₁ _ hown => ?_
    refine .bind (.inspect (t := Empty.elim) (Q := fun _ _ => True) location ?_ ?_)
      fun body => body.elim
    · intro a ha hn
      show ((base.arena.onto a).get _).asFunction = _
      rw [Arena.get_onto (hown.mono hn), Object.asFunction_onto]
      rfl
    · exact fun _ _ _ _ _ => trivial
  case case7 =>
    intro location text? statements scope ih n _
    rw [evaluate, evaluate]
    refine .bind (.record (by simp)) fun _ n₁ _ _ => ?_
    refine .bind (.finish fun m hm _ => ih m hm (Scope.isOwn_empty _)) fun inner n₂ _ hinner => ?_
    rw [Scope.bindings_onto]
    exact .create fun n₃ hn₃ => ⟨rfl, (hinner.mono hn₃).bindings⟩
  case case8 =>
    intro kind location text? children scope hobject hattribute hstring hlist hlistFor hcall
      hprogram n _
    rw [evaluate, evaluate]
    · exact .fail location _
    all_goals assumption
  case case9 =>
    intro scope m hm hscope
    rw [execute, execute]
    exact ⟨rfl, hm, Nat.le_refl _, hscope⟩
  case case10 =>
    intro location text? target value others nodes scope m ihValue ihNodes hm hscope
    rw [execute, execute]
    refine .step hm hscope (.bind (.record (by simp)) fun _ n₁ hn₁ _ => ?_) ihNodes
    refine .bind (ihValue n₁ (hscope.mono hn₁)) fun handle n₂ hn₂ hhandle => ?_
    exact .assign hbase location (hscope.mono (Nat.le_trans hn₁ hn₂)) hhandle _
  case case11 =>
    intro location text? children nodes scope m ihCall ihNodes hm hscope
    rw [execute, execute]
    refine .step hm hscope (.bind (.record (by simp)) fun _ n₁ hn₁ _ => ?_) ihNodes
    refine .bind (ihCall n₁ (hscope.mono hn₁)) fun handle n₂ hn₂ _ => ?_
    exact .pure fun n₃ hn₃ => hscope.mono (Nat.le_trans hn₁ (Nat.le_trans hn₂ hn₃))
  case case12 =>
    intro kind location text? children nodes scope m hassignment hcall ihNodes hm hscope
    rw [execute, execute]
    · exact .step hm hscope (.bind (.record (by simp)) fun _ _ _ _ => .fail location _) ihNodes
    all_goals assumption
  case case13 => exact fun _ _ => trivial
  case case14 => exact fun _ _ _ _ _ => trivial
  case case15 => exact fun _ _ _ _ _ _ _ _ _ => trivial
  case case16 => exact fun _ _ _ _ _ _ _ _ => trivial
  case case17 =>
    intro scope n _
    rw [evaluateAll, evaluateAll]
    exact .pure fun _ _ _ h => by cases h
  case case18 =>
    intro node nodes scope ihNode ihNodes n hscope
    rw [evaluateAll, evaluateAll]
    refine .bind (ihNode n hscope) fun handle n₁ hn₁ hhandle => ?_
    refine .bind (ihNodes n₁ (hscope.mono hn₁)) fun handles n₂ hn₂ hhandles => .pure ?_
    intro n₃ hn₃ h hh
    rcases List.mem_cons.mp hh with rfl | hh
    · exact hhandle.mono (Nat.le_trans hn₂ hn₃)
    · exact (hhandles h hh).mono hn₃

/-- What an imported program evaluates to on its own: without any function, in
an arena that has null and nothing else. -/
def evaluateAlone (program : Node) : EStateM.Result (List RuntimeError) (Machine Empty) Handle :=
  evaluate program .empty ⟨Arena.empty, {}⟩

/-- A result that came about on its own, put behind what a machine has. -/
def transplant (base : Machine φ) :
    EStateM.Result (List RuntimeError) (Machine Empty) Handle →
      EStateM.Result (List RuntimeError) (Machine φ) Handle
  | .ok h m => .ok (h.onto base.arena.size) (base.onto m)
  | .error errors m => .error errors (base.onto m)

theorem evaluate_program_scope (location : Location) (text? : Option String)
    (statements : List Node) (scope scope' : Scope) :
    (evaluate ⟨.program, location, text?, statements⟩ scope : Eval φ Handle) =
      evaluate ⟨.program, location, text?, statements⟩ scope' := by
  rw [evaluate, evaluate]

theorem evaluateAlone_carried (program : Node) (base : Machine φ) (hbase : 0 < base.arena.size) :
    Carried base ⟨Arena.empty, {}⟩ (Handle.onto base.arena.size) (fun h n => h.IsOwn n)
      (evaluateAlone program) (evaluate program .empty base) := by
  have hcarries := (carries_evaluation base hbase).1 program .empty 1 (Scope.isOwn_empty 1)
  have hcarried := hcarries ⟨Arena.empty, {}⟩ Machine.isAlone_start (Nat.le_refl 1)
  rwa [Machine.onto_start] at hcarried

/-- The value of an imported program is the struct of what it assigns. -/
theorem struct_of_evaluate_program {location : Location} {text? : Option String}
    {statements : List Node} {scope : Scope} {m m' : Machine φ} {h : Handle}
    (hvalue : evaluate ⟨.program, location, text?, statements⟩ scope m = .ok h m') :
    ∃ attributes, m'.arena.get h = .struct attributes ∧
      attributes.names = statements.filterMap Node.assignedName? := by
  rw [evaluate] at hvalue
  obtain ⟨_, m₁, -, hrest⟩ := bind_eq_ok hvalue
  obtain ⟨inner, m₂, hfinish, hcreate⟩ := bind_eq_ok hrest
  obtain ⟨herrors, rfl, rfl⟩ := Interpretation.finish_eq_ok hfinish
  obtain ⟨rfl, harena⟩ := create_eq_ok hcreate
  obtain ⟨k, -, added, b', reached, hcompleted, hends⟩ := execute_commits statements .empty m₁
  refine ⟨_, by rw [harena, Arena.get_create_self], ?_⟩
  have hrun : execute statements .empty m₁ = execute statements (.root .empty) m₁ := rfl
  rcases hends with ⟨rfl, hresult⟩ | ⟨_, errors, _, -, hne, -, hresult⟩
  · obtain ⟨hentries, hnames⟩ := hcompleted.entries_eq
    rw [List.take_length] at hnames
    rw [hrun, hresult, ← hnames]
    show b'.entries.map Prod.fst = _
    rw [hentries]
    rfl
  · rw [hrun, hresult] at herrors
    exact absurd herrors hne

/-- An imported program evaluates to what it does on its own, put behind the
objects there are: neither the scope around it, nor the objects, nor the host
have a part in its value or in its errors, and no function is called. If it has
a value, that is a struct with the names it assigns, and whatever can be come by
from there is a string, list or struct that was made on the way. -/
theorem imported_program_hermetic {program : Node} (hkind : program.kind = .program)
    (scope : Scope) {m : Machine φ} (hm : 0 < m.arena.size) :
    evaluate program scope m = transplant m (evaluateAlone program) ∧
    (∃ events, (finalState (evaluate program scope m)).journal.events =
        m.journal.events ++ events ∧
      ∀ e ∈ events, ∀ location count, e ≠ .calling location count) ∧
    ∀ h m', evaluate program scope m = .ok h m' →
      (∃ attributes, m'.arena.get h = .struct attributes ∧
        attributes.names = program.children.filterMap Node.assignedName?) ∧
      ∀ e, m'.arena.Reaches h e → m.arena.size ≤ e.index ∧ e.index < m'.arena.size ∧
        (m'.arena.get e).isData = true := by
  rcases program with ⟨kind, location, text?, statements⟩
  obtain rfl : kind = .program := hkind
  rw [evaluate_program_scope location text? statements scope .empty]
  have hcarried := evaluateAlone_carried ⟨.program, location, text?, statements⟩ m hm
  cases halone : evaluateAlone ⟨.program, location, text?, statements⟩ with
  | error errors m₀ =>
      rw [halone] at hcarried
      obtain ⟨hresult, hquiet, -⟩ := hcarried
      rw [hresult]
      exact ⟨rfl, ⟨m₀.journal.events, rfl, hquiet.quiet⟩, fun h m' hvalue => by cases hvalue⟩
  | ok h₀ m₀ =>
      rw [halone] at hcarried
      obtain ⟨hresult, hm₀, -, hown⟩ := hcarried
      rw [hresult]
      refine ⟨rfl, ⟨m₀.journal.events, rfl, hm₀.quiet⟩, ?_⟩
      rintro h m' hvalue
      obtain ⟨rfl, rfl⟩ : _ = h ∧ _ = m' := by simpa using hvalue
      refine ⟨struct_of_evaluate_program hresult, fun e he => ?_⟩
      obtain ⟨e₀, hown₀, rfl⟩ := Arena.Reaches.of_onto hm₀.owns hown he
      refine ⟨Nat.le_add_left _ _, ?_, ?_⟩
      · show e₀.index - 1 + m.arena.size < (m.arena.onto m₀.arena).size
        rw [Arena.size_onto]
        have hpositive : 0 < e₀.index := hown₀.1
        have hlt : e₀.index < m₀.arena.size := hown₀.2
        omega
      · show ((m.arena.onto m₀.arena).get _).isData = true
        rw [Arena.get_onto hown₀, Object.isData_onto]
        exact (hm₀.owns.objects e₀ hown₀).data

theorem imported_program_hermetic_nested :
    ∃ program, ∃ m : Machine Builtin,
      (parse (ImportTable.mk [("lib", .program ⟨"lib", "a = [\"s\"]", 1⟩)]).resolve 2
        (.ofText "x = import(\"lib\")\ny = [v for v in x.a]") {}).1 = .ok program ∧
      program.kind = .program ∧ 0 < m.arena.size ∧
      evaluate program .empty m = transplant m (evaluateAlone program) ∧
      ∃ h m', evaluate program .empty m = .ok h m' ∧
        ∀ e, m'.arena.Reaches h e → m.arena.size ≤ e.index := by
  obtain ⟨program, hparse, hchecks⟩ := exists_of_any
    (show (parse (ImportTable.mk [("lib", .program ⟨"lib", "a = [\"s\"]", 1⟩)]).resolve 2
      (.ofText "x = import(\"lib\")\ny = [v for v in x.a]") {}).1.toOption.any (fun program =>
        program.kind == .program &&
          match evaluate program .empty (⟨Arena.empty, {}⟩ : Machine Builtin) with
          | .ok _ _ => true
          | .error _ _ => false) = true by decide +kernel)
  obtain ⟨hkind, hvalue⟩ := Bool.and_eq_true_iff.mp hchecks
  have hnonempty : 0 < (⟨Arena.empty, {}⟩ : Machine Builtin).arena.size := Nat.succ_pos 0
  obtain ⟨halone, -, hreached⟩ := imported_program_hermetic (beq_iff_eq.mp hkind) .empty hnonempty
  refine ⟨program, _, hparse, beq_iff_eq.mp hkind, hnonempty, halone, ?_⟩
  split at hvalue
  · rename_i h m' hrun
    exact ⟨h, m', hrun, fun e he => ((hreached h m' hrun).2 e he).1⟩
  · cases hvalue

end BuildScript
