import BuildScript.Proofs.Throwing

/-!
Evaluation with a recorder. Whoever finds a fault reports it and then gives up
without a word; a call first reports every error of a reply and only then
looks whether the call went well. What was reported and what was given up have
to agree on every way through a program: an evaluation finishes if and only if
it reported nothing, and what it reported is what `evaluate` and `interpret`
stop with.
-/

namespace BuildScript

structure Recorder (φ : Type) where
  machine : Machine φ
  errors : List RuntimeError

/-- An evaluation that gives a value or gives up. Its recorder knows why. -/
abbrev Recording (φ : Type) := EStateM Unit (Recorder φ)

structure RecordedRun (φ : Type) where
  recorder : Recorder φ
  scope : Scope
  finished : Bool

namespace RecordedRun

variable {φ : Type}

def step (scope : Scope) (statement : Recording φ Scope)
    (rest : Scope → Recorder φ → RecordedRun φ) (r : Recorder φ) : RecordedRun φ :=
  match statement r with
  | .ok scope r => rest scope r
  | .error () r => ⟨r, scope, false⟩

end RecordedRun

namespace Recording

variable {φ α β γ : Type}

def record (e : Event) : Recording φ Unit :=
  modify fun r => { r with machine := { r.machine with journal := r.machine.journal.record e } }

def report (location : Location) (fault : RuntimeFault) : Recording φ Unit :=
  modify fun r => { r with errors := r.errors ++ [⟨fault, location⟩] }

def fail (location : Location) (fault : RuntimeFault) : Recording φ α := do
  report location fault
  throw ()

def create (object : Object φ) : Recording φ Handle :=
  fun r =>
    let (handle, arena) := r.machine.arena.create object
    .ok handle { r with machine := { r.machine with arena } }

def inspect (location : Location) (ask : Arena φ → Except ObjectError α) : Recording φ α := do
  match ask (← get).machine.arena with
  | .ok a => return a
  | .error e => fail location (.object e)

def lookUp (location : Location) (scope : Scope) (name : String) : Recording φ Handle :=
  match scope.get name with
  | .ok handle => return handle
  | .error e => fail location (.scope e)

def assign (location : Location) (scope : Scope) (name : String) (value : Handle) :
    Recording φ Scope :=
  if value.isNull then fail location (.nullAssignment name)
  else match scope.put name value with
    | .ok scope => return scope
    | .error e => fail location (.scope e)

/-- Calls a function and reports what it answers. Whether to give up does not
depend on what was reported but on the reply. -/
def invoke [Host φ] (location : Location) (places : List Location) (body : φ)
    (args : Arguments) : Recording φ Handle := do
  record (.calling location args.size)
  let reply ← fun r =>
    let (reply, arena) := Host.call body r.machine.arena args
    .ok reply { r with machine := { r.machine with arena } }
  reply.argumentErrors.forM fun e => report (places.getD e.1 location) (.argument e.2)
  reply.callErrors.forM fun message => report location (.call message)
  if reply.isSuccess then return reply.value
  else throw ()

variable [Host φ]

def evaluator : Evaluator φ (Recording φ) where
  record := record
  lookUp := lookUp
  attr location handle name := inspect location (·.attr handle name)
  entries location handle := inspect location (·.asList handle)
  function location handle := inspect location (·.asFunction handle)
  string text := create (.string text)
  list handles := create (.list handles)
  struct b := create (.struct b)
  invoke := invoke
  assign := assign
  unexpected location kind := fail location (.unexpectedNode kind)

def evaluate : Node → Scope → Recording φ Handle := evaluator.value

def execute : List Node → Scope → Recorder φ → RecordedRun φ
  | [], scope, r => ⟨r, scope, true⟩
  | node :: nodes, scope, r =>
    RecordedRun.step scope (evaluator.statement node scope) (execute nodes) r

def executeProgram (program : Node) (scope : Scope) (r : Recorder φ) : RecordedRun φ :=
  match program.kind with
  | .program => execute program.children scope r
  | kind => ⟨{ r with errors := r.errors ++ [⟨.unexpectedNode kind, program.location⟩] },
      scope, false⟩

/-- Interprets a program with a fresh recorder. The journal tells of a run
that did not finish. -/
def interpret (program : Node) (scope : Scope) (m : Machine φ) : RecordedRun φ :=
  let begun := m.journal.record (.interpreting program.children.length)
  let result := executeProgram program scope ⟨{ m with journal := begun }, []⟩
  if result.finished then result
  else
    let machine := result.recorder.machine
    let journal := machine.journal.record (.interpretationStopped result.recorder.errors.length)
    { result with recorder := { result.recorder with machine := { machine with journal } } }

/-- The result of an evaluation as a recorder keeps it to which errors were
reported before. -/
def noted (errors : List RuntimeError) :
    EStateM.Result (List RuntimeError) (Machine φ) α → EStateM.Result Unit (Recorder φ) α
  | .ok a m => .ok a ⟨m, errors⟩
  | .error more m => .error () ⟨m, errors ++ more⟩

def left : EStateM.Result Unit (Recorder φ) α → Recorder φ
  | .ok _ r => r
  | .error _ r => r

end Recording

def Interpretation.noted {φ : Type} (errors : List RuntimeError) (i : Interpretation φ) :
    RecordedRun φ :=
  ⟨⟨i.machine, errors ++ i.errors⟩, i.scope, i.errors.isEmpty⟩

def Records {φ α : Type} (q : Recording φ α) (p : Eval φ α) : Prop :=
  ∀ m errors, q ⟨m, errors⟩ = Recording.noted errors (p m)

namespace Records

open Recording (noted report)

variable {φ α β γ : Type} {q : Recording φ α} {p : Eval φ α}

theorem pure (a : α) : Records (Pure.pure a : Recording φ α) (Pure.pure a) := fun _ _ => rfl

theorem bind {Q : α → Prop} {g : α → Recording φ β} {f : α → Eval φ β} (hp : Records q p)
    (hvalue : Yields Q p) (hf : ∀ a, Q a → Records (g a) (f a)) : Records (q >>= g) (p >>= f) := by
  intro m errors
  change EStateM.bind q g ⟨m, errors⟩ = _
  unfold EStateM.bind
  rw [Eval.bind_apply, hp m errors]
  cases hrun : p m with
  | ok a m' => exact hf a (hvalue m a m' hrun) m' errors
  | error more m' => rfl

theorem record (e : Event) : Records (Recording.record e : Recording φ Unit) (Eval.record e) :=
  fun _ _ => rfl

theorem create (object : Object φ) : Records (Recording.create object) (Eval.create object) :=
  fun _ _ => rfl

theorem fail (location : Location) (fault : RuntimeFault) :
    Records (Recording.fail location fault : Recording φ α) (Eval.fail location fault) :=
  fun _ _ => rfl

theorem inspect (location : Location) (ask : Arena φ → Except ObjectError α) :
    Records (Recording.inspect location ask) (Eval.inspect location ask) := by
  intro m errors
  rw [Eval.inspect_apply]
  change (match ask m.arena with
    | .ok a => Pure.pure a
    | .error e => Recording.fail location (.object e) : Recording φ α) ⟨m, errors⟩ = _
  cases ask m.arena with
  | ok a => rfl
  | error e => rfl

theorem lookUp (location : Location) (scope : Scope) (name : String) :
    Records (Recording.lookUp location scope name : Recording φ Handle)
      (Eval.lookUp location scope name) := by
  unfold Recording.lookUp Eval.lookUp
  cases scope.get name with
  | ok handle => exact pure handle
  | error e => exact fail location _

theorem assign (location : Location) (scope : Scope) (name : String) (value : Handle) :
    Records (Recording.assign location scope name value : Recording φ Scope)
      (Eval.assign location scope name value) := by
  unfold Recording.assign Eval.assign
  split
  · exact fail location _
  · cases scope.put name value with
    | ok scope => exact pure scope
    | error e => exact fail location _

/-- A loop that reports adds to what was reported before, in order. -/
theorem forM_report (location : γ → Location) (fault : γ → RuntimeFault) (items : List γ)
    (m : Machine φ) (errors : List RuntimeError) :
    (items.forM fun item => report (location item) (fault item) : Recording φ PUnit) ⟨m, errors⟩ =
      .ok () ⟨m, errors ++ items.map fun item => ⟨fault item, location item⟩⟩ := by
  induction items generalizing errors with
  | nil => simp; rfl
  | cons item items ih =>
      have hnext := ih (errors ++ [⟨fault item, location item⟩])
      rw [List.append_assoc, List.singleton_append] at hnext
      exact hnext

/-- The errors of a reply are reported one by one, those about arguments
first. A reply without errors is the one that does not give up. -/
theorem invoke [Host φ] (location : Location) (places : List Location) (body : φ)
    (args : Arguments) :
    Records (Recording.invoke location places body args)
      (Eval.invoke location places body args) := by
  intro m errors
  rw [Eval.invoke_apply]
  let reply := (Host.call body m.arena args).1
  let called : Machine φ :=
    ⟨(Host.call body m.arena args).2, m.journal.record (.calling location args.size)⟩
  have harguments := forM_report (fun e : Nat × String => places.getD e.1 location)
    (fun e => .argument e.2) reply.argumentErrors called errors
  have hcall := forM_report (fun _ : String => location) (fun message => .call message)
    reply.callErrors called
    (errors ++ reply.argumentErrors.map fun e => ⟨.argument e.2, places.getD e.1 location⟩)
  rw [List.append_assoc] at hcall
  have hrun : Recording.invoke location places body args ⟨m, errors⟩ =
      (if reply.isSuccess then Pure.pure reply.value else throw () : Recording φ Handle)
        ⟨called, errors ++ Eval.replyErrors location places reply⟩ :=
    (Eval.bind_of_eq_ok harguments _).trans (Eval.bind_of_eq_ok hcall _)
  rw [hrun]
  show _ = noted errors (if reply.isSuccess then _ else _)
  by_cases hsuccess : reply.isSuccess = true
  · rw [if_pos hsuccess, if_pos hsuccess, Eval.replyErrors_eq_nil_iff.mpr hsuccess,
      List.append_nil]
    rfl
  · rw [if_neg hsuccess, if_neg hsuccess]
    rfl

/-- What an evaluator does with a recorder, it does without one. -/
def simulation [Host φ] :
    Simulation (Recording.evaluator : Evaluator φ (Recording φ)) Eval.evaluator Unit where
  Rel _ Q q p := Records q p ∧ Yields (Q ()) p
  Holds _ _ := True
  Calls _ _ := True
  Tolerant := True
  holds_mono _ _ := trivial
  calls_mono _ _ := trivial
  pure h := ⟨.pure _, .pure (h () (le_refl _))⟩
  bind hp hf := ⟨hp.1.bind hp.2 fun a ha => (hf () a (le_refl _) ha).1,
    hp.2.bind fun a ha => (hf () a (le_refl _) ha).2⟩
  record _ e := ⟨.record e, .of_forall fun _ => trivial⟩
  lookUp _ location name := ⟨.lookUp location _ name, .of_forall fun _ => trivial⟩
  attr {_ handle} _ location name :=
    ⟨.inspect location (·.attr handle name), .of_forall fun _ => trivial⟩
  entries {_ handle} _ location :=
    ⟨.inspect location (·.asList handle), .of_forall fun _ _ _ => trivial⟩
  function {_ handle} _ location :=
    ⟨.inspect location (·.asFunction handle), .of_forall fun _ => trivial⟩
  string _ _ := ⟨.create _, .of_forall fun _ => trivial⟩
  list _ := ⟨.create _, .of_forall fun _ => trivial⟩
  struct _ := ⟨.create _, .of_forall fun _ => trivial⟩
  invoke _ _ location places := ⟨.invoke location places _ _, .of_forall fun _ => trivial⟩
  assign _ _ location name := ⟨.assign location _ name _, .of_forall fun _ _ _ => trivial⟩
  unexpected _ _ _ location _ := ⟨.fail location _, fun _ _ _ hfail => by cases hfail⟩

/-- An evaluation finishes if and only if it reports nothing. -/
theorem finishes_iff {q : Recording φ α} {p : Eval φ α} (h : Records q p)
    (hreason : Throws (· ≠ []) p) (r : Recorder φ) :
    (∃ a r', q r = .ok a r') ↔ (Recording.left (q r)).errors = r.errors := by
  rw [h r.machine r.errors]
  cases hp : p r.machine with
  | ok a m => exact ⟨fun _ => rfl, fun _ => ⟨a, _, rfl⟩⟩
  | error more m =>
      constructor
      · rintro ⟨_, _, hok⟩
        cases hok
      · intro hsame
        exact absurd (List.append_right_eq_self.mp hsame) (hreason r.machine more m hp)

end Records

namespace Recording

variable {φ : Type} [Host φ]

theorem evaluate_records (node : Node) (scope : Scope) :
    Records (evaluate node scope : Recording φ Handle) (BuildScript.evaluate node scope) := by
  rw [evaluate_eq_value]
  exact (Records.simulation.value (w := ()) (.inl trivial) fun _ _ => trivial).1

theorem statement_records (node : Node) (scope : Scope) :
    Records (evaluator.statement node scope : Recording φ Scope) (executeStatement node scope) := by
  rw [executeStatement_eq_statement]
  exact (Records.simulation.statement (w := ()) (.inl trivial) fun _ _ => trivial).1

theorem execute_eq (nodes : List Node) (scope : Scope) (m : Machine φ)
    (errors : List RuntimeError) :
    execute nodes scope ⟨m, errors⟩ = (BuildScript.execute nodes scope m).noted errors := by
  induction nodes generalizing scope m with
  | nil =>
      rw [execute, execute_nil]
      simp [Interpretation.noted]
  | cons node nodes ih =>
      rw [execute, execute_cons, RecordedRun.step, Interpretation.step,
        statement_records node scope m errors]
      cases hrun : executeStatement node scope m with
      | ok scope' m' => exact ih scope' m'
      | error more m' =>
          have hmore : more.isEmpty = false := by
            simpa using executeStatement_throws_ne_nil node scope m more m' hrun
          simp [noted, Interpretation.noted, hmore]

theorem executeProgram_eq (program : Node) (scope : Scope) (m : Machine φ)
    (errors : List RuntimeError) :
    executeProgram program scope ⟨m, errors⟩ =
      (BuildScript.executeProgram program scope m).noted errors := by
  obtain ⟨kind, location, text?, children⟩ := program
  cases kind with
  | program => exact execute_eq children scope m errors
  | _ => rfl

theorem interpret_eq (program : Node) (scope : Scope) (m : Machine φ) :
    interpret program scope m = (BuildScript.interpret program scope m).noted [] := by
  unfold interpret BuildScript.interpret
  simp only [executeProgram_eq]
  cases herrors : (BuildScript.executeProgram program scope { m with
      journal := m.journal.record (.interpreting program.children.length) }).errors with
  | nil => simp [Interpretation.noted, herrors]
  | cons e more => simp [Interpretation.noted, herrors]

end Recording

end BuildScript
