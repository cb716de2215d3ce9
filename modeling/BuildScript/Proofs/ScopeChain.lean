import BuildScript.Scope

namespace BuildScript.Scope

inductive Request where
  | push
  | pop
  | put (name : String) (handle : Handle)
  | get (name : String)
deriving DecidableEq

/-- An error, or else an object if one was asked for. -/
abbrev Answer := Except ScopeError (Option Handle)

def answer (scope : Scope) : Request → Answer
  | .push => .ok none
  | .pop => .ok none
  | .put name handle => (scope.put name handle).map fun _ => none
  | .get name => (scope.get name).map some

/-- The chain after a request. One that fails changes nothing. -/
def after (scope : Scope) : Request → Scope
  | .push => scope.push
  | .pop => scope.pop
  | .put name handle => (scope.put name handle).toOption.getD scope
  | .get _ => scope

def run (scope : Scope) (requests : List Request) : Scope := requests.foldl after scope

def history (scope : Scope) : List Request → List (Request × Answer)
  | [] => []
  | request :: requests =>
    (request, scope.answer request) :: (scope.after request).history requests

abbrev Puts := List (String × Handle)

/-- The puts that succeeded in the scopes that are open, those of the innermost
scope first. The root is always open. -/
structure Ledger where
  nested : List Puts
  root : Puts

namespace Ledger

def empty : Ledger := ⟨[], []⟩

def scopes (ledger : Ledger) : List Puts := ledger.nested ++ [ledger.root]

def innermost (ledger : Ledger) : Puts := ledger.nested.headD ledger.root

def add (put : String × Handle) : Ledger → Ledger
  | ⟨[], root⟩ => ⟨[], root ++ [put]⟩
  | ⟨puts :: nested, root⟩ => ⟨(puts ++ [put]) :: nested, root⟩

def note (ledger : Ledger) : Request × Answer → Ledger
  | (.push, _) => { ledger with nested := [] :: ledger.nested }
  | (.pop, _) => { ledger with nested := ledger.nested.tail }
  | (.put name handle, .ok _) => ledger.add (name, handle)
  | (.put _ _, .error _) => ledger
  | (.get _, _) => ledger

/-- The ledger of all that has happened since there was only an empty root. -/
def ofHistory (events : List (Request × Answer)) : Ledger := events.foldl note empty

end Ledger

def Puts.Lacks (puts : Puts) (name : String) : Prop := ∀ put ∈ puts, put.1 ≠ name

/-- A name was put in one of the scopes and in none further in, just once and
with this object. -/
def Ledger.Binds (ledger : Ledger) (name : String) (handle : Handle) : Prop :=
  ∃ inner puts outer, ledger.scopes = inner ++ puts :: outer ∧
    (∀ closer ∈ inner, closer.Lacks name) ∧
    puts.filter (fun put => put.1 = name) = [(name, handle)]

/-- The puts that succeed while no scope is nested in the root, if so many are
nested in it at first. -/
def putsAtRoot : Nat → List (Request × Answer) → Puts
  | _, [] => []
  | depth, (.push, _) :: later => putsAtRoot (depth + 1) later
  | depth, (.pop, _) :: later => putsAtRoot (depth - 1) later
  | depth, (.put name handle, .ok _) :: later =>
    (if depth = 0 then [(name, handle)] else []) ++ putsAtRoot depth later
  | depth, (.put _ _, .error _) :: later => putsAtRoot depth later
  | depth, (.get _, _) :: later => putsAtRoot depth later

/-- Requests in which each push has its pop and each pop its push. -/
inductive Balanced : List Request → Prop where
  | nil : Balanced []
  | put (name : String) (handle : Handle) {requests : List Request} (h : Balanced requests) :
      Balanced (.put name handle :: requests)
  | get (name : String) {requests : List Request} (h : Balanced requests) :
      Balanced (.get name :: requests)
  | nest {inside requests : List Request} (hinside : Balanced inside) (h : Balanced requests) :
      Balanced (.push :: inside ++ .pop :: requests)

/-- The puts that a chain of scopes has kept. -/
def ledger : Scope → Ledger
  | root bindings => ⟨[], bindings.entries⟩
  | nested bindings outer => { outer.ledger with nested := bindings.entries :: outer.ledger.nested }

variable {scope outer : Scope} {bindings : Bindings} {name : String} {handle : Handle}

@[simp] theorem ledger_empty : empty.ledger = .empty := rfl

@[simp] theorem scopes_ledger_root : (root bindings).ledger.scopes = [bindings.entries] := rfl

@[simp] theorem scopes_ledger_nested :
    (nested bindings outer).ledger.scopes = bindings.entries :: outer.ledger.scopes := rfl

theorem innermost_ledger (scope : Scope) : scope.ledger.innermost = scope.bindings.entries := by
  cases scope with
  | root bindings => rfl
  | nested bindings outer => rfl

theorem root_ledger (scope : Scope) : scope.ledger.root = scope.rootBindings.entries := by
  induction scope with
  | root bindings => rfl
  | nested bindings outer ih => exact ih

/-! ## Puts and gets -/

theorem lacks_entries_iff : Puts.Lacks bindings.entries name ↔ name ∉ bindings.names := by
  unfold Puts.Lacks Bindings.names
  rw [List.mem_map]
  constructor
  · rintro hlacks ⟨put, hput, hname⟩
    exact hlacks put hput hname
  · intro hnew put hput hname
    exact hnew ⟨put, hput, hname⟩

theorem filter_name_eq {puts : Puts} (hdistinct : (puts.map Prod.fst).Nodup) (name : String) :
    puts.filter (fun put => put.1 = name) =
      (puts.lookup name).toList.map fun handle => (name, handle) := by
  induction puts with
  | nil => rfl
  | cons put puts ih =>
      obtain ⟨first, object⟩ := put
      obtain ⟨hfirst, hrest⟩ := List.nodup_cons.mp hdistinct
      by_cases hname : first = name
      · subst hname
        have hnone : puts.filter (fun put => put.1 = first) = [] := by
          apply List.filter_eq_nil_iff.mpr
          intro put hput hsame
          exact hfirst (List.mem_map.mpr ⟨put, hput, of_decide_eq_true hsame⟩)
        rw [List.filter_cons_of_pos (by simp), hnone, List.lookup_cons_self]
        rfl
      · rw [List.filter_cons_of_neg (by simpa using hname), ih hrest, List.lookup_cons,
          beq_false_of_ne (Ne.symm hname)]

theorem filter_entries_eq_iff :
    bindings.entries.filter (fun put => put.1 = name) = [(name, handle)] ↔
      bindings.find? name = some handle := by
  rw [filter_name_eq bindings.distinct, Bindings.find?]
  cases bindings.entries.lookup name with
  | none => simp
  | some found => simp

/-- The innermost scope binds the names that were put in it; for all others it
is as if it were not there. -/
theorem binds_nested_iff : (nested bindings outer).ledger.Binds name handle ↔
    bindings.find? name = some handle ∨
      bindings.find? name = none ∧ outer.ledger.Binds name handle := by
  unfold Ledger.Binds
  rw [scopes_ledger_nested, Bindings.find?_eq_none_iff, ← lacks_entries_iff]
  constructor
  · rintro ⟨inner, puts, rest, hscopes, hlacks, honce⟩
    obtain ⟨rfl, hputs⟩ | ⟨inner', rfl, houter⟩ := List.cons_eq_append_iff.mp hscopes
    · obtain ⟨rfl, -⟩ := List.cons.inj hputs
      exact .inl (filter_entries_eq_iff.mp honce)
    · obtain ⟨hclosest, hinner⟩ := List.forall_mem_cons.mp hlacks
      exact .inr ⟨hclosest, inner', puts, rest, houter, hinner, honce⟩
  · rintro (hfind | ⟨hlacks, inner, puts, rest, hscopes, hinner, honce⟩)
    · refine ⟨[], bindings.entries, outer.ledger.scopes, rfl, by simp, ?_⟩
      exact filter_entries_eq_iff.mpr hfind
    · refine ⟨bindings.entries :: inner, puts, rest, ?_, ?_, honce⟩
      · rw [hscopes, List.cons_append]
      · exact List.forall_mem_cons.mpr ⟨hlacks, hinner⟩

theorem binds_root_iff : (root bindings).ledger.Binds name handle ↔
    bindings.find? name = some handle := by
  unfold Ledger.Binds
  rw [scopes_ledger_root, ← filter_entries_eq_iff]
  constructor
  · rintro ⟨inner, puts, rest, hscopes, -, honce⟩
    obtain ⟨-, hputs⟩ | ⟨inner', -, hnone⟩ := List.cons_eq_append_iff.mp hscopes
    · obtain ⟨rfl, -⟩ := List.cons.inj hputs
      exact honce
    · exact absurd hnone (by simp)
  · intro honce
    exact ⟨[], bindings.entries, [], rfl, by simp, honce⟩

theorem get_eq_ok_iff : scope.get name = .ok handle ↔ scope.ledger.Binds name handle := by
  induction scope with
  | root bindings =>
      rw [get, binds_root_iff]
      cases bindings.find? name with
      | none => simp
      | some found => simp
  | nested bindings outer ih =>
      rw [get, binds_nested_iff]
      cases bindings.find? name with
      | none => simp [ih]
      | some found => simp

theorem get_eq_error_iff {e : ScopeError} : scope.get name = .error e ↔
    e = .undefined name ∧ ∀ puts ∈ scope.ledger.scopes, puts.Lacks name := by
  induction scope with
  | root bindings =>
      rw [get, scopes_ledger_root, List.forall_mem_singleton, lacks_entries_iff,
        ← Bindings.find?_eq_none_iff]
      cases bindings.find? name with
      | none => simp [eq_comm]
      | some found => simp
  | nested bindings outer ih =>
      rw [get, scopes_ledger_nested, List.forall_mem_cons, lacks_entries_iff,
        ← Bindings.find?_eq_none_iff]
      cases bindings.find? name with
      | none => simp [ih]
      | some found => simp

def withBindings : Scope → Bindings → Scope
  | root _, bindings => root bindings
  | nested _ outer, bindings => nested bindings outer

theorem put_eq (scope : Scope) (name : String) (handle : Handle) : scope.put name handle =
    match scope.bindings.add? name handle with
    | none => .error (.alreadyDefined name)
    | some bindings => .ok (scope.withBindings bindings) := by
  unfold put
  cases scope with
  | root bindings => cases (root bindings).bindings.add? name handle <;> rfl
  | nested bindings outer => cases (nested bindings outer).bindings.add? name handle <;> rfl

theorem put_eq_ok_iff :
    (∃ after, scope.put name handle = .ok after) ↔ scope.ledger.innermost.Lacks name := by
  rw [innermost_ledger, lacks_entries_iff, ← @Bindings.add?_eq_none_iff _ name handle, put_eq]
  cases scope.bindings.add? name handle with
  | none => simp
  | some bindings => simp

theorem put_eq_error_iff {e : ScopeError} : scope.put name handle = .error e ↔
    e = .alreadyDefined name ∧ ¬ scope.ledger.innermost.Lacks name := by
  rw [innermost_ledger, lacks_entries_iff, ← @Bindings.add?_eq_none_iff _ name handle, put_eq]
  cases scope.bindings.add? name handle with
  | none => simp [eq_comm]
  | some bindings => simp

/-! ## Requests one after another -/

theorem ledger_withBindings {put : String × Handle}
    (h : bindings.entries = scope.bindings.entries ++ [put]) :
    (scope.withBindings bindings).ledger = scope.ledger.add put := by
  cases scope with
  | root _ => exact congrArg (Ledger.mk []) h
  | nested _ outer =>
      rw [withBindings, ledger, ledger, Ledger.add, h]
      rfl

theorem ledger_after (scope : Scope) (request : Request) :
    (scope.after request).ledger = scope.ledger.note (request, scope.answer request) := by
  cases request with
  | push => rfl
  | pop =>
      cases scope with
      | root bindings => rfl
      | nested bindings outer => rfl
  | get name => rfl
  | put name handle =>
      rw [after, answer, put_eq]
      cases hadd : scope.bindings.add? name handle with
      | none => rfl
      | some bindings => exact ledger_withBindings (Bindings.entries_of_add? hadd).2

theorem ledger_run (scope : Scope) (requests : List Request) :
    (scope.run requests).ledger = (scope.history requests).foldl Ledger.note scope.ledger := by
  induction requests generalizing scope with
  | nil => rfl
  | cons request requests ih =>
      rw [run, List.foldl_cons, history, List.foldl_cons, ← ledger_after]
      exact ih _

theorem run_append (scope : Scope) (first second : List Request) :
    scope.run (first ++ second) = (scope.run first).run second :=
  List.foldl_append

theorem Balanced.append {first second : List Request} (h : Balanced first) (h' : Balanced second) :
    Balanced (first ++ second) := by
  induction h with
  | nil => exact h'
  | put name handle _ ih => exact .put name handle ih
  | get name _ ih => exact .get name ih
  | nest hinside _ _ ih =>
      rw [List.append_assoc, List.cons_append]
      exact .nest hinside ih

theorem exists_after_put_eq (bindings : Bindings) (outer : Scope) (name : String)
    (handle : Handle) :
    ∃ bindings', (nested bindings outer).after (.put name handle) = nested bindings' outer := by
  rw [after, put_eq]
  cases (nested bindings outer).bindings.add? name handle with
  | none => exact ⟨bindings, rfl⟩
  | some bindings' => exact ⟨bindings', rfl⟩

theorem run_push_pop {inside more : List Request}
    (h : scope.push.run inside = nested bindings scope) :
    scope.run (.push :: inside ++ .pop :: more) = scope.run more :=
  calc scope.run (.push :: inside ++ .pop :: more)
    _ = (scope.push.run inside).run (.pop :: more) := run_append scope.push inside _
    _ = (nested bindings scope).run (.pop :: more) := by rw [h]
    _ = scope.run more := rfl

/-- Between a push and its pop the requests reach the innermost scope only. -/
theorem Balanced.exists_run_eq {inside : List Request} (h : Balanced inside) (bindings : Bindings)
    (outer : Scope) : ∃ bindings', (nested bindings outer).run inside = nested bindings' outer := by
  induction h generalizing bindings outer with
  | nil => exact ⟨bindings, rfl⟩
  | put name handle _ ih =>
      obtain ⟨bindings', hput⟩ := exists_after_put_eq bindings outer name handle
      rw [run, List.foldl_cons, hput]
      exact ih bindings' outer
  | get name _ ih => exact ih bindings outer
  | nest _ _ hinside ih =>
      obtain ⟨inner, hinner⟩ := hinside .empty (nested bindings outer)
      rw [run_push_pop hinner]
      exact ih bindings outer

/-- A pop undoes all that happened since the push it belongs to. -/
theorem Balanced.run_eq {inside : List Request} (h : Balanced inside) (scope : Scope) :
    scope.run (.push :: inside ++ [.pop]) = scope := by
  obtain ⟨bindings, hinside⟩ := h.exists_run_eq .empty scope
  exact run_push_pop hinside

theorem length_nested_add (ledger : Ledger) (put : String × Handle) :
    (ledger.add put).nested.length = ledger.nested.length := by
  obtain ⟨nested, root⟩ := ledger
  cases nested with
  | nil => rfl
  | cons puts nested => rfl

theorem root_add (ledger : Ledger) (put : String × Handle) :
    (ledger.add put).root = ledger.root ++ if ledger.nested.length = 0 then [put] else [] := by
  obtain ⟨nested, root⟩ := ledger
  cases nested with
  | nil => rfl
  | cons puts nested => exact (List.append_nil root).symm

/-- The root scope keeps what is put when no other scope is open. -/
theorem root_foldl_note (ledger : Ledger) (events : List (Request × Answer)) :
    (events.foldl Ledger.note ledger).root =
      ledger.root ++ putsAtRoot ledger.nested.length events := by
  induction events generalizing ledger with
  | nil => exact (List.append_nil _).symm
  | cons event events ih =>
      obtain ⟨request, answer⟩ := event
      rw [List.foldl_cons, ih]
      cases request with
      | push => rfl
      | pop => rw [Ledger.note, List.length_tail, putsAtRoot]
      | get name => rw [Ledger.note, putsAtRoot]
      | put name handle =>
          cases answer with
          | error e => rw [Ledger.note, putsAtRoot]
          | ok found =>
              rw [Ledger.note, putsAtRoot, length_nested_add, root_add, List.append_assoc]

/-- At least so many of the pushes have had no pop yet. -/
inductive Opened : Nat → List Request → Prop where
  | root (requests : List Request) : Opened 0 requests
  | nested {depth : Nat} {before inside : List Request} (h : Opened depth before)
      (hinside : Balanced inside) : Opened (depth + 1) (before ++ .push :: inside)

theorem Opened.append {depth : Nat} {requests more : List Request} (h : Opened depth requests)
    (hmore : Balanced more) : Opened depth (requests ++ more) := by
  cases h with
  | root => exact .root _
  | nested h hinside =>
      rw [List.append_assoc, List.cons_append]
      exact .nested h (hinside.append hmore)

theorem Opened.pop {depth : Nat} {requests : List Request} (h : Opened depth requests) :
    Opened (depth - 1) (requests ++ [.pop]) := by
  cases h with
  | root => exact .root _
  | nested h hinside =>
      rw [List.append_assoc]
      exact h.append (.nest hinside .nil)

theorem Opened.after {requests : List Request} (h : Opened scope.ledger.nested.length requests)
    (request : Request) :
    Opened (scope.after request).ledger.nested.length (requests ++ [request]) := by
  rw [ledger_after]
  cases request with
  | push => exact .nested h .nil
  | pop =>
      rw [Ledger.note, List.length_tail]
      exact h.pop
  | get name => exact h.append (.get name .nil)
  | put name handle =>
      cases scope.answer (.put name handle) with
      | error e => exact h.append (.put name handle .nil)
      | ok found =>
          rw [Ledger.note, length_nested_add]
          exact h.append (.put name handle .nil)

theorem Opened.run {requests : List Request} (h : Opened scope.ledger.nested.length requests)
    (more : List Request) : Opened (scope.run more).ledger.nested.length (requests ++ more) := by
  induction more generalizing scope requests with
  | nil =>
      rw [List.append_nil]
      exact h
  | cons request more ih =>
      rw [Scope.run, List.foldl_cons, List.append_cons]
      exact ih (h.after request)

/-- What the answers of a chain of scopes are, given the puts that it has kept. -/
structure KeepsTo (scope : Scope) (ledger : Ledger) : Prop where
  get_ok : ∀ name handle, scope.get name = .ok handle ↔ ledger.Binds name handle
  get_error : ∀ name e, scope.get name = .error e ↔
    e = .undefined name ∧ ∀ puts ∈ ledger.scopes, puts.Lacks name
  put_ok : ∀ name handle,
    (∃ after, scope.put name handle = .ok after) ↔ ledger.innermost.Lacks name
  put_error : ∀ name handle e, scope.put name handle = .error e ↔
    e = .alreadyDefined name ∧ ¬ ledger.innermost.Lacks name
  refused : ∀ name handle, ¬ ledger.innermost.Lacks name → scope.after (.put name handle) = scope
  outer : ∀ name handle, ledger.nested ≠ [] → (scope.after (.put name handle)).pop = scope.pop

theorem keepsTo_ledger (scope : Scope) : scope.KeepsTo scope.ledger := by
  constructor
  case get_ok => exact fun name handle => get_eq_ok_iff
  case get_error => exact fun name e => get_eq_error_iff
  case put_ok => exact fun name handle => put_eq_ok_iff
  case put_error => exact fun name handle e => put_eq_error_iff
  case refused =>
    intro name handle hfull
    rw [after, put_eq_error_iff.mpr ⟨rfl, hfull⟩]
    rfl
  case outer =>
    intro name handle hnested
    cases scope with
    | root bindings => exact absurd rfl hnested
    | nested bindings outer =>
        obtain ⟨bindings', hput⟩ := exists_after_put_eq bindings outer name handle
        rw [hput, pop, pop]

theorem pop_eq_self (h : scope.ledger.nested = []) : scope.pop = scope := by
  cases scope with
  | root bindings => rfl
  | nested bindings outer => cases h

/-- A pop drops the scope of the last push that has had no pop yet. -/
theorem pop_run (requests : List Request) :
    (empty.run requests).ledger.nested = [] ∧ (empty.run requests).pop = empty.run requests ∨
      ∃ before inside, requests = before ++ .push :: inside ∧ Balanced inside ∧
        (empty.run requests).pop = empty.run before := by
  have hroot : Opened empty.ledger.nested.length [] := .root []
  have hopened := hroot.run requests
  rw [List.nil_append] at hopened
  generalize hdepth : (empty.run requests).ledger.nested.length = depth at hopened
  cases hopened with
  | root =>
      have hroot := List.eq_nil_of_length_eq_zero hdepth
      exact .inl ⟨hroot, pop_eq_self hroot⟩
  | @nested _ before inside _ hinside =>
      refine .inr ⟨before, inside, rfl, hinside, ?_⟩
      have hrun := hinside.run_eq (empty.run before)
      rw [run_append] at hrun
      rw [run_append]
      exact hrun

/-- Whatever is asked of a chain of scopes, it behaves as a stack of maps in
which each name is put once. A pop does nothing when only the root is left, and
else it undoes all that happened since the push it belongs to; and the root has
as many names as were put there. -/
theorem run_keepsTo (requests : List Request) :
    (empty.run requests).KeepsTo (.ofHistory (empty.history requests)) ∧
    ((Ledger.ofHistory (empty.history requests)).nested = [] ∧
        (empty.run requests).pop = empty.run requests ∨
      ∃ before inside, requests = before ++ .push :: inside ∧ Balanced inside ∧
        (empty.run requests).pop = empty.run before) ∧
    (∀ inside, Balanced inside →
      empty.run (requests ++ .push :: inside ++ [.pop]) = empty.run requests) ∧
    (empty.run requests).rootBindings.size = (putsAtRoot 0 (empty.history requests)).length := by
  have hledger : (empty.run requests).ledger = .ofHistory (empty.history requests) :=
    ledger_run empty requests
  rw [← hledger]
  refine ⟨keepsTo_ledger _, pop_run requests, ?_, ?_⟩
  · intro inside hinside
    rw [List.append_assoc, run_append]
    exact hinside.run_eq _
  · rw [Bindings.size, ← root_ledger, hledger, Ledger.ofHistory, root_foldl_note]
    rfl

example : (empty.history [.put "x" ⟨1⟩, .push, .put "x" ⟨2⟩, .put "x" ⟨3⟩, .get "x", .pop, .pop,
      .get "x", .get "y"]).map Prod.snd =
    [.ok none, .ok none, .ok none, .error (.alreadyDefined "x"), .ok (some ⟨2⟩), .ok none, .ok none,
      .ok (some ⟨1⟩), .error (.undefined "y")] := by
  rfl

end BuildScript.Scope
