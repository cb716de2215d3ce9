import BuildScript.Proofs.Ranges

namespace BuildScript

instance : Host Empty := ⟨fun body _ _ => body.elim⟩

/-- The handle of an object that was made on its own, once `n` objects stand
before those that were made with it. -/
def Handle.onto (n : Nat) (h : Handle) : Handle := ⟨h.index - 1 + n⟩

/-- A handle of the first `n` objects that is not null. -/
def Handle.IsOwn (n : Nat) (h : Handle) : Prop := 0 < h.index ∧ h.index < n

theorem Handle.IsOwn.mono {n n' : Nat} {h : Handle} (hown : h.IsOwn n) (hn : n ≤ n') :
    h.IsOwn n' :=
  ⟨hown.1, Nat.lt_of_lt_of_le hown.2 hn⟩

theorem Handle.isNull_eq_false {n : Nat} {h : Handle} (hown : h.IsOwn n) : h.isNull = false := by
  apply beq_eq_false_iff_ne.mpr
  rintro rfl
  exact Nat.lt_irrefl 0 hown.1

theorem Handle.isNull_onto {n : Nat} (hn : 0 < n) (h : Handle) : (h.onto n).isNull = false := by
  apply beq_eq_false_iff_ne.mpr
  intro hnull
  have hindex : h.index - 1 + n = 0 := congrArg Handle.index hnull
  omega

def Bindings.onto (n : Nat) (b : Bindings) : Bindings where
  entries := b.entries.map fun e => (e.1, e.2.onto n)
  distinct := by simpa [Function.comp_def] using b.distinct

theorem Bindings.names_onto (n : Nat) (b : Bindings) : (b.onto n).names = b.names := by
  simp [names, onto, Function.comp_def]

theorem Bindings.find?_onto (n : Nat) (b : Bindings) (name : String) :
    (b.onto n).find? name = (b.find? name).map (Handle.onto n) := by
  show (b.entries.map fun e => (e.1, e.2.onto n)).lookup name = _
  unfold find?
  induction b.entries with
  | nil => rfl
  | cons e es ih =>
      rw [List.map_cons, List.lookup_cons, List.lookup_cons, ih]
      split <;> rfl

namespace Object

variable {φ : Type}

def isData : Object φ → Bool
  | null => false
  | struct _ => true
  | function _ => false
  | string _ => true
  | list _ => true

def onto (n : Nat) : Object Empty → Object φ
  | null => null
  | struct attributes => struct (attributes.onto n)
  | function body => body.elim
  | string text => string text
  | list entries => list (entries.map (Handle.onto n))

structure IsOwn (n : Nat) (object : Object φ) : Prop where
  data : object.isData = true
  handles : ∀ h ∈ object.handles, h.IsOwn n

theorem IsOwn.mono {n n' : Nat} {object : Object φ} (h : object.IsOwn n) (hn : n ≤ n') :
    object.IsOwn n' :=
  ⟨h.data, fun handle hhandle => (h.handles handle hhandle).mono hn⟩

theorem handles_onto (n : Nat) (object : Object Empty) :
    (object.onto n : Object φ).handles = object.handles.map (Handle.onto n) := by
  cases object with
  | struct attributes =>
      simp [onto, handles, Bindings.handles, Bindings.onto, Function.comp_def]
  | function body => exact body.elim
  | _ => simp [onto, handles]

theorem isData_onto (n : Nat) (object : Object Empty) :
    (object.onto n : Object φ).isData = object.isData := by
  cases object with
  | function body => exact body.elim
  | _ => rfl

theorem attr_onto (n : Nat) (object : Object Empty) (name : String) :
    (object.onto n : Object φ).attr name = (object.attr name).map (Handle.onto n) := by
  cases object with
  | struct attributes =>
      simp only [onto, attr, Bindings.find?_onto]
      cases attributes.find? name <;> rfl
  | function body => exact body.elim
  | _ => rfl

theorem asList_onto (n : Nat) (object : Object Empty) :
    (object.onto n : Object φ).asList = object.asList.map (List.map (Handle.onto n)) := by
  cases object with
  | function body => exact body.elim
  | _ => rfl

theorem asFunction_onto (n : Nat) (object : Object Empty) :
    (object.onto n : Object φ).asFunction = object.asFunction.map Empty.elim := by
  cases object with
  | function body => exact body.elim
  | _ => rfl

end Object

namespace Arena

variable {φ : Type}

/-- The objects of an arena followed by all objects but null of another one. -/
def onto (base : Arena φ) (a : Arena Empty) : Arena φ :=
  ⟨base.objects ++ (a.objects.toList.tail.map (Object.onto base.size)).toArray⟩

/-- An arena whose objects, null apart, are its own: strings, lists and structs
that hold handles of such objects. -/
structure Owns (a : Arena φ) : Prop where
  nonempty : 0 < a.size
  objects : ∀ h : Handle, h.IsOwn a.size → (a.get h).IsOwn a.size

theorem owns_empty : (empty : Arena φ).Owns := by
  refine ⟨Nat.succ_pos 0, fun h hown => ?_⟩
  have hlt : h.index < 1 := hown.2
  have hpositive : 0 < h.index := hown.1
  omega

theorem Owns.create {a : Arena φ} (h : a.Owns) {object : Object φ} (hobject : object.IsOwn a.size) :
    (a.create object).2.Owns ∧ (a.create object).1.IsOwn (a.create object).2.size := by
  rw [size_create]
  refine ⟨⟨?_, fun handle hown => ?_⟩, h.nonempty, Nat.lt_succ_self _⟩
  · rw [size_create]
    exact Nat.succ_pos _
  · rw [size_create] at hown ⊢
    rcases Nat.lt_succ_iff_lt_or_eq.mp hown.2 with hlt | heq
    · rw [get_create_of_lt hlt]
      exact (h.objects handle ⟨hown.1, hlt⟩).mono (Nat.le_succ _)
    · have hself : handle = (a.create object).1 := by
        rcases handle with ⟨index⟩
        exact congrArg Handle.mk heq
      rw [hself, get_create_self]
      exact hobject.mono (Nat.le_succ _)

theorem Owns.attr {a : Arena φ} (h : a.Owns) {handle found : Handle} {name : String}
    (hown : handle.IsOwn a.size) (hattr : a.attr handle name = .ok found) : found.IsOwn a.size :=
  (h.objects handle hown).handles found (mem_handles_of_attr hattr)

theorem Owns.asList {a : Arena φ} (h : a.Owns) {handle : Handle} {entries : List Handle}
    (hown : handle.IsOwn a.size) (hlist : a.asList handle = .ok entries) :
    ∀ e ∈ entries, e.IsOwn a.size := by
  rw [← handles_of_asList hlist]
  exact (h.objects handle hown).handles

variable {base : Arena φ} {a : Arena Empty}

theorem onto_empty (base : Arena φ) : base.onto empty = base := by
  simp [onto, empty]

theorem size_onto (base : Arena φ) (a : Arena Empty) :
    (base.onto a).size = a.size - 1 + base.size := by
  simp only [onto, size, Array.size_append, List.size_toArray, List.length_map, List.length_tail,
    Array.length_toList]
  exact Nat.add_comm _ _

theorem create_onto (ha : 0 < a.size) (object : Object Empty) :
    (base.onto a).create (object.onto base.size) =
      ((a.create object).1.onto base.size, base.onto (a.create object).2) := by
  have hne : a.objects.toList ≠ [] := by
    intro hnil
    have hzero : a.size = 0 := by simpa [size] using congrArg List.length hnil
    omega
  apply Prod.ext
  · exact congrArg Handle.mk (size_onto base a)
  · simp only [create, onto, Array.toList_push, List.tail_append_of_ne_nil hne, List.map_append]
    simp

theorem get_onto {h : Handle} (hown : h.IsOwn a.size) :
    (base.onto a).get (h.onto base.size) = (a.get h).onto base.size := by
  obtain ⟨hpositive, hlt⟩ := hown
  have hindex : h.index - 1 + 1 = h.index := by omega
  have hget : a.objects[h.index]? = some (a.get h) := by
    rw [get, Array.getD_eq_getD_getElem?, Array.getElem?_eq_getElem hlt]
    rfl
  have hmoved : (base.onto a).objects[(h.onto base.size).index]? =
      some ((a.get h).onto base.size) := by
    have hle : base.objects.size ≤ h.index - 1 + base.size := Nat.le_add_left _ _
    simp only [onto, Handle.onto, Array.getElem?_append_right hle]
    simp only [size, Nat.add_sub_cancel, List.getElem?_toArray, List.getElem?_map,
      List.getElem?_tail, hindex, Array.getElem?_toList, hget, Option.map_some]
  rw [get, Array.getD_eq_getD_getElem?, hmoved]
  rfl

/-- The handles that can be come by from a handle, along the handles that
objects hold. -/
inductive Reaches (a : Arena φ) (h : Handle) : Handle → Prop where
  | refl : Reaches a h h
  | step {e e' : Handle} (he : Reaches a h e) (hholds : e' ∈ (a.get e).handles) : Reaches a h e'

theorem Reaches.trans {a : Arena φ} {h e e' : Handle} (h₁ : a.Reaches h e)
    (h₂ : a.Reaches e e') : a.Reaches h e' := by
  induction h₂ with
  | refl => exact h₁
  | step _ hholds ih => exact .step ih hholds

/-- What is come by from an object of a transplanted arena has been transplanted
with it. -/
theorem Reaches.of_onto (ha : a.Owns) {h e : Handle} (hown : h.IsOwn a.size)
    (he : (base.onto a).Reaches (h.onto base.size) e) :
    ∃ e₀ : Handle, e₀.IsOwn a.size ∧ e = e₀.onto base.size := by
  induction he with
  | refl => exact ⟨h, hown, rfl⟩
  | step _ hholds ih =>
      obtain ⟨e₀, hown₀, rfl⟩ := ih
      rw [get_onto hown₀, Object.handles_onto] at hholds
      obtain ⟨e₁, he₁, rfl⟩ := List.mem_map.mp hholds
      exact ⟨e₁, (ha.objects e₀ hown₀).handles e₁ he₁, rfl⟩

end Arena

namespace Scope

def IsOwn (n : Nat) (scope : Scope) : Prop := ∀ h ∈ scope.handles, h.IsOwn n

def onto (n : Nat) : Scope → Scope
  | root bindings => root (bindings.onto n)
  | nested bindings outer => nested (bindings.onto n) (outer.onto n)

variable {n n' : Nat} {scope scope' : Scope} {name : String} {h : Handle}

theorem isOwn_empty (n : Nat) : Scope.empty.IsOwn n := by
  simp [IsOwn, handles, empty, Bindings.handles, Bindings.empty]

theorem IsOwn.mono (hown : scope.IsOwn n) (hn : n ≤ n') : scope.IsOwn n' :=
  fun handle hhandle => (hown handle hhandle).mono hn

theorem IsOwn.bindings (hown : scope.IsOwn n) : ∀ e ∈ scope.bindings.handles, e.IsOwn n :=
  fun e he => hown e (scope.bindings_handles_subset he)

theorem IsOwn.withElement (hown : scope.IsOwn n) (hhandle : h.IsOwn n) (name : String) :
    (scope.withElement name h).IsOwn n :=
  List.forall_mem_cons.mpr ⟨hhandle, hown⟩

theorem IsOwn.get (hown : scope.IsOwn n) (hget : scope.get name = .ok h) : h.IsOwn n :=
  hown h (mem_handles_of_get hget)

theorem IsOwn.put (hown : scope.IsOwn n) (hhandle : h.IsOwn n)
    (hput : scope.put name h = .ok scope') : scope'.IsOwn n :=
  fun e he => List.forall_mem_cons.mpr ⟨hhandle, hown⟩ e (handles_put_subset hput he)

theorem get_onto (n : Nat) (scope : Scope) (name : String) :
    (scope.onto n).get name = (scope.get name).map (Handle.onto n) := by
  induction scope with
  | root bindings =>
      simp only [onto, get, Bindings.find?_onto]
      cases bindings.find? name <;> rfl
  | nested bindings outer ih =>
      simp only [onto, get, Bindings.find?_onto]
      cases bindings.find? name with
      | none => exact ih
      | some found => rfl

theorem bindings_onto (n : Nat) (scope : Scope) :
    (scope.onto n).bindings = scope.bindings.onto n := by
  cases scope <;> rfl

theorem withElement_onto (n : Nat) (scope : Scope) (name : String) (h : Handle) :
    (scope.onto n).withElement name (h.onto n) = (scope.withElement name h).onto n :=
  rfl

theorem add?_onto (n : Nat) (b : Bindings) (name : String) (h : Handle) :
    (b.onto n).add? name (h.onto n) = (b.add? name h).map (Bindings.onto n) := by
  unfold Bindings.add?
  by_cases hbound : name ∈ b.names
  · simp [hbound, Bindings.names_onto]
  · have hbound' : name ∉ (b.onto n).names := by rwa [Bindings.names_onto]
    rw [dif_neg hbound, dif_neg hbound', Option.map_some]
    simp [Bindings.onto]

theorem put_onto (n : Nat) (scope : Scope) (name : String) (h : Handle) :
    (scope.onto n).put name (h.onto n) = (scope.put name h).map (Scope.onto n) := by
  unfold put
  rw [bindings_onto, add?_onto]
  cases scope.bindings.add? name h with
  | none => rfl
  | some bindings => cases scope <;> rfl

end Scope

end BuildScript
