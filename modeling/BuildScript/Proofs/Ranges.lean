import BuildScript.Proofs.Actions

namespace BuildScript

def Arguments.handles (args : Arguments) : List Handle :=
  args.positional.map (·.object) ++ args.keyword.map (·.2.object)

/-- All these handles are of the first `n` objects. -/
def InRange (n : Nat) (handles : List Handle) : Prop := ∀ h ∈ handles, h.index < n

theorem InRange.mono {n n' : Nat} {handles : List Handle} (h : InRange n handles) (hn : n ≤ n') :
    InRange n' handles :=
  fun handle hhandle => Nat.lt_of_lt_of_le (h handle hhandle) hn

theorem inRange_nil (n : Nat) : InRange n [] := fun _ h => by cases h

theorem inRange_cons {n : Nat} {handle : Handle} {handles : List Handle} :
    InRange n (handle :: handles) ↔ handle.index < n ∧ InRange n handles :=
  List.forall_mem_cons

theorem inRange_append {n : Nat} {handles handles' : List Handle} :
    InRange n (handles ++ handles') ↔ InRange n handles ∧ InRange n handles' :=
  List.forall_mem_append

def Bindings.handles (b : Bindings) : List Handle := b.entries.map Prod.snd

theorem Bindings.mem_of_find? {b : Bindings} {name : String} {h : Handle}
    (hfind : b.find? name = some h) : (name, h) ∈ b.entries := by
  obtain ⟨left, right, hsplit, -⟩ := List.lookup_eq_some_iff.mp hfind
  simp [hsplit]

theorem Bindings.mem_handles_of_find? {b : Bindings} {name : String} {h : Handle}
    (hfind : b.find? name = some h) : h ∈ b.handles :=
  List.mem_map_of_mem (mem_of_find? hfind)

variable {φ : Type}

def Object.handles : Object φ → List Handle
  | struct attributes => attributes.handles
  | list entries => entries
  | _ => []

namespace Arena

variable {a : Arena φ} {handle found : Handle}

theorem mem_handles_of_attr {name : String}
    (hattr : a.attr handle name = .ok found) : found ∈ (a.get handle).handles := by
  unfold Arena.attr Object.attr at hattr
  split at hattr
  · rename_i attributes hget
    rw [hget]
    split at hattr
    · rename_i hfind
      cases hattr
      exact Bindings.mem_handles_of_find? hfind
    · cases hattr
  · cases hattr

theorem handles_of_asList {entries : List Handle}
    (hlist : a.asList handle = .ok entries) : (a.get handle).handles = entries := by
  unfold Arena.asList Object.asList at hlist
  split at hlist
  · rename_i hget
    cases hlist
    rw [hget]
    rfl
  · cases hlist

end Arena

/-- The objects an object refers to are among the first `n`. What a function
refers to is known to its host. -/
def Object.Fits (fits : φ → Nat → Prop) (n : Nat) : Object φ → Prop
  | .null => True
  | .struct attributes => InRange n attributes.handles
  | .function body => fits body n
  | .string _ => True
  | .list entries => InRange n entries

/-- An arena with null in it whose objects refer to its own objects only. -/
structure Arena.Closed (fits : φ → Nat → Prop) (a : Arena φ) : Prop where
  nonempty : 0 < a.size
  objects : ∀ (i : Nat) (object : Object φ), a.objects[i]? = some object → object.Fits fits a.size

/-- An answer that leaves the arena closed and takes nothing from it. The value
of a call that went well is an object of the arena. -/
structure Serves (fits : φ → Nat → Prop) (a : Arena φ) (answer : Reply × Arena φ) : Prop where
  closed : answer.2.Closed fits
  size_le : a.size ≤ answer.2.size
  value : answer.1.isSuccess = true → answer.1.value.index < answer.2.size

/-- A host whose functions use a closed arena as it is meant to be used: the
handles they use are those they keep, those they are given and those that the
arena gives them. -/
class LawfulHost (φ : Type) [Host φ] where
  /-- The handles a function keeps are of the first objects. -/
  Fits : φ → Nat → Prop
  fits_mono : ∀ body n n', Fits body n → n ≤ n' → Fits body n'
  serves : ∀ body (a : Arena φ) args, a.Closed Fits → Fits body a.size →
    InRange a.size args.handles → Serves Fits a (Host.call body a args)

theorem Object.Fits.mono {fits : φ → Nat → Prop} {n n' : Nat} {object : Object φ}
    (hfits : ∀ body n n', fits body n → n ≤ n' → fits body n') (h : object.Fits fits n)
    (hn : n ≤ n') : object.Fits fits n' := by
  cases object with
  | null => trivial
  | struct attributes => exact InRange.mono h hn
  | function body => exact hfits body n n' h hn
  | string text => trivial
  | list entries => exact InRange.mono h hn

theorem Object.Fits.handles {fits : φ → Nat → Prop} {n : Nat} {object : Object φ}
    (h : object.Fits fits n) : InRange n object.handles := by
  cases object with
  | struct attributes => exact h
  | list entries => exact h
  | _ => exact inRange_nil n

namespace Arena

variable {fits : φ → Nat → Prop} {a : Arena φ}

theorem closed_empty (fits : φ → Nat → Prop) : (empty : Arena φ).Closed fits := by
  refine ⟨Nat.succ_pos 0, ?_⟩
  rintro i object hobject
  cases i with
  | zero =>
      obtain rfl : Object.null = object := by simpa [empty] using hobject
      trivial
  | succ i => simp [empty] at hobject

theorem Closed.create (hfits : ∀ body n n', fits body n → n ≤ n' → fits body n')
    (h : a.Closed fits) {object : Object φ} (hobject : object.Fits fits a.size) :
    (a.create object).2.Closed fits := by
  refine ⟨by rw [size_create]; exact Nat.succ_pos _, ?_⟩
  intro i other hother
  rw [size_create]
  have hother' : (a.objects.push object)[i]? = some other := hother
  rw [Array.getElem?_push] at hother'
  split at hother'
  · cases hother'
    exact hobject.mono hfits (Nat.le_succ _)
  · exact (h.objects i other hother').mono hfits (Nat.le_succ _)

theorem Closed.get (h : a.Closed fits) (handle : Handle) : (a.get handle).Fits fits a.size := by
  rw [Arena.get, Array.getD_eq_getD_getElem?]
  cases hobject : a.objects[handle.index]? with
  | none => trivial
  | some object => exact h.objects _ object hobject

theorem Closed.attr (h : a.Closed fits) {handle found : Handle} {name : String}
    (hattr : a.attr handle name = .ok found) : found.index < a.size :=
  (h.get handle).handles found (mem_handles_of_attr hattr)

theorem Closed.asList (h : a.Closed fits) {handle : Handle} {entries : List Handle}
    (hlist : a.asList handle = .ok entries) : InRange a.size entries :=
  handles_of_asList hlist ▸ (h.get handle).handles

theorem Closed.asFunction (h : a.Closed fits) {handle : Handle} {body : φ}
    (hfunction : a.asFunction handle = .ok body) : fits body a.size := by
  have hobject := h.get handle
  unfold Arena.asFunction Object.asFunction at hfunction
  split at hfunction
  · rename_i hget
    cases hfunction
    rw [hget] at hobject
    exact hobject
  · cases hfunction

end Arena

namespace Scope

def handles : Scope → List Handle
  | root bindings => bindings.handles
  | nested bindings outer => bindings.handles ++ outer.handles

variable {n : Nat} {scope scope' : Scope} {name : String} {h : Handle}

theorem mem_handles_of_get (hget : scope.get name = .ok h) : h ∈ scope.handles := by
  induction scope with
  | root bindings =>
      simp only [get] at hget
      split at hget
      · rename_i hfind
        cases hget
        exact Bindings.mem_handles_of_find? hfind
      · cases hget
  | nested bindings outer ih =>
      simp only [get] at hget
      split at hget
      · rename_i hfind
        cases hget
        exact List.mem_append_left _ (Bindings.mem_handles_of_find? hfind)
      · exact List.mem_append_right _ (ih hget)

theorem bindings_handles_subset (scope : Scope) : scope.bindings.handles ⊆ scope.handles := by
  cases scope with
  | root bindings => exact List.Subset.refl _
  | nested bindings outer => exact List.subset_append_left _ _

theorem handles_put_subset (hput : scope.put name h = .ok scope') :
    scope'.handles ⊆ h :: scope.handles := by
  cases hadd : scope.bindings.add? name h with
  | none => simp [put, hadd] at hput
  | some b =>
      have hb : b.handles ⊆ h :: scope.handles := by
        rw [Bindings.handles, (Bindings.entries_of_add? hadd).2, List.map_append]
        refine List.append_subset.mpr ⟨?_, by simp⟩
        exact List.Subset.trans scope.bindings_handles_subset (List.subset_cons_self _ _)
      cases scope with
      | root _ =>
          simp only [put, hadd] at hput
          cases hput
          exact hb
      | nested _ outer =>
          simp only [put, hadd] at hput
          cases hput
          refine List.append_subset.mpr ⟨hb, fun found hfound => ?_⟩
          exact List.mem_cons_of_mem _ (List.mem_append_right _ hfound)

theorem handles_withElement (scope : Scope) (name : String) (h : Handle) :
    (scope.withElement name h).handles = h :: scope.handles :=
  rfl

/-- All bindings of a scope and of the scopes around it are to the first `n`
objects. -/
def Fits (n : Nat) : Scope → Prop
  | root bindings => InRange n bindings.handles
  | nested bindings outer => InRange n bindings.handles ∧ outer.Fits n

theorem fits_iff : scope.Fits n ↔ InRange n scope.handles := by
  induction scope with
  | root bindings => exact Iff.rfl
  | nested bindings outer ih => rw [Fits, ih, handles, inRange_append]

end Scope

namespace Arguments

variable {known : List Handle} {args : Arguments} {h : Handle}

theorem handles_pushPositional_subset (hargs : args.handles ⊆ known) (hh : h ∈ known) :
    (args.pushPositional h).handles ⊆ known := by
  obtain ⟨hpositional, hkeyword⟩ := List.append_subset.mp hargs
  refine List.append_subset.mpr ⟨?_, hkeyword⟩
  rw [pushPositional, List.map_append]
  exact List.append_subset.mpr ⟨hpositional, List.cons_subset.mpr ⟨hh, List.nil_subset _⟩⟩

theorem handles_pushKeyword_subset (hargs : args.handles ⊆ known) (hh : h ∈ known)
    (name : String) : (args.pushKeyword name h).handles ⊆ known := by
  unfold pushKeyword
  split
  · exact hargs
  · obtain ⟨hpositional, hkeyword⟩ := List.append_subset.mp hargs
    refine List.append_subset.mpr ⟨hpositional, ?_⟩
    rw [List.map_append]
    exact List.append_subset.mpr ⟨hkeyword, List.cons_subset.mpr ⟨hh, List.nil_subset _⟩⟩

end Arguments

end BuildScript
