import Mathlib.Logic.Relation
import BuildScript.Proofs.Transplant
import BuildScript.Proofs.LawfulHosts

namespace BuildScript

variable {φ : Type}

/-- The handles an object holds, and those its function keeps. -/
def Object.references (keeps : φ → List Handle) : Object φ → List Handle
  | .function body => keeps body
  | object => object.handles

theorem Object.handles_subset_references (keeps : φ → List Handle) (object : Object φ) :
    object.handles ⊆ object.references keeps := by
  cases object with
  | function body => exact List.nil_subset _
  | _ => exact List.Subset.refl _

/-- An arena at work: its objects, and the handles its user has. -/
structure Client (φ : Type) where
  known : List Handle
  arena : Arena φ

/-- An arena in the order it was made: null is the first object and the only
one of its kind, and no object refers to itself or to a later one. -/
structure Arena.IsOrdered (keeps : φ → List Handle) (a : Arena φ) : Prop where
  first : a.objects[0]? = some .null
  only : ∀ i, a.objects[i]? = some .null → i = 0
  earlier : ∀ (i : Nat) (object : Object φ), a.objects[i]? = some object →
    ∀ h ∈ object.references keeps, h.index < i

namespace Client

variable {keeps : φ → List Handle}

/-- What can be done with an arena. New objects are not null and are made of
known handles; the handles in a known object are there to be found. -/
inductive Step (keeps : φ → List Handle) : Client φ → Client φ → Prop where
  | null (c : Client φ) : Step keeps c { c with known := .null :: c.known }
  | create {c : Client φ} {object : Object φ} (hnull : object.type ≠ .null)
      (hobject : object.references keeps ⊆ c.known) :
      Step keeps c ⟨(c.arena.create object).1 :: c.known, (c.arena.create object).2⟩
  | follow {c : Client φ} {h : Handle} (hknown : h ∈ c.known) :
      Step keeps c { c with known := (c.arena.get h).references keeps ++ c.known }

abbrev Runs (keeps : φ → List Handle) : Client φ → Client φ → Prop :=
  Relation.ReflTransGen (Step keeps)

theorem Step.known_subset {c c' : Client φ} (h : Step keeps c c') : c.known ⊆ c'.known := by
  cases h with
  | null => exact List.subset_cons_self _ _
  | create => exact List.subset_cons_self _ _
  | follow => exact List.subset_append_right _ _

theorem Runs.known_subset {c c' : Client φ} (h : Runs keeps c c') : c.known ⊆ c'.known := by
  induction h with
  | refl => exact List.Subset.refl _
  | tail _ hstep ih => exact List.Subset.trans ih hstep.known_subset

theorem Step.isPrefix {c c' : Client φ} (h : Step keeps c c') :
    c.arena.objects.toList <+: c'.arena.objects.toList := by
  cases h with
  | create => simp [Arena.create]
  | _ => exact List.prefix_rfl

theorem Runs.isPrefix {c c' : Client φ} (h : Runs keeps c c') :
    c.arena.objects.toList <+: c'.arena.objects.toList := by
  induction h with
  | refl => exact List.prefix_rfl
  | tail _ hstep ih => exact ih.trans hstep.isPrefix

theorem Runs.size_le {c c' : Client φ} (h : Runs keeps c c') : c.arena.size ≤ c'.arena.size :=
  h.isPrefix.length_le

/-- Who knows more can do the same. -/
theorem Step.of_subset {c c' : Client φ} (h : Step keeps c c') {known : List Handle}
    (hknown : c.known ⊆ known) :
    ∃ known', c'.known ⊆ known' ∧ Step keeps ⟨known, c.arena⟩ ⟨known', c'.arena⟩ := by
  cases h with
  | null => exact ⟨_, List.cons_subset_cons _ hknown, .null _⟩
  | create hnull hobject =>
      exact ⟨_, List.cons_subset_cons _ hknown, .create hnull (List.Subset.trans hobject hknown)⟩
  | follow h =>
      refine ⟨_, List.append_subset.mpr ⟨?_, ?_⟩, .follow (hknown h)⟩
      · exact List.subset_append_left _ _
      · exact List.Subset.trans hknown (List.subset_append_right _ _)

theorem Runs.of_subset {c c' : Client φ} (h : Runs keeps c c') {known : List Handle}
    (hknown : c.known ⊆ known) :
    ∃ known', c'.known ⊆ known' ∧ Runs keeps ⟨known, c.arena⟩ ⟨known', c'.arena⟩ := by
  induction h with
  | refl => exact ⟨known, hknown, .refl⟩
  | tail _ hstep ih =>
      obtain ⟨before, hbefore, hruns⟩ := ih
      obtain ⟨known', hknown', hlast⟩ := hstep.of_subset hbefore
      exact ⟨known', hknown', hruns.tail hlast⟩

/-- The arena is ordered, and all known handles are of its objects. -/
structure IsSafe (keeps : φ → List Handle) (c : Client φ) : Prop where
  ordered : c.arena.IsOrdered keeps
  known : InRange c.arena.size c.known

end Client

namespace Arena

variable {keeps : φ → List Handle} {a : Arena φ}

theorem getElem?_of_lt {h : Handle} (hlt : h.index < a.size) :
    a.objects[h.index]? = some (a.get h) := by
  have hlt' : h.index < a.objects.size := hlt
  simp [get, hlt']

theorem get_of_size_le {h : Handle} (hle : a.size ≤ h.index) : a.get h = .null := by
  have hle' : a.objects.size ≤ h.index := hle
  simp [get, hle']

theorem isOrdered_empty (keeps : φ → List Handle) : (empty : Arena φ).IsOrdered keeps := by
  have honly : ∀ i (object : Object φ), (empty : Arena φ).objects[i]? = some object →
      i = 0 ∧ object = .null := by
    rintro (_ | i) object hobject
    · exact ⟨rfl, by simpa [empty, eq_comm] using hobject⟩
    · simp [empty] at hobject
  refine ⟨rfl, fun i hi => (honly i _ hi).1, fun i object hobject h hh => ?_⟩
  obtain ⟨-, rfl⟩ := honly i object hobject
  cases hh

/-- No object refers to itself or to a later one, functions apart. -/
def RefersBack (a : Arena φ) : Prop :=
  ∀ (i : Nat) (object : Object φ), a.objects[i]? = some object → ∀ h ∈ object.handles, h.index < i

theorem RefersBack.index_lt (hback : a.RefersBack) {h found : Handle}
    (hfound : found ∈ (a.get h).handles) : found.index < h.index := by
  by_cases hlt : h.index < a.size
  · exact hback _ _ (getElem?_of_lt hlt) found hfound
  · rw [get_of_size_le (Nat.le_of_not_lt hlt)] at hfound
    cases hfound

/-- Going from objects to those they hold comes to an end. -/
theorem RefersBack.wellFounded (hback : a.RefersBack) :
    WellFounded fun found h : Handle => found ∈ (a.get h).handles :=
  Subrelation.wf (hback.index_lt ·) (measure Handle.index).wf

/-- Where objects refer back, a text is complete once its depth is greater than
the index it starts from. -/
theorem RefersBack.renderTo_eq (hback : a.RefersBack) {h : Handle} {depth depth' : Nat}
    (hdepth : h.index < depth) (hdepth' : h.index < depth') :
    a.renderTo depth h = a.renderTo depth' h := by
  induction depth generalizing h depth' with
  | zero => exact absurd hdepth (Nat.not_lt_zero _)
  | succ depth ih =>
      obtain ⟨depth', rfl⟩ := Nat.exists_eq_add_one_of_ne_zero (Nat.ne_zero_of_lt hdepth')
      have hbelow : ∀ found ∈ (a.get h).handles,
          a.renderTo depth found = a.renderTo depth' found := fun found hfound =>
        ih (Nat.lt_of_lt_of_le (hback.index_lt hfound) (Nat.le_of_lt_succ hdepth))
          (Nat.lt_of_lt_of_le (hback.index_lt hfound) (Nat.le_of_lt_succ hdepth'))
      rw [renderTo, renderTo]
      cases hobject : a.get h with
      | list entries =>
          rw [hobject] at hbelow
          have hentries : entries.map (a.renderTo depth) = entries.map (a.renderTo depth') :=
            List.map_congr_left hbelow
          simp only [hentries]
      | struct attributes =>
          rw [hobject] at hbelow
          have hsorted : attributes.sorted.map (fun e => e.1 ++ " = " ++ a.renderTo depth e.2) =
              attributes.sorted.map fun e => e.1 ++ " = " ++ a.renderTo depth' e.2 := by
            refine List.map_congr_left fun e he => ?_
            have hentry := (attributes.perm_sorted.mem_iff).mp he
            rw [hbelow e.2 (List.mem_map_of_mem hentry)]
          simp only [hsorted]
      | _ => rfl

namespace IsOrdered

theorem refersBack (h : a.IsOrdered keeps) : a.RefersBack :=
  fun i object hobject found hfound =>
    h.earlier i object hobject found (object.handles_subset_references keeps hfound)

theorem size_pos (h : a.IsOrdered keeps) : 0 < a.size :=
  (Array.getElem?_eq_some_iff.mp h.first).choose

theorem create (h : a.IsOrdered keeps) {object : Object φ} (hnull : object.type ≠ .null)
    (hobject : InRange a.size (object.references keeps)) : (a.create object).2.IsOrdered keeps := by
  have hold : ∀ i other, (a.create object).2.objects[i]? = some other →
      a.objects[i]? = some other ∨ i = a.size ∧ other = object := by
    intro i other hother
    have hpush : (a.objects.push object)[i]? = some other := hother
    rw [Array.getElem?_push] at hpush
    split at hpush
    · rename_i hlast
      cases hpush
      exact .inr ⟨hlast, rfl⟩
    · exact .inl hpush
  refine ⟨?_, fun i hi => ?_, fun i other hother => ?_⟩
  · have hne : 0 ≠ a.objects.size := Nat.ne_of_lt h.size_pos
    have hfirst : (a.objects.push object)[0]? = some .null := by
      rw [Array.getElem?_push, if_neg hne]
      exact h.first
    exact hfirst
  · rcases hold i _ hi with hi | ⟨-, rfl⟩
    · exact h.only i hi
    · exact absurd rfl hnull
  · rcases hold i other hother with hother | ⟨rfl, rfl⟩
    · exact h.earlier i other hother
    · exact hobject

theorem isNull_iff (h : a.IsOrdered keeps) {handle : Handle} (hlt : handle.index < a.size) :
    handle.isNull = true ↔ (a.get handle).type = .null := by
  have hget := getElem?_of_lt hlt
  constructor
  · intro hnull
    obtain rfl : handle = .null := by simpa [Handle.isNull] using hnull
    obtain hfirst : some (a.get .null) = some .null := hget.symm.trans h.first
    rw [Option.some.inj hfirst]
    rfl
  · intro htype
    obtain hnull : a.get handle = .null := by
      cases hobject : a.get handle with
      | null => rfl
      | _ =>
          rw [hobject] at htype
          cases htype
    rw [hnull] at hget
    have hindex := h.only _ hget
    rcases handle with ⟨index⟩
    obtain rfl : index = 0 := hindex
    rfl

theorem index_lt (h : a.IsOrdered keeps) {handle found : Handle}
    (hfound : found ∈ (a.get handle).references keeps) : found.index < handle.index := by
  by_cases hlt : handle.index < a.size
  · exact h.earlier _ _ (getElem?_of_lt hlt) found hfound
  · rw [get_of_size_le (Nat.le_of_not_lt hlt)] at hfound
    cases hfound

end IsOrdered

end Arena

namespace Client

variable {keeps : φ → List Handle} {c c' : Client φ}

theorem Step.isSafe (h : Step keeps c c') (hsafe : c.IsSafe keeps) : c'.IsSafe keeps := by
  obtain ⟨hordered, hknown⟩ := hsafe
  cases h with
  | null => exact ⟨hordered, inRange_cons.mpr ⟨hordered.size_pos, hknown⟩⟩
  | create hnull hobject =>
      refine ⟨hordered.create hnull fun h hh => hknown h (hobject hh), ?_⟩
      rw [Arena.size_create]
      exact inRange_cons.mpr ⟨Nat.lt_succ_self _, hknown.mono (Nat.le_succ _)⟩
  | follow hh =>
      refine ⟨hordered, inRange_append.mpr ⟨fun found hfound => ?_, hknown⟩⟩
      exact Nat.lt_trans (hordered.index_lt hfound) (hknown _ hh)

theorem Runs.isSafe (h : Runs keeps c c') (hsafe : c.IsSafe keeps) : c'.IsSafe keeps := by
  induction h with
  | refl => exact hsafe
  | tail _ hstep ih => exact hstep.isSafe ih

end Client

end BuildScript
