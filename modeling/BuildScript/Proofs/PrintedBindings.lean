import Mathlib.Data.List.Nodup
import BuildScript.Proofs.Ranges
import BuildScript.Shell.Run

namespace BuildScript

namespace Bindings

variable {b b' : Bindings}

theorem find?_of_mem {name : String} {handle : Handle} (h : (name, handle) ∈ b.entries) :
    b.find? name = some handle := by
  rcases b with ⟨es, hdistinct⟩
  unfold find?
  dsimp only at h ⊢
  induction es with
  | nil => cases h
  | cons e es ih =>
      rw [List.map_cons, List.nodup_cons] at hdistinct
      rcases List.mem_cons.mp h with rfl | hmem
      · exact List.lookup_cons_self
      · have hne : name ≠ e.1 := by
          rintro rfl
          exact hdistinct.1 (List.mem_map.mpr ⟨_, hmem, rfl⟩)
        rw [List.lookup_cons, beq_false_of_ne hne]
        exact ih hdistinct.2 hmem

/-- What a name is bound to does not depend on where its binding stands. -/
theorem find?_of_perm (h : b.entries.Perm b'.entries) (name : String) :
    b.find? name = b'.find? name := by
  cases hfind : b.find? name with
  | none =>
      have hnames : name ∉ b'.names := fun hname =>
        find?_eq_none_iff.mp hfind ((h.map Prod.fst).mem_iff.mpr hname)
      exact (find?_eq_none_iff.mpr hnames).symm
  | some handle => exact (find?_of_mem (h.mem_iff.mp (mem_of_find? hfind))).symm

theorem mem_names_iff_of_map_eq {α : Type} {f g : Handle → α} {name : String}
    (h : (b.find? name).map f = (b'.find? name).map g) : name ∈ b.names ↔ name ∈ b'.names := by
  have hnone : b.find? name = none ↔ b'.find? name = none := by
    rw [← Option.map_eq_none_iff (f := f), h, Option.map_eq_none_iff]
  rw [find?_eq_none_iff, find?_eq_none_iff] at hnone
  exact not_iff_not.mp hnone

theorem pairwise_insertByName (e : String × Handle) {es : List (String × Handle)}
    (h : es.Pairwise (·.1 ≤ ·.1)) : (insertByName e es).Pairwise (·.1 ≤ ·.1) := by
  induction es with
  | nil => exact List.pairwise_singleton _ e
  | cons f fs ih =>
      obtain ⟨hf, hfs⟩ := List.pairwise_cons.mp h
      rw [insertByName]
      split
      · rename_i hle
        refine List.pairwise_cons.mpr ⟨List.forall_mem_cons.mpr ⟨hle, fun g hg => ?_⟩, h⟩
        exact String.le_trans hle (hf g hg)
      · rename_i hnle
        refine List.pairwise_cons.mpr ⟨fun g hg => ?_, ih hfs⟩
        rcases List.mem_cons.mp ((perm_insertByName e fs).mem_iff.mp hg) with rfl | hg
        · exact (String.le_total _ _).resolve_left hnle
        · exact hf g hg

theorem pairwise_foldr_insertByName (es : List (String × Handle)) :
    (es.foldr insertByName []).Pairwise (·.1 ≤ ·.1) := by
  induction es with
  | nil => exact .nil
  | cons e es ih => exact pairwise_insertByName e ih

theorem pairwise_sorted (b : Bindings) : b.sorted.Pairwise (·.1 ≤ ·.1) :=
  pairwise_foldr_insertByName b.entries

theorem pairwise_lt_sorted (b : Bindings) : b.sorted.Pairwise (·.1 < ·.1) := by
  have hdistinct : (b.sorted.map Prod.fst).Nodup :=
    (b.perm_sorted.map Prod.fst).nodup_iff.mpr b.distinct
  have hne : b.sorted.Pairwise (·.1 ≠ ·.1) := List.pairwise_map.mp hdistinct
  refine (b.pairwise_sorted.and hne).imp ?_
  rintro e f ⟨hle, hne⟩
  exact String.not_le.mp fun hge => hne (String.le_antisymm hle hge)

theorem map_fst_sorted_eq (h : ∀ name, name ∈ b.names ↔ name ∈ b'.names) :
    b.sorted.map Prod.fst = b'.sorted.map Prod.fst := by
  have hnames : b.names.Perm b'.names :=
    (List.perm_ext_iff_of_nodup b.distinct b'.distinct).mpr fun name => h name
  have hperm : (b.sorted.map Prod.fst).Perm (b'.sorted.map Prod.fst) :=
    (b.perm_sorted.map _).trans (hnames.trans (b'.perm_sorted.map _).symm)
  refine hperm.eq_of_pairwise (fun _ _ _ _ => String.le_antisymm) ?_ ?_
  · exact List.pairwise_map.mpr b.pairwise_sorted
  · exact List.pairwise_map.mpr b'.pairwise_sorted

end Bindings

namespace Shell

/-- The names of a scope and their texts decide the lines. -/
theorem bindingLines_eq {a a' : Arena Builtin} {scope scope' : Scope}
    (h : ∀ name, (scope.bindings.find? name).map a.render =
      (scope'.bindings.find? name).map a'.render) :
    bindingLines a scope = bindingLines a' scope' := by
  -- a line is made of the name and of what is found under it
  have hlines : ∀ (c : Arena Builtin) (s : Scope), bindingLines c s =
      String.join (((s.bindings.sorted.map Prod.fst).filter (Builtin.ofName? · |>.isNone)).map
        fun name => name ++ " = " ++ ((s.bindings.find? name).map c.render).getD "" ++ "\n") := by
    intro c s
    rw [bindingLines, List.filter_map, List.map_map]
    congr 1
    refine List.map_congr_left fun e he => ?_
    have hmem := s.bindings.perm_sorted.mem_iff.mp (List.mem_of_mem_filter he)
    simp [Bindings.find?_of_mem hmem]
  have hsorted := Bindings.map_fst_sorted_eq fun name => Bindings.mem_names_iff_of_map_eq (h name)
  simp only [hlines, h, hsorted]

end Shell

end BuildScript
