import Mathlib.Data.List.Induction
import BuildScript.Proofs.ClientHosts
import BuildScript.Proofs.PrintedBindings

namespace BuildScript

/-- A way to list bindings. It leaves none out and lists none twice. -/
structure Enumeration where
  order : Bindings → List (String × Handle)
  perm : ∀ b, (order b).Perm b.entries

namespace Enumeration

/-- Bindings are listed in the order they were first bound. -/
def kept : Enumeration := ⟨Bindings.entries, fun _ => .refl _⟩

def reversed : Enumeration := ⟨fun b => b.entries.reverse, fun b => b.entries.reverse_perm⟩

theorem nodup_order (e : Enumeration) (b : Bindings) : ((e.order b).map Prod.fst).Nodup :=
  ((e.perm b).map Prod.fst).nodup_iff.mpr b.distinct

end Enumeration

namespace Bindings

variable {b b' : Bindings} {pairs pairs' : List (String × Handle)}

/-- Bindings are sorted in one way, in whatever order they are listed. -/
theorem foldr_insertByName_of_perm {es : List (String × Handle)} (h : es.Perm b.entries) :
    es.foldr insertByName [] = b.sorted := by
  have hperm : (es.foldr insertByName []).Perm b.sorted :=
    (perm_foldr_insertByName es).trans (h.trans b.perm_sorted.symm)
  refine hperm.eq_of_pairwise ?_ (pairwise_foldr_insertByName es) b.pairwise_sorted
  -- entries with one name are one entry, since no name is bound twice
  rintro ⟨name, handle⟩ ⟨name', handle'⟩ hfirst hsecond hle hge
  obtain rfl : name = name' := String.le_antisymm hle hge
  have hfind := find?_of_mem (b.perm_sorted.mem_iff.mp (hperm.mem_iff.mp hfirst))
  rw [find?_of_mem (b.perm_sorted.mem_iff.mp hsecond)] at hfind
  cases hfind
  rfl

theorem sorted_of_perm (h : b.entries.Perm b'.entries) : b.sorted = b'.sorted :=
  foldr_insertByName_of_perm h

theorem lookup_rebind (name : String) (handle : Handle) (entries : List (String × Handle))
    (other : String) :
    (rebind name handle entries).lookup other =
      if other = name then (entries.lookup other).map fun _ => handle
      else entries.lookup other := by
  unfold rebind
  induction entries with
  | nil => simp
  | cons e es ih =>
      rw [List.map_cons, List.lookup_cons, List.lookup_cons, ih]
      by_cases he : other = e.1 <;> by_cases hname : other = name <;> grind

theorem find?_set (b : Bindings) (name : String) (handle : Handle) (other : String) :
    (b.set name handle).find? other = if other = name then some handle else b.find? other := by
  unfold set
  by_cases hname : name ∈ b.names
  · rw [dif_pos hname]
    show (rebind name handle b.entries).lookup other = _
    rw [lookup_rebind]
    by_cases hother : other = name
    · rw [if_pos hother, if_pos hother, hother]
      cases hfind : b.entries.lookup name with
      | none => exact absurd hname (find?_eq_none_iff.mp hfind)
      | some found => rfl
    · rw [if_neg hother, if_neg hother]
      rfl
  · rw [dif_neg hname]
    exact lookup_concat hname handle other

theorem ofPairs_concat (pairs : List (String × Handle)) (e : String × Handle) :
    ofPairs (pairs ++ [e]) = (ofPairs pairs).set e.1 e.2 := by
  simp [ofPairs]

theorem find?_ofPairs (pairs : List (String × Handle)) (name : String) :
    (ofPairs pairs).find? name = pairs.reverse.lookup name := by
  induction pairs using List.reverseRecOn with
  | nil => rfl
  | append_singleton pairs e ih =>
      rw [ofPairs_concat, find?_set, List.reverse_concat, List.lookup_cons, ih]
      by_cases hname : name = e.1
      · simp [hname]
      · simp [hname, beq_false_of_ne hname]

theorem entries_ofPairs (h : (pairs.map Prod.fst).Nodup) : (ofPairs pairs).entries = pairs := by
  induction pairs using List.reverseRecOn with
  | nil => rfl
  | append_singleton pairs e ih =>
      rw [List.map_append, List.nodup_append] at h
      have hentries := ih h.1
      have hfresh : e.1 ∉ (ofPairs pairs).names := by
        rw [names, hentries]
        exact fun hname => h.2.2 e.1 hname e.1 (by simp) rfl
      rw [ofPairs_concat, set, dif_neg hfresh]
      show (ofPairs pairs).entries ++ [e] = _
      rw [hentries]

theorem ofPairs_entries (b : Bindings) : ofPairs b.entries = b := by
  have hentries : (ofPairs b.entries).entries = b.entries := entries_ofPairs b.distinct
  rcases b with ⟨entries, hdistinct⟩
  exact (Bindings.mk.injEq ..).mpr hentries

theorem perm_ofPairs (h : (pairs.map Prod.fst).Nodup) (hperm : pairs.Perm pairs') :
    (ofPairs pairs).entries.Perm (ofPairs pairs').entries := by
  rw [entries_ofPairs h, entries_ofPairs ((hperm.map Prod.fst).nodup_iff.mp h)]
  exact hperm

theorem entries_ofPairs_order (e : Enumeration) (b : Bindings) :
    (ofPairs (e.order b)).entries.Perm b.entries := by
  rw [entries_ofPairs (e.nodup_order b)]
  exact e.perm b

end Bindings

variable {φ : Type}

namespace Object

/-- The same object, up to the order in which a struct has its attributes. -/
inductive Reordered : Object φ → Object φ → Prop where
  | refl (o : Object φ) : Reordered o o
  | struct {b b' : Bindings} (h : b.entries.Perm b'.entries) : Reordered (.struct b) (.struct b')

namespace Reordered

variable {o o' : Object φ}

theorem attr_eq (h : o.Reordered o') (name : String) : o.attr name = o'.attr name := by
  cases h with
  | refl => rfl
  | struct h => simp only [attr, Bindings.find?_of_perm h]

theorem asList_eq (h : o.Reordered o') : o.asList = o'.asList := by
  cases h <;> rfl

theorem asFunction_eq (h : o.Reordered o') : o.asFunction = o'.asFunction := by
  cases h <;> rfl

theorem of_struct {b : Bindings} (h : (Object.struct b).Reordered o') :
    ∃ b', o' = .struct b' ∧ b.entries.Perm b'.entries := by
  cases h with
  | refl => exact ⟨b, rfl, .refl _⟩
  | struct h => exact ⟨_, rfl, h⟩

end Reordered

end Object

namespace Arena

structure Reordered (a a' : Arena φ) : Prop where
  size_eq : a.size = a'.size
  objects : ∀ h, (a.get h).Reordered (a'.get h)

namespace Reordered

variable {a a' : Arena φ}

theorem refl (a : Arena φ) : a.Reordered a := ⟨rfl, fun _ => .refl _⟩

theorem attr_eq (h : a.Reordered a') (handle : Handle) (name : String) :
    a.attr handle name = a'.attr handle name :=
  (h.objects handle).attr_eq name

theorem asList_eq (h : a.Reordered a') (handle : Handle) : a.asList handle = a'.asList handle :=
  (h.objects handle).asList_eq

theorem asFunction_eq (h : a.Reordered a') (handle : Handle) :
    a.asFunction handle = a'.asFunction handle :=
  (h.objects handle).asFunction_eq

theorem create_eq (h : a.Reordered a') (o o' : Object φ) : (a.create o).1 = (a'.create o').1 :=
  congrArg Handle.mk h.size_eq

theorem create (h : a.Reordered a') {o o' : Object φ} (ho : o.Reordered o') :
    (a.create o).2.Reordered (a'.create o').2 := by
  constructor
  · rw [size_create, size_create, h.size_eq]
  · intro handle
    rw [get_create, get_create, ← h.size_eq]
    by_cases hlast : handle.index = a.size
    · rw [if_pos hlast, if_pos hlast]
      exact ho
    · rw [if_neg hlast, if_neg hlast]
      exact h.objects handle

theorem renderTo_eq (h : a.Reordered a') {handle handle' : Handle}
    (hobject : (a.get handle).Reordered (a'.get handle')) (depth : Nat) :
    a.renderTo depth handle = a'.renderTo depth handle' := by
  induction depth generalizing handle handle' with
  | zero => rfl
  | succ depth ih =>
      have htexts : a.renderTo depth = a'.renderTo depth := funext fun e => ih (h.objects e)
      rw [renderTo, renderTo, htexts]
      generalize a.get handle = o at hobject
      generalize a'.get handle' = o' at hobject
      cases hobject with
      | refl => rfl
      | struct h => simp only [Bindings.sorted_of_perm h]

theorem render_eq (h : a.Reordered a') (handle : Handle) : a.render handle = a'.render handle :=
  h.renderTo_eq (h.objects handle) _

end Reordered

variable {a : Arena φ} {pairs pairs' : List (String × Handle)}

def createStruct (a : Arena φ) (pairs : List (String × Handle)) : Handle × Arena φ :=
  a.create (.struct (.ofPairs pairs))

theorem get_createStruct_self (a : Arena φ) (pairs : List (String × Handle)) :
    (a.createStruct pairs).2.get (a.createStruct pairs).1 = .struct (.ofPairs pairs) :=
  get_create_self a _

/-- A struct whose pairs were gathered in a map of their own first, which lists
them in its own order. -/
def structFrom (a : Arena φ) (e : Enumeration) (pairs : List (String × Handle)) :
    Handle × Arena φ :=
  a.createStruct (e.order (.ofPairs pairs))

theorem RefersBack.create (hback : a.RefersBack) {o : Object φ}
    (ho : ∀ h ∈ o.handles, h.index < a.size) : (a.create o).2.RefersBack := by
  intro i object hobject
  have hpushed : (a.objects.push o)[i]? = some object := hobject
  rw [Array.getElem?_push] at hpushed
  split at hpushed
  · rename_i hlast
    cases hpushed
    rw [hlast]
    exact ho
  · exact hback i object hpushed

theorem RefersBack.createStruct (hback : a.RefersBack) (hpairs : ∀ e ∈ pairs, e.2.index < a.size) :
    (a.createStruct pairs).2.RefersBack := by
  apply hback.create
  intro h hh
  obtain ⟨e, he, rfl⟩ := List.mem_map.mp (Bindings.handles_ofPairs_subset pairs hh)
  exact hpairs e he

end Arena

/-- Two objects, each seen in its arena, that have the same attributes and the
same text. -/
structure LooksLike (made made' : Handle × Arena φ) : Prop where
  attr : ∀ name, made.2.attr made.1 name = made'.2.attr made'.1 name
  render : made.2.render made.1 = made'.2.render made'.1

/-- The attributes of an object are the last pairs of their names. -/
structure KeepsLast (pairs : List (String × Handle)) (made : Handle × Arena φ) : Prop where
  last : ∀ before name handle after, pairs = before ++ (name, handle) :: after →
    name ∉ after.map Prod.fst → made.2.attr made.1 name = .ok handle
  missing : ∀ name, name ∉ pairs.map Prod.fst →
    made.2.attr made.1 name = .error (.unknownAttribute name .struct)

section Structs

variable {a : Arena φ} {pairs pairs' : List (String × Handle)}

theorem LooksLike.of_reordered {a' : Arena φ} (h : a.Reordered a') (handle : Handle) :
    LooksLike (handle, a) (handle, a') :=
  ⟨h.attr_eq handle, h.render_eq handle⟩

theorem LooksLike.of_refersBack (hback : a.RefersBack) {h e : Handle}
    (hobject : (a.get h).Reordered (a.get e)) : LooksLike (h, a) (e, a) := by
  refine ⟨hobject.attr_eq, ?_⟩
  -- the indices differ, but any depth above both of them gives the whole texts
  calc a.render h = a.renderTo (h.index + e.index + 1) h :=
        hback.renderTo_eq (Nat.lt_succ_self _) (by omega)
    _ = a.renderTo (h.index + e.index + 1) e := (Arena.Reordered.refl a).renderTo_eq hobject _
    _ = a.render e := hback.renderTo_eq (by omega) (Nat.lt_succ_self _)

theorem looksLike_create {b b' : Bindings} (h : b.entries.Perm b'.entries) :
    LooksLike (a.create (.struct b)) (a.create (.struct b')) :=
  .of_reordered ((Arena.Reordered.refl a).create (.struct h)) _

theorem looksLike_createStruct (h : (pairs.map Prod.fst).Nodup) (hperm : pairs.Perm pairs') :
    LooksLike (a.createStruct pairs) (a.createStruct pairs') :=
  looksLike_create (Bindings.perm_ofPairs h hperm)

theorem looksLike_createStruct_after (h : (pairs.map Prod.fst).Nodup)
    (hperm : pairs.Perm pairs') (hback : a.RefersBack) (hpairs : ∀ e ∈ pairs, e.2.index < a.size) :
    LooksLike ((a.createStruct pairs).1, ((a.createStruct pairs).2.createStruct pairs').2)
      ((a.createStruct pairs).2.createStruct pairs') := by
  have hlt : (a.createStruct pairs).1.index < (a.createStruct pairs).2.size := by
    rw [Arena.createStruct, Arena.size_create]
    exact Nat.lt_succ_self a.size
  have hpairs' : ∀ e ∈ pairs', e.2.index < (a.createStruct pairs).2.size := fun e he =>
    Nat.lt_trans (hpairs e (hperm.mem_iff.mpr he)) hlt
  have hfirst : ((a.createStruct pairs).2.createStruct pairs').2.get (a.createStruct pairs).1 =
      .struct (.ofPairs pairs) :=
    (Arena.get_create_of_lt hlt).trans (Arena.get_createStruct_self a pairs)
  refine .of_refersBack (e := ((a.createStruct pairs).2.createStruct pairs').1)
    ((hback.createStruct hpairs).createStruct hpairs') ?_
  rw [hfirst, Arena.get_createStruct_self]
  exact .struct (Bindings.perm_ofPairs h hperm)

theorem looksLike_structFrom (a : Arena φ) (e : Enumeration) (pairs : List (String × Handle)) :
    LooksLike (a.createStruct pairs) (a.structFrom e pairs) :=
  looksLike_create (Bindings.entries_ofPairs_order e _).symm

theorem keepsLast_createStruct (a : Arena φ) (pairs : List (String × Handle)) :
    KeepsLast pairs (a.createStruct pairs) := by
  have hattr : ∀ name, (a.createStruct pairs).2.attr (a.createStruct pairs).1 name =
      (Object.struct (.ofPairs pairs) : Object φ).attr name := by
    intro name
    rw [Arena.attr, Arena.get_createStruct_self]
  constructor
  · rintro before name handle after rfl hlater
    rw [hattr, Object.attr, Bindings.find?_ofPairs]
    have hnone : after.reverse.lookup name = none := by
      rw [lookup_eq_none_iff_notMem, List.map_reverse, List.mem_reverse]
      exact hlater
    simp [List.lookup_append, hnone]
  · intro name hname
    have hnone : pairs.reverse.lookup name = none := by
      rw [lookup_eq_none_iff_notMem, List.map_reverse, List.mem_reverse]
      exact hname
    simp only [hattr, Object.attr, Bindings.find?_ofPairs, hnone]

theorem KeepsLast.of_looksLike {made made' : Handle × Arena φ} (h : KeepsLast pairs made)
    (hlooks : LooksLike made made') : KeepsLast pairs made' := by
  constructor
  · intro before name handle after hpairs hlater
    rw [← hlooks.attr, h.last before name handle after hpairs hlater]
  · intro name hname
    rw [← hlooks.attr, h.missing name hname]

end Structs

namespace Scope

def putAll (s : Scope) (pairs : List (String × Handle)) : Except ScopeError Scope :=
  pairs.foldlM (fun s e => s.put e.1 e.2) s

/-- The bindings of a scope in the order of their names, after they were listed
in some order. -/
def sortedBindings (e : Enumeration) (s : Scope) : List (String × Handle) :=
  (e.order s.bindings).foldr Bindings.insertByName []

theorem sortedBindings_eq (e : Enumeration) (s : Scope) :
    s.sortedBindings e = s.bindings.sorted :=
  Bindings.foldr_insertByName_of_perm (e.perm _)

theorem put_root {b : Bindings} {name : String} (h : name ∉ b.names) (handle : Handle) :
    ∃ b', (root b).put name handle = .ok (root b') ∧
      b'.entries = b.entries ++ [(name, handle)] := by
  cases hadd : b.add? name handle with
  | none => exact absurd (Bindings.add?_eq_none_iff.mp hadd) h
  | some b' =>
      refine ⟨b', ?_, (Bindings.entries_of_add? hadd).2⟩
      simp only [put, bindings, hadd]

theorem putAll_root {pairs : List (String × Handle)} {b : Bindings}
    (h : ((b.entries ++ pairs).map Prod.fst).Nodup) :
    ∃ b', (root b).putAll pairs = .ok (root b') ∧ b'.entries = b.entries ++ pairs := by
  induction pairs generalizing b with
  | nil => exact ⟨b, rfl, (List.append_nil _).symm⟩
  | cons e es ih =>
      have hfresh : e.1 ∉ b.names := by
        rw [List.map_append, List.nodup_append] at h
        exact fun hname => h.2.2 e.1 hname e.1 (by simp) rfl
      obtain ⟨b₁, hput, hentries⟩ := put_root hfresh e.2
      obtain ⟨b₂, hrest, hentries'⟩ := ih (b := b₁) (by simpa [hentries] using h)
      refine ⟨b₂, ?_, by simp [hentries', hentries]⟩
      rw [putAll, List.foldlM_cons, hput]
      exact hrest

theorem putAll_empty {pairs : List (String × Handle)} (h : (pairs.map Prod.fst).Nodup) :
    ∃ b, empty.putAll pairs = .ok (root b) ∧ b.entries = pairs :=
  putAll_root h

/-- Scopes that were filled in different orders have one sorted list of bindings:
strictly ascending, with every pair in it. -/
theorem sorted_of_putAll_perm {pairs pairs' : List (String × Handle)}
    (h : (pairs.map Prod.fst).Nodup) (hperm : pairs.Perm pairs') :
    ∃ scope scope', empty.putAll pairs = .ok scope ∧ empty.putAll pairs' = .ok scope' ∧
      scope.bindings.sorted = scope'.bindings.sorted ∧
      scope.bindings.sorted.Pairwise (·.1 < ·.1) ∧ scope.bindings.sorted.Perm pairs := by
  obtain ⟨b, hfill, rfl⟩ := putAll_empty h
  obtain ⟨b', hfill', rfl⟩ := putAll_empty ((hperm.map Prod.fst).nodup_iff.mp h)
  refine ⟨root b, root b', hfill, hfill', ?_, b.pairwise_lt_sorted, b.perm_sorted⟩
  exact Bindings.sorted_of_perm hperm

end Scope

end BuildScript
