import Mathlib.Data.List.Forall2
import BuildScript.Value.Arena

namespace BuildScript

variable {φ : Type}

def Arena.Extends (a' a : Arena φ) : Prop :=
  ∀ (i : Nat) (object : Object φ), a.objects[i]? = some object → a'.objects[i]? = some object

theorem Arena.Extends.refl (a : Arena φ) : a.Extends a := fun _ _ => id

theorem Arena.Extends.trans {a a' a'' : Arena φ} (h : a''.Extends a') (h' : a'.Extends a) :
    a''.Extends a :=
  fun i object hobject => h i object (h' i object hobject)

theorem Arena.Extends.size_le {a a' : Arena φ} (h : a'.Extends a) : a.size ≤ a'.size := by
  by_contra hlt
  have hlast : a'.size < a.objects.size := Nat.lt_of_not_le hlt
  obtain ⟨hout, -⟩ := Array.getElem?_eq_some_iff.mp
    (h a'.size _ (Array.getElem?_eq_getElem hlast))
  exact Nat.lt_irrefl _ hout

theorem Arena.extends_create (a : Arena φ) (object : Object φ) :
    (a.create object).2.Extends a := by
  intro i other hother
  obtain ⟨hi, -⟩ := Array.getElem?_eq_some_iff.mp hother
  change (a.objects.push object)[i]? = some other
  rw [Array.getElem?_push_lt hi, ← hother, Array.getElem?_eq_getElem hi]

theorem Arena.getElem?_create (a : Arena φ) (object : Object φ) :
    (a.create object).2.objects[(a.create object).1.index]? = some object := by
  simp [create, size]

theorem Arena.get_eq {a : Arena φ} {h : Handle} {object : Object φ}
    (hobject : a.objects[h.index]? = some object) : a.get h = object := by
  rw [Arena.get, Array.getD_eq_getD_getElem?, hobject]
  rfl

/-- A handle of one arena and a handle of another one whose objects are built
alike, from objects before them. -/
inductive Alike (a a' : Arena φ) : Handle → Handle → Prop where
  | null {h h' : Handle} (hobject : a.objects[h.index]? = some .null)
      (hobject' : a'.objects[h'.index]? = some .null) : Alike a a' h h'
  | function {h h' : Handle} {body : φ} (hobject : a.objects[h.index]? = some (.function body))
      (hobject' : a'.objects[h'.index]? = some (.function body)) : Alike a a' h h'
  | string {h h' : Handle} {text : String} (hobject : a.objects[h.index]? = some (.string text))
      (hobject' : a'.objects[h'.index]? = some (.string text)) : Alike a a' h h'
  | list {h h' : Handle} {entries entries' : List Handle}
      (hobject : a.objects[h.index]? = some (.list entries))
      (hobject' : a'.objects[h'.index]? = some (.list entries'))
      (hbefore : ∀ e ∈ entries, e.index < h.index)
      (hbefore' : ∀ e ∈ entries', e.index < h'.index)
      (hlength : entries.length = entries'.length)
      (hentries : ∀ {e e'}, (e, e') ∈ entries.zip entries' → Alike a a' e e') : Alike a a' h h'
  | struct {h h' : Handle} {b b' : Bindings} (hobject : a.objects[h.index]? = some (.struct b))
      (hobject' : a'.objects[h'.index]? = some (.struct b'))
      (hbefore : ∀ e ∈ b.entries, e.2.index < h.index)
      (hbefore' : ∀ e ∈ b'.entries, e.2.index < h'.index)
      (hlength : b.entries.length = b'.entries.length)
      (hnames : ∀ {e e'}, (e, e') ∈ b.entries.zip b'.entries → e.1 = e'.1)
      (hentries : ∀ {e e'}, (e, e') ∈ b.entries.zip b'.entries → Alike a a' e.2 e'.2) :
      Alike a a' h h'

abbrev AlikeAll (a a' : Arena φ) : List Handle → List Handle → Prop :=
  List.Forall₂ (Alike a a')

abbrev AlikeEach (a a' : Arena φ) : List (String × Handle) → List (String × Handle) → Prop :=
  List.Forall₂ fun e e' => e.1 = e'.1 ∧ Alike a a' e.2 e'.2

theorem map_eq_of_forall₂ {α β γ : Type} {f : α → γ} {g : β → γ} {l : List α} {l' : List β}
    (h : List.Forall₂ (fun x y => f x = g y) l l') : l.map f = l'.map g := by
  rw [← List.forall₂_eq_eq_eq, List.forall₂_map_left_iff, List.forall₂_map_right_iff]
  exact h

theorem lookup_rel {β : Type} {R : β → β → Prop} {es es' : List (String × β)}
    (h : List.Forall₂ (fun e e' => e.1 = e'.1 ∧ R e.2 e'.2) es es') (name : String) :
    Option.Rel R (es.lookup name) (es'.lookup name) := by
  induction h with
  | nil => exact .none
  | @cons e e' _ _ hfirst _ ih =>
      rw [List.lookup_cons, List.lookup_cons, ← hfirst.1]
      cases name == e.1 with
      | true => exact .some hfirst.2
      | false => exact ih

namespace Bindings

variable {R : String × Handle → String × Handle → Prop}

theorem forall₂_insertByName (hR : ∀ e e', R e e' → e.1 = e'.1) {e e' : String × Handle}
    (he : R e e') {es es' : List (String × Handle)} (hes : List.Forall₂ R es es') :
    List.Forall₂ R (insertByName e es) (insertByName e' es') := by
  induction hes with
  | nil => exact .cons he .nil
  | cons hf hfs ih =>
      rw [insertByName, insertByName, hR _ _ he, hR _ _ hf]
      split
      · exact .cons he (.cons hf hfs)
      · exact .cons hf ih

theorem forall₂_sorted (hR : ∀ e e', R e e' → e.1 = e'.1) {b b' : Bindings}
    (h : List.Forall₂ R b.entries b'.entries) : List.Forall₂ R b.sorted b'.sorted := by
  unfold sorted
  generalize b.entries = es at h
  generalize b'.entries = es' at h
  induction h with
  | nil => exact .nil
  | cons he _ ih => exact forall₂_insertByName hR he ih

theorem rel_of_find? {S : Handle → Handle → Prop} {b b' : Bindings}
    (h : List.Forall₂ (fun e e' => e.1 = e'.1 ∧ S e.2 e'.2) b.entries b'.entries)
    {name : String} {x x' : Handle} (hfind : b.find? name = some x)
    (hfind' : b'.find? name = some x') : S x x' := by
  have hlookup := lookup_rel h name
  unfold find? at hfind hfind'
  rw [hfind, hfind'] at hlookup
  cases hlookup with
  | some hvalue => exact hvalue

theorem forall₂_set {S : Handle → Handle → Prop} {b b' : Bindings}
    (h : List.Forall₂ (fun e e' => e.1 = e'.1 ∧ S e.2 e'.2) b.entries b'.entries)
    {x x' : Handle} (hx : S x x') (name : String) :
    List.Forall₂ (fun e e' => e.1 = e'.1 ∧ S e.2 e'.2) (b.set name x).entries
      (b'.set name x').entries := by
  have hnames : b.names = b'.names := map_eq_of_forall₂ (h.imp fun _ _ he => he.1)
  unfold set
  by_cases hbound : name ∈ b.names
  · rw [dif_pos hbound, dif_pos (hnames ▸ hbound)]
    simp only [rebind, List.forall₂_map_left_iff, List.forall₂_map_right_iff]
    refine h.imp fun e e' he => ?_
    rw [← he.1]
    split
    · exact ⟨rfl, hx⟩
    · exact he
  · rw [dif_neg hbound, dif_neg (hnames ▸ hbound)]
    exact List.rel_append h (.cons ⟨rfl, hx⟩ .nil)

theorem forall₂_ofPairs {S : Handle → Handle → Prop} {pairs pairs' : List (String × Handle)}
    (h : List.Forall₂ (fun e e' => e.1 = e'.1 ∧ S e.2 e'.2) pairs pairs') :
    List.Forall₂ (fun e e' => e.1 = e'.1 ∧ S e.2 e'.2) (ofPairs pairs).entries
      (ofPairs pairs').entries := by
  have hfold : ∀ b b' : Bindings,
      List.Forall₂ (fun e e' => e.1 = e'.1 ∧ S e.2 e'.2) b.entries b'.entries →
      List.Forall₂ (fun e e' => e.1 = e'.1 ∧ S e.2 e'.2)
        (pairs.foldl (fun b pair => b.set pair.1 pair.2) b).entries
        (pairs'.foldl (fun b pair => b.set pair.1 pair.2) b').entries := by
    induction h with
    | nil => exact fun _ _ hb => hb
    | @cons e e' es es' hfirst _ ih =>
        intro b b' hb
        rw [List.foldl_cons, List.foldl_cons, ← hfirst.1]
        exact ih _ _ (forall₂_set hb hfirst.2 e.1)
  exact hfold .empty .empty .nil

end Bindings

namespace Alike

variable {a a' : Arena φ} {h h' : Handle}

theorem mono {c c' : Arena φ} (hc : c.Extends a) (hc' : c'.Extends a') (halike : Alike a a' h h') :
    Alike c c' h h' := by
  induction halike with
  | null hobject hobject' => exact .null (hc _ _ hobject) (hc' _ _ hobject')
  | function hobject hobject' => exact .function (hc _ _ hobject) (hc' _ _ hobject')
  | string hobject hobject' => exact .string (hc _ _ hobject) (hc' _ _ hobject')
  | list hobject hobject' hbefore hbefore' hlength _ ih =>
      exact .list (hc _ _ hobject) (hc' _ _ hobject') hbefore hbefore' hlength ih
  | struct hobject hobject' hbefore hbefore' hlength hnames _ ih =>
      exact .struct (hc _ _ hobject) (hc' _ _ hobject') hbefore hbefore' hlength hnames ih

theorem getElem?_of_extends {c : Arena φ} (hc : c.Extends a) {e : Handle} {object : Object φ}
    (hobject : c.objects[e.index]? = some object) (he : e.index < a.size) :
    a.objects[e.index]? = some object := by
  have hfound := Array.getElem?_eq_getElem (show e.index < a.objects.size from he)
  rw [hc _ _ hfound] at hobject
  rw [hfound, hobject]

/-- Objects before a handle are all that its object is built from. -/
theorem restrict {c : Arena φ} (hc : c.Extends a) (halike : Alike c a' h h')
    (hlt : h.index < a.size) : Alike a a' h h' := by
  induction halike with
  | null hobject hobject' => exact .null (getElem?_of_extends hc hobject hlt) hobject'
  | function hobject hobject' => exact .function (getElem?_of_extends hc hobject hlt) hobject'
  | string hobject hobject' => exact .string (getElem?_of_extends hc hobject hlt) hobject'
  | list hobject hobject' hbefore hbefore' hlength _ ih =>
      refine .list (getElem?_of_extends hc hobject hlt) hobject' hbefore hbefore' hlength ?_
      exact fun hzip => ih hzip (Nat.lt_trans (hbefore _ (List.of_mem_zip hzip).1) hlt)
  | struct hobject hobject' hbefore hbefore' hlength hnames _ ih =>
      refine .struct (getElem?_of_extends hc hobject hlt) hobject' hbefore hbefore' hlength
        hnames ?_
      exact fun hzip => ih hzip (Nat.lt_trans (hbefore _ (List.of_mem_zip hzip).1) hlt)

theorem lt_size (halike : Alike a a' h h') : h.index < a.size ∧ h'.index < a'.size := by
  have hlt : ∀ {c : Arena φ} {e : Handle} {object : Object φ},
      c.objects[e.index]? = some object → e.index < c.size :=
    fun hobject => (Array.getElem?_eq_some_iff.mp hobject).choose
  cases halike with
  | null hobject hobject' => exact ⟨hlt hobject, hlt hobject'⟩
  | function hobject hobject' => exact ⟨hlt hobject, hlt hobject'⟩
  | string hobject hobject' => exact ⟨hlt hobject, hlt hobject'⟩
  | list hobject hobject' => exact ⟨hlt hobject, hlt hobject'⟩
  | struct hobject hobject' => exact ⟨hlt hobject, hlt hobject'⟩

/-- Objects that are alike have the same text, once the depth is enough for
each of them. -/
theorem renderTo_eq (halike : Alike a a' h h') :
    ∀ {n n' : Nat}, h.index < n → h'.index < n' → a.renderTo n h = a'.renderTo n' h' := by
  induction halike with
  | null hobject hobject' =>
      rintro (_ | n) (_ | n') hn hn' <;> try omega
      simp [Arena.renderTo, Arena.get_eq hobject, Arena.get_eq hobject']
  | function hobject hobject' =>
      rintro (_ | n) (_ | n') hn hn' <;> try omega
      simp [Arena.renderTo, Arena.get_eq hobject, Arena.get_eq hobject']
  | string hobject hobject' =>
      rintro (_ | n) (_ | n') hn hn' <;> try omega
      simp [Arena.renderTo, Arena.get_eq hobject, Arena.get_eq hobject']
  | list hobject hobject' hbefore hbefore' hlength _ ih =>
      rintro (_ | n) (_ | n') hn hn' <;> try omega
      have htexts := map_eq_of_forall₂ (f := a.renderTo n) (g := a'.renderTo n')
        (List.forall₂_iff_zip.mpr ⟨hlength, fun {e e'} hzip => by
          have he := hbefore e (List.of_mem_zip hzip).1
          have he' := hbefore' e' (List.of_mem_zip hzip).2
          exact ih hzip (by omega) (by omega)⟩)
      simp only [Arena.renderTo, Arena.get_eq hobject, Arena.get_eq hobject', htexts]
  | struct hobject hobject' hbefore hbefore' hlength hnames _ ih =>
      rintro (_ | n) (_ | n') hn hn' <;> try omega
      have hsorted := Bindings.forall₂_sorted
        (R := fun e e' => e.1 = e'.1 ∧ a.renderTo n e.2 = a'.renderTo n' e'.2)
        (fun _ _ he => he.1)
        (List.forall₂_iff_zip.mpr ⟨hlength, fun {e e'} hzip => by
          have he := hbefore e (List.of_mem_zip hzip).1
          have he' := hbefore' e' (List.of_mem_zip hzip).2
          exact ⟨hnames hzip, ih hzip (by omega) (by omega)⟩⟩)
      have htexts := map_eq_of_forall₂ (f := fun e => e.1 ++ " = " ++ a.renderTo n e.2)
        (g := fun e => e.1 ++ " = " ++ a'.renderTo n' e.2)
        (hsorted.imp fun e e' he => by rw [he.1, he.2])
      simp only [Arena.renderTo, Arena.get_eq hobject, Arena.get_eq hobject', htexts]

theorem render_eq (halike : Alike a a' h h') : a.render h = a'.render h' :=
  halike.renderTo_eq (Nat.lt_succ_self _) (Nat.lt_succ_self _)

theorem asString_eq (halike : Alike a a' h h') : a.asString h = a'.asString h' := by
  unfold Arena.asString
  cases halike with
  | null hobject hobject' => rw [Arena.get_eq hobject, Arena.get_eq hobject']
  | function hobject hobject' => rw [Arena.get_eq hobject, Arena.get_eq hobject']
  | string hobject hobject' => rw [Arena.get_eq hobject, Arena.get_eq hobject']
  | list hobject hobject' => rw [Arena.get_eq hobject, Arena.get_eq hobject']; rfl
  | struct hobject hobject' => rw [Arena.get_eq hobject, Arena.get_eq hobject']; rfl

theorem asFunction_eq (halike : Alike a a' h h') : a.asFunction h = a'.asFunction h' := by
  unfold Arena.asFunction
  cases halike with
  | null hobject hobject' => rw [Arena.get_eq hobject, Arena.get_eq hobject']
  | function hobject hobject' => rw [Arena.get_eq hobject, Arena.get_eq hobject']
  | string hobject hobject' => rw [Arena.get_eq hobject, Arena.get_eq hobject']
  | list hobject hobject' => rw [Arena.get_eq hobject, Arena.get_eq hobject']; rfl
  | struct hobject hobject' => rw [Arena.get_eq hobject, Arena.get_eq hobject']; rfl

theorem asList_alike (halike : Alike a a' h h') {entries entries' : List Handle}
    (hlist : a.asList h = .ok entries) (hlist' : a'.asList h' = .ok entries') :
    AlikeAll a a' entries entries' := by
  unfold Arena.asList at hlist hlist'
  cases halike with
  | list hobject hobject' _ _ hlength hentries =>
      rw [Arena.get_eq hobject] at hlist
      rw [Arena.get_eq hobject'] at hlist'
      cases hlist
      cases hlist'
      exact List.forall₂_iff_zip.mpr ⟨hlength, hentries⟩
  | null hobject | function hobject | string hobject | struct hobject =>
      rw [Arena.get_eq hobject] at hlist
      cases hlist

theorem attr_alike (halike : Alike a a' h h') {name : String} {e e' : Handle}
    (hattr : a.attr h name = .ok e) (hattr' : a'.attr h' name = .ok e') : Alike a a' e e' := by
  unfold Arena.attr at hattr hattr'
  cases halike with
  | @struct _ _ b b' hobject hobject' _ _ hlength hnames hentries =>
      rw [Arena.get_eq hobject] at hattr
      rw [Arena.get_eq hobject'] at hattr'
      have heach : AlikeEach a a' b.entries b'.entries :=
        List.forall₂_iff_zip.mpr ⟨hlength, fun hzip => ⟨hnames hzip, hentries hzip⟩⟩
      simp only [Object.attr] at hattr hattr'
      split at hattr
      · rename_i hfind
        split at hattr'
        · rename_i hfind'
          cases hattr
          cases hattr'
          exact Bindings.rel_of_find? heach hfind hfind'
        · cases hattr'
      · cases hattr
  | null hobject | function hobject | string hobject | list hobject =>
      rw [Arena.get_eq hobject] at hattr
      cases hattr

end Alike

variable {a a' : Arena φ}

theorem AlikeAll.lt_size {hs hs' : List Handle} (halike : AlikeAll a a' hs hs') :
    (∀ e ∈ hs, e.index < a.size) ∧ ∀ e ∈ hs', e.index < a'.size := by
  induction halike with
  | nil => simp
  | cons hfirst _ ih =>
      refine ⟨List.forall_mem_cons.mpr ⟨hfirst.lt_size.1, ih.1⟩, ?_⟩
      exact List.forall_mem_cons.mpr ⟨hfirst.lt_size.2, ih.2⟩

theorem AlikeAll.mono {c c' : Arena φ} (hc : c.Extends a) (hc' : c'.Extends a')
    {hs hs' : List Handle} (halike : AlikeAll a a' hs hs') : AlikeAll c c' hs hs' :=
  List.Forall₂.imp (fun _ _ h => h.mono hc hc') halike

theorem AlikeEach.mono {c c' : Arena φ} (hc : c.Extends a) (hc' : c'.Extends a')
    {es es' : List (String × Handle)} (halike : AlikeEach a a' es es') : AlikeEach c c' es es' :=
  List.Forall₂.imp (fun _ _ h => ⟨h.1, h.2.mono hc hc'⟩) halike

theorem AlikeEach.lt_size {es es' : List (String × Handle)} (halike : AlikeEach a a' es es') :
    (∀ e ∈ es, e.2.index < a.size) ∧ ∀ e ∈ es', e.2.index < a'.size := by
  have hhandles : AlikeAll a a' (es.map Prod.snd) (es'.map Prod.snd) := by
    rw [AlikeAll, List.forall₂_map_left_iff, List.forall₂_map_right_iff]
    exact halike.imp fun _ _ h => h.2
  obtain ⟨hlt, hlt'⟩ := hhandles.lt_size
  exact ⟨fun e he => hlt e.2 (List.mem_map_of_mem he),
    fun e he => hlt' e.2 (List.mem_map_of_mem he)⟩

section Create

theorem alike_create_string (a a' : Arena φ) (text : String) :
    Alike (a.create (.string text)).2 (a'.create (.string text)).2
      (a.create (.string text)).1 (a'.create (.string text)).1 :=
  .string (a.getElem?_create _) (a'.getElem?_create _)

theorem alike_create_list {entries entries' : List Handle}
    (halike : AlikeAll a a' entries entries') :
    Alike (a.create (.list entries)).2 (a'.create (.list entries')).2
      (a.create (.list entries)).1 (a'.create (.list entries')).1 := by
  obtain ⟨hlength, hentries⟩ := List.forall₂_iff_zip.mp
    (halike.mono (a.extends_create (.list entries)) (a'.extends_create (.list entries')))
  exact .list (a.getElem?_create _) (a'.getElem?_create _) halike.lt_size.1 halike.lt_size.2
    hlength hentries

theorem alike_create_struct {b b' : Bindings} (halike : AlikeEach a a' b.entries b'.entries) :
    Alike (a.create (.struct b)).2 (a'.create (.struct b')).2
      (a.create (.struct b)).1 (a'.create (.struct b')).1 := by
  obtain ⟨hlength, hentries⟩ := List.forall₂_iff_zip.mp
    (halike.mono (a.extends_create (.struct b)) (a'.extends_create (.struct b')))
  exact .struct (a.getElem?_create _) (a'.getElem?_create _) halike.lt_size.1 halike.lt_size.2
    hlength (fun hzip => (hentries hzip).1) (fun hzip => (hentries hzip).2)

end Create

end BuildScript
