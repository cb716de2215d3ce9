import BuildScript.Proofs.Likeness
import BuildScript.Proofs.ClientEvaluation

namespace BuildScript

variable {φ : Type}

/-- A handle of one arena and a handle of another one whose objects are equal in
structure, where functions are equal if `R` says so. -/
inductive SameStructure (R : φ → φ → Prop) (a a' : Arena φ) : Handle → Handle → Prop where
  | null {h h' : Handle} (hobject : a.objects[h.index]? = some .null)
      (hobject' : a'.objects[h'.index]? = some .null) : SameStructure R a a' h h'
  | function {h h' : Handle} {body body' : φ}
      (hobject : a.objects[h.index]? = some (.function body))
      (hobject' : a'.objects[h'.index]? = some (.function body')) (hbody : R body body') :
      SameStructure R a a' h h'
  | string {h h' : Handle} {text : String} (hobject : a.objects[h.index]? = some (.string text))
      (hobject' : a'.objects[h'.index]? = some (.string text)) : SameStructure R a a' h h'
  | list {h h' : Handle} {entries entries' : List Handle}
      (hobject : a.objects[h.index]? = some (.list entries))
      (hobject' : a'.objects[h'.index]? = some (.list entries'))
      (hlength : entries.length = entries'.length)
      (hentries : ∀ {e e'}, (e, e') ∈ entries.zip entries' → SameStructure R a a' e e') :
      SameStructure R a a' h h'
  | struct {h h' : Handle} {b b' : Bindings} (hobject : a.objects[h.index]? = some (.struct b))
      (hobject' : a'.objects[h'.index]? = some (.struct b'))
      (hnames : ∀ name, name ∈ b.names ↔ name ∈ b'.names)
      (hvalues : ∀ {name e e'}, b.find? name = some e → b'.find? name = some e' →
        SameStructure R a a' e e') : SameStructure R a a' h h'

inductive SameAnswer {ε α : Type} (Q : α → α → Prop) : Except ε α → Except ε α → Prop where
  | ok {x x' : α} (h : Q x x') : SameAnswer Q (.ok x) (.ok x')
  | error (e : ε) : SameAnswer Q (.error e) (.error e)

inductive SameObject (R : φ → φ → Prop) (S : Handle → Handle → Prop) :
    Object φ → Object φ → Prop where
  | null : SameObject R S .null .null
  | function {body body' : φ} (hbody : R body body') :
      SameObject R S (.function body) (.function body')
  | string (text : String) : SameObject R S (.string text) (.string text)
  | list {entries entries' : List Handle} (hentries : List.Forall₂ S entries entries') :
      SameObject R S (.list entries) (.list entries')
  | struct {b b' : Bindings} (hnames : ∀ name, name ∈ b.names ↔ name ∈ b'.names)
      (hvalues : ∀ {name e e'}, b.find? name = some e → b'.find? name = some e' → S e e') :
      SameObject R S (.struct b) (.struct b')

theorem SameAnswer.inv {ε α : Type} {Q : α → α → Prop} {r r' : Except ε α}
    (h : SameAnswer Q r r') :
    (∃ x x', r = .ok x ∧ r' = .ok x' ∧ Q x x') ∨ ∃ e, r = .error e ∧ r' = .error e := by
  cases h with
  | ok h => exact .inl ⟨_, _, rfl, rfl, h⟩
  | error e => exact .inr ⟨e, rfl, rfl⟩

namespace SameObject

variable {R : φ → φ → Prop} {S : Handle → Handle → Prop} {o o' : Object φ}

theorem asString_eq (h : SameObject R S o o') : o.asString = o'.asString := by
  cases h <;> rfl

theorem asFunction (h : SameObject R S o o') : SameAnswer R o.asFunction o'.asFunction := by
  cases h with
  | function hbody => exact .ok hbody
  | _ => exact .error _

theorem asList (h : SameObject R S o o') :
    SameAnswer (List.Forall₂ S) o.asList o'.asList := by
  cases h with
  | list hentries => exact .ok hentries
  | _ => exact .error _

theorem attr (h : SameObject R S o o') (name : String) :
    SameAnswer S (o.attr name) (o'.attr name) := by
  cases h with
  | @struct b b' hnames hvalues =>
      have hnone : b.find? name = none ↔ b'.find? name = none := by
        rw [Bindings.find?_eq_none_iff, Bindings.find?_eq_none_iff, hnames name]
      unfold Object.attr
      dsimp only
      cases hfind : b.find? name with
      | none =>
          rw [hnone.mp hfind]
          exact .error _
      | some found =>
          cases hfind' : b'.find? name with
          | none =>
              rw [hnone.mpr hfind'] at hfind
              cases hfind
          | some found' => exact .ok (hvalues hfind hfind')
  | _ => exact .error _

end SameObject

namespace SameStructure

variable {R : φ → φ → Prop} {a a' : Arena φ} {h h' : Handle}

theorem mono {c c' : Arena φ} (hc : c.Extends a) (hc' : c'.Extends a')
    (hsame : SameStructure R a a' h h') : SameStructure R c c' h h' := by
  induction hsame with
  | null hobject hobject' => exact .null (hc _ _ hobject) (hc' _ _ hobject')
  | function hobject hobject' hbody => exact .function (hc _ _ hobject) (hc' _ _ hobject') hbody
  | string hobject hobject' => exact .string (hc _ _ hobject) (hc' _ _ hobject')
  | list hobject hobject' hlength _ ih => exact .list (hc _ _ hobject) (hc' _ _ hobject') hlength ih
  | struct hobject hobject' hnames _ ih =>
      exact .struct (hc _ _ hobject) (hc' _ _ hobject') hnames ih

theorem objects (hsame : SameStructure R a a' h h') :
    SameObject R (SameStructure R a a') (a.get h) (a'.get h') := by
  cases hsame with
  | null hobject hobject' =>
      rw [Arena.get_eq hobject, Arena.get_eq hobject']
      exact .null
  | function hobject hobject' hbody =>
      rw [Arena.get_eq hobject, Arena.get_eq hobject']
      exact .function hbody
  | string hobject hobject' =>
      rw [Arena.get_eq hobject, Arena.get_eq hobject']
      exact .string _
  | list hobject hobject' hlength hentries =>
      rw [Arena.get_eq hobject, Arena.get_eq hobject']
      exact .list (List.forall₂_iff_zip.mpr ⟨hlength, hentries⟩)
  | struct hobject hobject' hnames hvalues =>
      rw [Arena.get_eq hobject, Arena.get_eq hobject']
      exact .struct hnames hvalues

theorem asString_eq (hsame : SameStructure R a a' h h') : a.asString h = a'.asString h' :=
  hsame.objects.asString_eq

theorem asFunction (hsame : SameStructure R a a' h h') :
    SameAnswer R (a.asFunction h) (a'.asFunction h') :=
  hsame.objects.asFunction

theorem asList (hsame : SameStructure R a a' h h') :
    SameAnswer (List.Forall₂ (SameStructure R a a')) (a.asList h) (a'.asList h') :=
  hsame.objects.asList

theorem attr (hsame : SameStructure R a a' h h') (name : String) :
    SameAnswer (SameStructure R a a') (a.attr h name) (a'.attr h' name) :=
  hsame.objects.attr name

theorem of_objects (hlt : h.index < a.size) (hlt' : h'.index < a'.size)
    (hsame : SameObject R (SameStructure R a a') (a.get h) (a'.get h')) :
    SameStructure R a a' h h' := by
  have hobject := Arena.getElem?_of_lt hlt
  have hobject' := Arena.getElem?_of_lt hlt'
  generalize a.get h = o at hsame hobject
  generalize a'.get h' = o' at hsame hobject'
  cases hsame with
  | null => exact .null hobject hobject'
  | function hbody => exact .function hobject hobject' hbody
  | string text => exact .string hobject hobject'
  | list hentries =>
      obtain ⟨hlength, hentries⟩ := List.forall₂_iff_zip.mp hentries
      exact .list hobject hobject' hlength hentries
  | struct hnames hvalues => exact .struct hobject hobject' hnames hvalues

theorem create {o o' : Object φ} (hsame : SameObject R (SameStructure R a a') o o') :
    SameStructure R (a.create o).2 (a'.create o').2 (a.create o).1 (a'.create o').1 := by
  have hlater : ∀ e e', SameStructure R a a' e e' →
      SameStructure R (a.create o).2 (a'.create o').2 e e' :=
    fun _ _ h => h.mono (a.extends_create o) (a'.extends_create o')
  refine of_objects ?_ ?_ ?_
  · rw [Arena.size_create]
    exact Nat.lt_succ_self _
  · rw [Arena.size_create]
    exact Nat.lt_succ_self _
  · rw [Arena.get_create_self, Arena.get_create_self]
    cases hsame with
    | null => exact .null
    | function hbody => exact .function hbody
    | string text => exact .string text
    | list hentries => exact .list (hentries.imp hlater)
    | struct hnames hvalues =>
        exact .struct hnames fun hfind hfind' => hlater _ _ (hvalues hfind hfind')

/-- An object that was made on its own, put behind the objects of two arenas. -/
theorem onto (R : φ → φ → Prop) {made : Arena Empty} (hmade : made.Owns)
    (hback : made.RefersBack) (base base' : Arena φ) {h : Handle} (hown : h.IsOwn made.size) :
    SameStructure R (base.onto made) (base'.onto made) (h.onto base.size) (h.onto base'.size) := by
  induction hindex : h.index using Nat.strongRecOn generalizing h with
  | _ i ih =>
      have hlt : ∀ a : Arena φ, (h.onto a.size).index < (a.onto made).size := by
        intro a
        have hlast : h.index < made.size := hown.2
        have hfirst : 0 < h.index := hown.1
        rw [Arena.size_onto]
        show h.index - 1 + a.size < made.size - 1 + a.size
        omega
      have hparts : ∀ e ∈ (made.get h).handles,
          SameStructure R (base.onto made) (base'.onto made) (e.onto base.size)
            (e.onto base'.size) := fun e he =>
        ih e.index (hindex ▸ hback.index_lt he) ((hmade.objects h hown).handles e he) rfl
      refine of_objects (hlt base) (hlt base') ?_
      rw [Arena.get_onto hown, Arena.get_onto hown]
      cases hobject : made.get h with
      | null => exact .null
      | function body => exact body.elim
      | string text => exact .string text
      | list entries =>
          rw [hobject] at hparts
          refine .list ?_
          rw [List.forall₂_map_left_iff, List.forall₂_map_right_iff, List.forall₂_same]
          exact hparts
      | struct attributes =>
          rw [hobject] at hparts
          refine .struct (fun name => ?_) fun {name e e'} hfind hfind' => ?_
          · rw [Bindings.names_onto, Bindings.names_onto]
          · rw [Bindings.find?_onto] at hfind hfind'
            obtain ⟨found, hfound, rfl⟩ := Option.map_eq_some_iff.mp hfind
            rw [hfound] at hfind'
            cases hfind'
            exact hparts found (Bindings.mem_handles_of_find? hfound)

end SameStructure

end BuildScript
