import BuildScript.Proofs.PrintedBindings
import BuildScript.Proofs.StructuralEquality

/-!
Printed values can be told apart. A text that is printed for an object tells
what was printed and where it ends, whatever comes after it: strings end at the
first quote without a backslash, and of lists and structs every entry tells
where it ends itself. So a text that begins another one is that text, and the
objects they were printed for are equal in structure.
-/

namespace BuildScript

open Scanner

theorem Quoted.encode_append_inj {cs ds r r' : List Char}
    (h : encode cs ++ '"' :: r = encode ds ++ '"' :: r') : cs = ds ∧ r = r' := by
  induction cs generalizing ds with
  | nil =>
      cases ds with
      | nil => exact ⟨rfl, (List.cons.inj h).2⟩
      | cons d ds => grind [encode, isSpecial]
  | cons c cs ih =>
      cases ds with
      | nil => grind [encode, isSpecial]
      | cons d ds =>
          have hnext : c = d ∧ encode cs ++ '"' :: r = encode ds ++ '"' :: r' := by
            grind [encode, isSpecial]
          obtain ⟨rfl, hrest⟩ := ih hnext.2
          exact ⟨by rw [hnext.1], hrest⟩

theorem append_stop_inj {c : Char} {cs ds r r' : List Char} (hcs : c ∉ cs) (hds : c ∉ ds)
    (h : cs ++ c :: r = ds ++ c :: r') : cs = ds ∧ r = r' := by
  induction cs generalizing ds with
  | nil =>
      cases ds with
      | nil => exact ⟨rfl, (List.cons.inj h).2⟩
      | cons d ds => exact absurd (List.mem_cons.mpr (.inl (List.cons.inj h).1)) hds
  | cons d cs ih =>
      cases ds with
      | nil => exact absurd (List.mem_cons.mpr (.inl (List.cons.inj h).1.symm)) hcs
      | cons e ds =>
          obtain ⟨rfl, hnext⟩ := List.cons.inj h
          obtain ⟨rfl, hrest⟩ := ih (fun hc => hcs (.tail _ hc)) (fun hd => hds (.tail _ hd)) hnext
          exact ⟨rfl, hrest⟩

/-- Texts with a space between them, up to a closing character: the first one,
and what stands behind it. -/
def behindFirst (close : Char) (texts : List (List Char)) (r : List Char) : List Char :=
  match texts with
  | [] => close :: r
  | texts => ' ' :: ([' '].intercalate texts ++ close :: r)

theorem intercalate_cons_append (close : Char) (text : List Char) (texts : List (List Char))
    (r : List Char) :
    [' '].intercalate (text :: texts) ++ close :: r = text ++ behindFirst close texts r := by
  cases texts with
  | nil => simp [behindFirst]
  | cons next texts => simp [behindFirst, List.intercalate_cons_cons]

/-- If each of the texts tells where it ends, so do all, with a space between
them and up to a closing character that begins none of them. -/
theorem entries_append_inj {α β : Type} {S : α → β → Prop} {f : α → List Char}
    {g : β → List Char} {close : Char} (hclose : close ≠ ' ') {xs : List α} {ys : List β}
    (hxs : ∀ x ∈ xs, ∀ r r', f x ++ r ≠ close :: r')
    (hys : ∀ y ∈ ys, ∀ r r', g y ++ r ≠ close :: r')
    (heach : ∀ x ∈ xs, ∀ y ∈ ys, ∀ r r', f x ++ r = g y ++ r' → S x y ∧ r = r')
    {r r' : List Char}
    (h : [' '].intercalate (xs.map f) ++ close :: r = [' '].intercalate (ys.map g) ++ close :: r') :
    List.Forall₂ S xs ys ∧ r = r' := by
  induction xs generalizing ys with
  | nil =>
      cases ys with
      | nil => exact ⟨.nil, (List.cons.inj h).2⟩
      | cons y ys =>
          rw [List.map_cons, intercalate_cons_append] at h
          exact absurd h.symm (hys y List.mem_cons_self _ _)
  | cons x xs ih =>
      cases ys with
      | nil =>
          rw [List.map_cons, intercalate_cons_append] at h
          exact absurd h (hxs x List.mem_cons_self _ _)
      | cons y ys =>
          rw [List.map_cons, List.map_cons, intercalate_cons_append, intercalate_cons_append] at h
          obtain ⟨hfirst, hbehind⟩ := heach x List.mem_cons_self y List.mem_cons_self _ _ h
          cases xs with
          | nil =>
              cases ys with
              | nil => exact ⟨.cons hfirst .nil, (List.cons.inj hbehind).2⟩
              | cons next ys => exact absurd (List.cons.inj hbehind).1 hclose
          | cons next xs =>
              cases ys with
              | nil => exact absurd (List.cons.inj hbehind).1.symm hclose
              | cons next' ys =>
                  obtain ⟨hothers, hrest⟩ := ih (fun x hx => hxs x (.tail _ hx))
                    (fun y hy => hys y (.tail _ hy))
                    (fun x hx y hy => heach x (.tail _ hx) y (.tail _ hy))
                    (List.cons.inj hbehind).2
                  exact ⟨.cons hfirst hothers, hrest⟩

/-- The names structs made by a program have: a letter, and then letters, digits
and underscores. -/
def IsIdentifier (name : String) : Prop :=
  ∃ c cs, name.toList = c :: cs ∧ isLetter c = true ∧ ∀ d ∈ cs, isWordChar d = true

namespace IsIdentifier

variable {name : String}

theorem isWordChar (h : IsIdentifier name) : ∀ d ∈ name.toList, isWordChar d = true := by
  obtain ⟨c, cs, hname, hc, hcs⟩ := h
  rw [hname]
  exact List.forall_mem_cons.mpr ⟨by simp [Scanner.isWordChar, hc], hcs⟩

theorem space_not_mem (h : IsIdentifier name) : ' ' ∉ name.toList := fun hspace =>
  absurd (h.isWordChar ' ' hspace) (by decide)

end IsIdentifier

namespace Arena

variable {φ : Type} {a a' : Arena φ} {h h' : Handle} {depth depth' : Nat}

/-- All structs that can be come by from a handle have identifiers for names. -/
def HasIdentifiers (a : Arena φ) (h : Handle) : Prop :=
  ∀ e attributes, a.Reaches h e → a.get e = .struct attributes →
    ∀ name ∈ attributes.names, IsIdentifier name

structure IsPrintable (a : Arena φ) (depth : Nat) (h : Handle) : Prop where
  back : a.RefersBack
  inside : h.index < a.size
  deep : h.index < depth
  identifiers : a.HasIdentifiers h

theorem IsPrintable.below (hprintable : a.IsPrintable (depth + 1) h) {e : Handle}
    (he : e ∈ (a.get h).handles) : a.IsPrintable depth e where
  back := hprintable.back
  inside := Nat.lt_trans (hprintable.back.index_lt he) hprintable.inside
  deep := Nat.lt_of_lt_of_le (hprintable.back.index_lt he) (Nat.le_of_lt_succ hprintable.deep)
  identifiers := fun e' attributes hreaches =>
    hprintable.identifiers e' attributes (Reaches.trans (.step .refl he) hreaches)

def opening : ObjectType → Char
  | .null => 'n'
  | .struct => '\x7b'
  | .function => '<'
  | .string => '"'
  | .list => '['

theorem opening_inj {t t' : ObjectType} (h : opening t = opening t') : t = t' := by
  cases t <;> cases t' <;> first | rfl | exact absurd h (by decide)

theorem renderTo_string {text : String} (hget : a.get h = .string text) :
    (a.renderTo (depth + 1) h).toList = '"' :: (Quoted.encode text.toList ++ ['"']) := by
  rw [renderTo, hget]
  simp [Quoted.quote]

theorem renderTo_list {entries : List Handle} (hget : a.get h = .list entries) :
    (a.renderTo (depth + 1) h).toList =
      '[' :: ([' '].intercalate (entries.map fun e => (a.renderTo depth e).toList) ++ [']']) := by
  rw [renderTo, hget]
  simp [Function.comp_def]

def attributeText (a : Arena φ) (depth : Nat) (e : String × Handle) : List Char :=
  e.1.toList ++ ' ' :: '=' :: ' ' :: (a.renderTo depth e.2).toList

theorem renderTo_struct {attributes : Bindings} (hget : a.get h = .struct attributes) :
    (a.renderTo (depth + 1) h).toList =
      '\x7b' :: ([' '].intercalate (attributes.sorted.map (a.attributeText depth)) ++
        ['\x7d']) := by
  rw [renderTo, hget]
  simp [Function.comp_def]
  rfl

theorem renderTo_eq_opening (depth : Nat) (h : Handle) :
    ∃ cs, (a.renderTo (depth + 1) h).toList = opening (a.get h).type :: cs := by
  cases hget : a.get h with
  | null =>
      rw [renderTo, hget]
      exact ⟨"ull".toList, (by decide : "null".toList = 'n' :: "ull".toList)⟩
  | function body =>
      rw [renderTo, hget]
      exact ⟨"function>".toList, (by decide : "<function>".toList = '<' :: "function>".toList)⟩
  | string text => exact ⟨_, renderTo_string hget⟩
  | list entries => exact ⟨_, renderTo_list hget⟩
  | struct attributes => exact ⟨_, renderTo_struct hget⟩

/-- Whoever prints objects of two kinds prints texts that differ at once. -/
theorem type_eq_of_renderTo_append {r r' : List Char}
    (htext : (a.renderTo (depth + 1) h).toList ++ r = (a'.renderTo (depth' + 1) h').toList ++ r') :
    (a.get h).type = (a'.get h').type := by
  obtain ⟨cs, hcs⟩ := a.renderTo_eq_opening depth h
  obtain ⟨cs', hcs'⟩ := a'.renderTo_eq_opening depth' h'
  rw [hcs, hcs'] at htext
  exact opening_inj (List.cons.inj htext).1

theorem IsPrintable.append_ne (hprintable : a.IsPrintable depth h) (r r' : List Char) :
    (a.renderTo depth h).toList ++ r ≠ ']' :: r' := by
  obtain ⟨depth, rfl⟩ := Nat.exists_eq_add_one_of_ne_zero (Nat.ne_zero_of_lt hprintable.deep)
  obtain ⟨cs, hcs⟩ := a.renderTo_eq_opening depth h
  rw [hcs]
  intro heq
  have hopening := (List.cons.inj heq).1
  generalize (a.get h).type = t at hopening
  cases t <;> exact absurd hopening (by decide)

theorem attributeText_append_ne {e : String × Handle} (hname : IsIdentifier e.1)
    (r r' : List Char) : a.attributeText depth e ++ r ≠ '\x7d' :: r' := by
  obtain ⟨c, cs, hname, hc, -⟩ := hname
  rw [attributeText, hname]
  intro heq
  obtain rfl : c = '\x7d' := (List.cons.inj heq).1
  exact absurd hc (by decide)

theorem attributeText_append_inj {S : Handle → Handle → Prop} {e e' : String × Handle}
    (hname : IsIdentifier e.1) (hname' : IsIdentifier e'.1)
    (hvalue : ∀ r r', (a.renderTo depth e.2).toList ++ r = (a'.renderTo depth' e'.2).toList ++ r' →
      S e.2 e'.2 ∧ r = r') {r r' : List Char}
    (htext : a.attributeText depth e ++ r = a'.attributeText depth' e' ++ r') :
    (e.1 = e'.1 ∧ S e.2 e'.2) ∧ r = r' := by
  simp only [attributeText, List.append_assoc, List.cons_append] at htext
  obtain ⟨hnames, hrest⟩ := append_stop_inj hname.space_not_mem hname'.space_not_mem htext
  obtain ⟨hsame, hrest⟩ := hvalue r r' (List.cons.inj (List.cons.inj hrest).2).2
  exact ⟨⟨String.toList_inj.mp hnames, hsame⟩, hrest⟩

end Arena

theorem Bindings.lookup_sorted (b : Bindings) (name : String) :
    b.sorted.lookup name = b.find? name := by
  have hdistinct : (b.sorted.map Prod.fst).Nodup :=
    (b.perm_sorted.map Prod.fst).nodup_iff.mpr b.distinct
  let sortedBindings : Bindings := ⟨b.sorted, hdistinct⟩
  show sortedBindings.find? name = b.find? name
  exact find?_of_perm b.perm_sorted name

theorem SameObject.of_sorted {φ : Type} {R : φ → φ → Prop} {S : Handle → Handle → Prop}
    {b b' : Bindings}
    (h : List.Forall₂ (fun e e' => e.1 = e'.1 ∧ S e.2 e'.2) b.sorted b'.sorted) :
    SameObject R S (.struct b) (.struct b') := by
  have hnames : b.sorted.map Prod.fst = b'.sorted.map Prod.fst :=
    map_eq_of_forall₂ (h.imp fun _ _ he => he.1)
  refine .struct (fun name => ?_) fun {name e e'} hfind hfind' => ?_
  · unfold Bindings.names
    rw [← (b.perm_sorted.map Prod.fst).mem_iff, hnames, (b'.perm_sorted.map Prod.fst).mem_iff]
  · have hlookup := lookup_rel h name
    rw [Bindings.lookup_sorted, Bindings.lookup_sorted, hfind, hfind'] at hlookup
    cases hlookup with
    | some hvalue => exact hvalue

/-- The text of a value tells which value it is and where it ends. -/
theorem renderTo_append_inj {φ : Type} {a a' : Arena φ} {h h' : Handle} {depth depth' : Nat}
    (hprintable : a.IsPrintable depth h) (hprintable' : a'.IsPrintable depth' h')
    {r r' : List Char}
    (htext : (a.renderTo depth h).toList ++ r = (a'.renderTo depth' h').toList ++ r') :
    SameStructure (fun _ _ => True) a a' h h' ∧ r = r' := by
  induction depth generalizing h h' depth' r r' with
  | zero => exact absurd hprintable.deep (Nat.not_lt_zero _)
  | succ depth ih =>
      obtain ⟨depth', rfl⟩ := Nat.exists_eq_add_one_of_ne_zero (Nat.ne_zero_of_lt hprintable'.deep)
      have htype := Arena.type_eq_of_renderTo_append htext
      have hparts : ∀ e ∈ (a.get h).handles, ∀ e' ∈ (a'.get h').handles, ∀ r r',
          (a.renderTo depth e).toList ++ r = (a'.renderTo depth' e').toList ++ r' →
          SameStructure (fun _ _ => True) a a' e e' ∧ r = r' := fun e he e' he' r r' =>
        ih (hprintable.below he) (hprintable'.below he')
      suffices hobjects : SameObject (fun _ _ => True) (SameStructure (fun _ _ => True) a a')
          (a.get h) (a'.get h') ∧ r = r' from
        ⟨.of_objects hprintable.inside hprintable'.inside hobjects.1, hobjects.2⟩
      cases hget : a.get h with
      | null =>
          cases hget' : a'.get h' with
          | null =>
              rw [Arena.renderTo, Arena.renderTo, hget, hget'] at htext
              exact ⟨.null, List.append_cancel_left htext⟩
          | _ => rw [hget, hget'] at htype; cases htype
      | function body =>
          cases hget' : a'.get h' with
          | function body' =>
              rw [Arena.renderTo, Arena.renderTo, hget, hget'] at htext
              exact ⟨.function trivial, List.append_cancel_left htext⟩
          | _ => rw [hget, hget'] at htype; cases htype
      | string text =>
          cases hget' : a'.get h' with
          | string text' =>
              rw [Arena.renderTo_string hget, Arena.renderTo_string hget'] at htext
              obtain ⟨hchars, hrest⟩ := Quoted.encode_append_inj (by simpa using htext)
              obtain rfl := String.toList_inj.mp hchars
              exact ⟨.string text, hrest⟩
          | _ => rw [hget, hget'] at htype; cases htype
      | list entries =>
          cases hget' : a'.get h' with
          | list entries' =>
              rw [hget, hget'] at hparts
              rw [Arena.renderTo_list hget, Arena.renderTo_list hget'] at htext
              have hentries : ∀ e ∈ entries, a.IsPrintable depth e := fun e he =>
                hprintable.below (by rwa [hget])
              have hentries' : ∀ e ∈ entries', a'.IsPrintable depth' e := fun e he =>
                hprintable'.below (by rwa [hget'])
              obtain ⟨hsame, hrest⟩ := entries_append_inj (by decide)
                (fun e he => (hentries e he).append_ne) (fun e he => (hentries' e he).append_ne)
                hparts (by simpa using htext)
              exact ⟨.list hsame, hrest⟩
          | _ => rw [hget, hget'] at htype; cases htype
      | struct attributes =>
          cases hget' : a'.get h' with
          | struct attributes' =>
              rw [hget, hget'] at hparts
              rw [Arena.renderTo_struct hget, Arena.renderTo_struct hget'] at htext
              have hnames : ∀ e ∈ attributes.sorted, IsIdentifier e.1 := fun e he =>
                hprintable.identifiers h attributes .refl hget e.1
                  (List.mem_map_of_mem (attributes.perm_sorted.mem_iff.mp he))
              have hnames' : ∀ e ∈ attributes'.sorted, IsIdentifier e.1 := fun e he =>
                hprintable'.identifiers h' attributes' .refl hget' e.1
                  (List.mem_map_of_mem (attributes'.perm_sorted.mem_iff.mp he))
              obtain ⟨hsame, hrest⟩ := entries_append_inj (by decide)
                (fun e he => Arena.attributeText_append_ne (hnames e he))
                (fun e he => Arena.attributeText_append_ne (hnames' e he))
                (fun e he e' he' r r' => Arena.attributeText_append_inj (hnames e he)
                  (hnames' e' he') (hparts e.2
                    (List.mem_map_of_mem (attributes.perm_sorted.mem_iff.mp he)) e'.2
                    (List.mem_map_of_mem (attributes'.perm_sorted.mem_iff.mp he'))))
                (by simpa using htext)
              exact ⟨.of_sorted hsame, hrest⟩
          | _ => rw [hget, hget'] at htype; cases htype

/-- In arenas whose objects refer back, of objects whose structs have identifiers
for names: if the text of one begins the text of the other, the two are equal in
structure, where any two functions are equal, and the texts are the same. -/
theorem render_faithful {φ : Type} {a a' : Arena φ} {h h' : Handle} (hback : a.RefersBack)
    (hback' : a'.RefersBack) (hlt : h.index < a.size) (hlt' : h'.index < a'.size)
    (hnames : a.HasIdentifiers h) (hnames' : a'.HasIdentifiers h')
    (hbegins : (a.render h).toList <+: (a'.render h').toList) :
    SameStructure (fun _ _ => True) a a' h h' ∧ a.render h = a'.render h' := by
  obtain ⟨rest, hrest⟩ := hbegins
  have htext : (a.renderTo (h.index + 1) h).toList ++ rest =
      (a'.renderTo (h'.index + 1) h').toList ++ [] := by
    rw [List.append_nil]
    exact hrest
  obtain ⟨hsame, rfl⟩ := renderTo_append_inj ⟨hback, hlt, Nat.lt_succ_self _, hnames⟩
    ⟨hback', hlt', Nat.lt_succ_self _, hnames'⟩ htext
  exact ⟨hsame, String.toList_inj.mp (by simpa using hrest)⟩

/-- A struct with a text of quotes and backslashes in it, made in two arenas in
two orders. -/
theorem render_faithful_nested :
    let text := "\"a\" = \\"
    let a : Arena Builtin := ⟨#[.null, .string text, .function .join, .list [⟨1⟩, ⟨0⟩],
      .struct ⟨[("b", ⟨3⟩), ("a_1", ⟨2⟩)], by decide⟩]⟩
    let a' : Arena Builtin := ⟨#[.null, .function .concat, .string text, .list [⟨2⟩, ⟨0⟩],
      .struct ⟨[("a_1", ⟨1⟩), ("b", ⟨3⟩)], by decide⟩]⟩
    a.RefersBack ∧ a'.RefersBack ∧ a.HasIdentifiers ⟨4⟩ ∧ a'.HasIdentifiers ⟨4⟩ ∧
      a.render ⟨4⟩ = "\x7ba_1 = <function> b = [\"\\\"a\\\" = \\\\\" null]\x7d" ∧
      SameStructure (fun _ _ => True) a a' ⟨4⟩ ⟨4⟩ ∧ a.render ⟨4⟩ = a'.render ⟨4⟩ := by
  intro text a a'
  have hback : a.RefersBack := by
    rintro (_ | _ | _ | _ | _ | i) object hobject <;> simp [a] at hobject <;> subst hobject <;>
      simp [Object.handles, Bindings.handles]
  have hback' : a'.RefersBack := by
    rintro (_ | _ | _ | _ | _ | i) object hobject <;> simp [a'] at hobject <;> subst hobject <;>
      simp [Object.handles, Bindings.handles]
  have hidentifier : ∀ name ∈ ["a_1", "b"], IsIdentifier name := by
    simp only [List.forall_mem_cons]
    refine ⟨⟨'a', ['_', '1'], by decide, by decide, ?_⟩, ⟨'b', [], by decide, by decide, ?_⟩, ?_⟩
    · exact List.forall_mem_cons.mpr ⟨by decide, List.forall_mem_singleton.mpr (by decide)⟩
    · exact List.forall_mem_nil _
    · exact List.forall_mem_nil _
  have hnames : a.HasIdentifiers ⟨4⟩ := by
    rintro ⟨_ | _ | _ | _ | _ | i⟩ attributes - hget name hname <;> cases hget
    exact hidentifier name (by simpa [Bindings.names, or_comm] using hname)
  have hnames' : a'.HasIdentifiers ⟨4⟩ := by
    rintro ⟨_ | _ | _ | _ | _ | i⟩ attributes - hget name hname <;> cases hget
    exact hidentifier name hname
  have hbegins : (a.render ⟨4⟩).toList <+: (a'.render ⟨4⟩).toList := by decide +kernel
  obtain ⟨hsame, hequal⟩ :=
    render_faithful hback hback' (by decide) (by decide) hnames hnames' hbegins
  exact ⟨hback, hback', hnames, hnames', by decide +kernel, hsame, hequal⟩

end BuildScript
