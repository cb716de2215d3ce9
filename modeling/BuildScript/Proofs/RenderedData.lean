import BuildScript.Proofs.ArenaClients
import BuildScript.Proofs.Commitment
import BuildScript.Proofs.ImportFree
import BuildScript.Proofs.Spelling

namespace BuildScript

open Eval BuildScript.Derivation

variable {φ : Type} {a : Arena φ} {h : Handle} {value : Derivation.Value}

/-- Whatever can be come by from a handle is a string or a list. -/
def Arena.HoldsData (a : Arena φ) (h : Handle) : Prop :=
  ∀ e, a.Reaches h e → (∃ text, a.get e = .string text) ∨ ∃ entries, a.get e = .list entries

/-- A derivation that spells out the object of a handle: its text if it is a
string, and its entries if it is a list of objects before it. -/
inductive Depicts (a : Arena φ) : Handle → Derivation.Value → Prop where
  | string {h : Handle} {text : String} (hobject : a.objects[h.index]? = some (.string text)) :
      Depicts a h (.string text)
  | list {h : Handle} {entries : List Handle} {values : List Derivation.Value}
      (hobject : a.objects[h.index]? = some (.list entries))
      (hbefore : ∀ e ∈ entries, e.index < h.index) (hlength : entries.length = values.length)
      (hentries : ∀ {e value}, (e, value) ∈ entries.zip values → Depicts a e value) :
      Depicts a h (.list values)

theorem Arena.getElem?_of_get_ne {object : Object φ} (hget : a.get h = object)
    (hnull : object ≠ .null) : a.objects[h.index]? = some object := by
  by_cases hlt : h.index < a.size
  · rw [getElem?_of_lt hlt, hget]
  · rw [get_of_size_le (Nat.le_of_not_lt hlt)] at hget
    exact absurd hget.symm hnull

theorem exists_forall₂_of_forall {α β : Type} {R : α → β → Prop} {l : List α}
    (h : ∀ x ∈ l, ∃ y, R x y) : ∃ l', List.Forall₂ R l l' := by
  induction l with
  | nil => exact ⟨[], .nil⟩
  | cons x l ih =>
      obtain ⟨⟨y, hy⟩, hl⟩ := List.forall_mem_cons.mp h
      obtain ⟨l', hl'⟩ := ih hl
      exact ⟨y :: l', .cons hy hl'⟩

/-- Where objects refer back, all data can be spelled out. -/
theorem exists_depicts (hback : a.RefersBack) (hdata : a.HoldsData h) :
    ∃ value, Depicts a h value := by
  induction hindex : h.index using Nat.strongRecOn generalizing h with
  | ind index ih =>
    rcases hdata h .refl with ⟨text, hget⟩ | ⟨entries, hget⟩
    · exact ⟨_, .string (Arena.getElem?_of_get_ne hget (by simp))⟩
    · have hbefore : ∀ e ∈ entries, e.index < h.index := fun e he =>
        hback.index_lt (by rw [hget]; exact he)
      have hvalue : ∀ e ∈ entries, ∃ value, Depicts a e value := by
        intro e he
        refine ih e.index (hindex ▸ hbefore e he) (fun e' he' => hdata e' ?_) rfl
        exact Arena.Reaches.trans (.step .refl (by rw [hget]; exact he)) he'
      obtain ⟨values, hvalues⟩ := exists_forall₂_of_forall hvalue
      obtain ⟨hlength, hentries⟩ := List.forall₂_iff_zip.mp hvalues
      exact ⟨_, .list (Arena.getElem?_of_get_ne hget (by simp)) hbefore hlength hentries⟩

section Text

/-- A text that is read as a value, before whatever stands behind it. -/
def IsTextOf (text : String) (value : Derivation.Value) : Prop :=
  ∀ rest kinds, Lexes rest kinds → Lexes (text.toList ++ rest) (value.kinds ++ kinds)

/-- A value that leaves the grammar no choice and asks for no import. -/
structure IsLiteral (value : Derivation.Value) : Prop where
  preferred : value.Preferred
  specifiers : value.specifiers = []
  bare : value.isBare = false

/-- Texts that are read as values, with a space between them, are read as the
entries of a list. -/
theorem lexes_entries {render : Handle → String} {entries : List Handle}
    {values : List Derivation.Value}
    (h : List.Forall₂ (fun e value => IsTextOf (render e) value) entries values)
    {rest : List Char} {kinds : List TokenKind} (hrest : Lexes rest kinds) :
    Lexes ((" ".intercalate (entries.map render)).toList ++ rest) (entryKinds values ++ kinds) := by
  induction h with
  | nil => exact hrest
  | @cons e value entries values hfirst hothers ih =>
      rw [entryKinds, List.append_assoc]
      cases entries with
      | nil =>
          cases hothers
          exact hfirst _ _ hrest
      | cons next entries =>
          rw [List.map_cons, List.map_cons, String.intercalate_cons_cons, ← List.map_cons]
          simp only [String.toList_append, List.append_assoc]
          exact hfirst _ _ (.blank rfl ih)

/-- What is printed is read as the derivation that spells it out. -/
theorem Depicts.isTextOf (hdepicts : Depicts a h value) :
    ∀ {depth : Nat}, h.index < depth → IsTextOf (a.renderTo depth h) value := by
  induction hdepicts with
  | @string h text hobject =>
      rintro (_ | depth) hdepth rest kinds hrest
      · exact absurd hdepth (Nat.not_lt_zero _)
      have hkind : (TokenKind.string text).IsWritable := trivial
      have hspelled := Lexes.spelled hkind (by simp [TokenKind.isWord]) hrest
      rw [TokenKind.spelling] at hspelled
      rw [Arena.renderTo, Arena.get_eq hobject, Value.kinds]
      exact hspelled
  | @list h entries values hobject hbefore hlength _ ih =>
      rintro (_ | depth) hdepth rest kinds hrest
      · exact absurd hdepth (Nat.not_lt_zero _)
      have hentries : List.Forall₂ (fun e value => IsTextOf (a.renderTo depth e) value)
          entries values := by
        refine List.forall₂_iff_zip.mpr ⟨hlength, fun hzip => ih hzip ?_⟩
        exact Nat.lt_of_lt_of_le (hbefore _ (List.of_mem_zip hzip).1) (Nat.le_of_lt_succ hdepth)
      have hclose : TokenKind.bracketClose.IsWritable := trivial
      have hopen : TokenKind.bracketOpen.IsWritable := trivial
      rw [Arena.renderTo, Arena.get_eq hobject, Value.kinds]
      simp only [String.toList_append, List.append_assoc, List.cons_append]
      have hclosed := Lexes.spelled hclose (by simp [TokenKind.isWord]) hrest
      exact Lexes.spelled hopen (by simp [TokenKind.isWord]) (lexes_entries hentries hclosed)

theorem isLiteral_list {entries : List Handle} {values : List Derivation.Value}
    (h : List.Forall₂ (fun _ value => IsLiteral value) entries values) :
    IsLiteral (.list values) := by
  induction h with
  | nil => exact ⟨trivial, rfl, rfl⟩
  | cons hfirst _ ih =>
      obtain ⟨hpreferred, hspecifiers, hbare⟩ := hfirst
      refine ⟨⟨hpreferred, ih.preferred, fun hbare' => ?_⟩, ?_, rfl⟩
      · rw [hbare] at hbare'
        cases hbare'
      · rw [Value.specifiers, entrySpecifiers, hspecifiers]
        exact ih.specifiers

theorem Depicts.isLiteral (hdepicts : Depicts a h value) : IsLiteral value := by
  induction hdepicts with
  | string hobject => exact ⟨trivial, rfl, rfl⟩
  | list hobject hbefore hlength _ ih =>
      exact isLiteral_list (List.forall₂_iff_zip.mpr ⟨hlength, fun hzip => ih hzip⟩)

end Text

section Running

theorem assign_fresh {b : Bindings} {name : String} (hname : name ∉ b.names) {k : Handle}
    (hk : 0 < k.index) (location : Location) (m : Machine φ) :
    ∃ b', assign location (.root b) name k m = .ok (.root b') m ∧
      b'.entries = b.entries ++ [(name, k)] := by
  have hnull : ¬k.isNull = true := by
    intro hnull
    obtain rfl : k = .null := by simpa [Handle.isNull] using hnull
    exact Nat.lt_irrefl 0 hk
  rw [assign_apply, if_neg hnull]
  cases hadd : b.add? name k with
  | none => exact absurd (Bindings.add?_eq_none_iff.mp hadd) hname
  | some b' =>
      refine ⟨b', ?_, (Bindings.entries_of_add? hadd).2⟩
      simp only [Scope.put, Scope.bindings, hadd]

variable [Host φ]

/-- A value whose trees, in any scope and any arena, evaluate to a new object
that is built as the object of a handle. -/
def Rebuilds (a : Arena φ) (h : Handle) (value : Derivation.Value) : Prop :=
  ∀ included node, value.HasTree included node → ∀ (scope : Scope) (m : Machine φ), ∃ k m',
    evaluate node scope m = .ok k m' ∧ m'.arena.Extends m.arena ∧ m.arena.size ≤ k.index ∧
      Alike a m'.arena h k

theorem evaluateAll_rebuilds {included : String → Node → Prop} {entries : List Handle}
    {values : List Derivation.Value} (h : List.Forall₂ (Rebuilds a) entries values)
    {nodes : List Node} (hnodes : EntriesHaveTrees included values nodes) (scope : Scope)
    (m : Machine φ) :
    ∃ ks m', evaluateAll nodes scope m = .ok ks m' ∧ m'.arena.Extends m.arena ∧
      AlikeAll a m'.arena entries ks := by
  induction h generalizing nodes m with
  | nil =>
      obtain rfl : nodes = [] := hnodes
      rw [evaluateAll]
      exact ⟨[], m, rfl, .refl _, .nil⟩
  | cons hfirst _ ih =>
      obtain ⟨node, nodes, rfl, hnode, hothers⟩ := hnodes
      obtain ⟨k, m₁, hrun, hextends, -, halike⟩ := hfirst _ _ hnode scope m
      obtain ⟨ks, m₂, hall, hextends', halikes⟩ := ih hothers m₁
      rw [evaluateAll, bind_apply, hrun]
      refine ⟨k :: ks, m₂, ?_, hextends'.trans hextends,
        .cons (halike.mono (.refl a) hextends') halikes⟩
      simp only [bind_apply, hall]
      rfl

/-- What spells an object out, evaluates to one that is built like it. -/
theorem Depicts.rebuilds (hdepicts : Depicts a h value) : Rebuilds a h value := by
  induction hdepicts with
  | @string h text hobject =>
      rintro included node ⟨location, rfl⟩ scope m
      rw [evaluate]
      refine ⟨_, _, create_apply _ m, m.arena.extends_create _, Nat.le_refl _, ?_⟩
      exact .string hobject (m.arena.getElem?_create _)
  | @list h entries values hobject hbefore hlength _ ih =>
      rintro included node ⟨location, nodes, rfl, hnodes⟩ scope m
      have hrebuilds : List.Forall₂ (Rebuilds a) entries values :=
        List.forall₂_iff_zip.mpr ⟨hlength, fun hzip => ih hzip⟩
      obtain ⟨ks, m', hall, hextends, halike⟩ := evaluateAll_rebuilds hrebuilds hnodes scope m
      obtain ⟨hlength', hentries⟩ := List.forall₂_iff_zip.mp
        (halike.mono (.refl a) (m'.arena.extends_create (.list ks)))
      rw [evaluate, bind_apply, hall]
      refine ⟨_, _, create_apply _ m', (m'.arena.extends_create _).trans hextends,
        hextends.size_le, ?_⟩
      exact .list hobject (m'.arena.getElem?_create _) hbefore halike.lt_size.2 hlength' hentries

theorem executeStatement_rebuilds (hrebuilds : Rebuilds a h value) {name : String} {node : Node}
    {included : String → Node → Prop}
    (htree : (Statement.assignment name value).HasTree included node) {b : Bindings}
    (hname : name ∉ b.names) {m : Machine φ} (hm : 0 < m.arena.size) :
    ∃ b' k m', executeStatement node (.root b) m = .ok (.root b') m' ∧
      b'.entries = b.entries ++ [(name, k)] ∧ m'.arena.Extends m.arena ∧ Alike a m'.arena h k := by
  obtain ⟨location, place, valueNode, rfl, hvalue⟩ := htree
  obtain ⟨k, m', hrun, hextends, hnew, halike⟩ := hrebuilds included valueNode hvalue (.root b)
    { m with journal := m.journal.record (.executing .assignment location) }
  obtain ⟨b', hassign, hbound⟩ := assign_fresh hname (Nat.lt_of_lt_of_le hm hnew) location m'
  refine ⟨b', k, m', ?_, hbound, hextends, halike⟩
  rw [executeStatement, bind_apply, record_apply]
  simp only [bind_apply, hrun]
  exact hassign

theorem interpret_rebuilds (hrebuilds : Rebuilds a h value) {name : String} {program : Node}
    {included : String → Node → Prop}
    (htree : ProgramHasTree included [.assignment name value] program) {b : Bindings}
    (hname : name ∉ b.names) {m : Machine φ} (hm : 0 < m.arena.size) :
    ∃ b' k m', interpret program (.root b) m = ⟨m', .root b', []⟩ ∧
      b'.entries = b.entries ++ [(name, k)] ∧ m'.arena.Extends m.arena ∧ Alike a m'.arena h k := by
  obtain ⟨location, _, rfl, htrees⟩ := htree
  obtain ⟨node, _, hnode, hnil, rfl⟩ := List.forall₂_cons_left_iff.mp htrees
  cases hnil
  obtain ⟨b', k, m', hrun, hbound, hextends, halike⟩ := executeStatement_rebuilds hrebuilds hnode
    hname (show 0 < Arena.size (Machine.arena
      { m with journal := m.journal.record (.interpreting [node].length) }) from hm)
  refine ⟨b', k, m', ?_, hbound, hextends, halike⟩
  simp only [interpret_eq, execute_cons, Interpretation.step, hrun, execute_nil, if_true]

end Running

theorem derives_rendered {name : String} (hname : IsName name) (hdepicts : Depicts a h value)
    {source : Source} (htext : source.text = name ++ " = " ++ a.render h) :
    Derives source [.assignment name value] := by
  have hidentifier : (TokenKind.identifier name).IsWritable := hname
  have hassign : TokenKind.assign.IsWritable := trivial
  have hvalue := hdepicts.isTextOf (Nat.lt_succ_self h.index) [] [.endOfStream] .nil
  have hequals := Lexes.spelled hassign (by simp [TokenKind.isWord]) (.blank (c := ' ') rfl hvalue)
  have hwhole := Lexes.spelled hidentifier (fun _ => breaks_blank rfl _)
    (.blank (c := ' ') rfl hequals)
  have hchars : source.text.toList =
      name.toList ++ ' ' :: ("=".toList ++ ' ' :: ((a.render h).toList ++ [])) := by
    rw [htext]
    simp
  obtain ⟨tokens, htokens, hkinds⟩ := Source.tokenize_of_lexes (hchars ▸ hwhole)
  refine ⟨tokens, htokens, ?_⟩
  rw [hkinds, programKinds, statementKinds, List.flatMap_singleton, Statement.kinds]
  rfl

/-- Printed data reads back. Where all that can be come by from a handle is
strings and lists, the text of an assignment of what is printed for it is parsed,
whatever imports stand for and without asking for any. Interpreting the program,
in any arena and with any root scope that has the name free, makes no error, adds
the one binding, and binds the name to an object built as the one that was
printed, so that it is printed the same. -/
theorem rendered_data_reads_back [Host φ] (hback : a.RefersBack) (hdata : a.HoldsData h)
    {source : Source} (htext : source.text = "x = " ++ a.render h)
    (resolve : String → Resolution) (depth : Nat) (journal : Journal) :
    ∃ program, (parse resolve (depth + 1) source journal).1 = .ok program ∧
      (parse resolve (depth + 1) source journal).2.resolved = journal.resolved ∧
      ∀ (b : Bindings) (m : Machine φ), "x" ∉ b.names → 0 < m.arena.size →
        ∃ b' k m', interpret program (.root b) m = ⟨m', .root b', []⟩ ∧
          b'.entries = b.entries ++ [("x", k)] ∧ m'.arena.Extends m.arena ∧
          Alike a m'.arena h k ∧ m'.arena.render k = a.render h := by
  obtain ⟨value, hdepicts⟩ := exists_depicts hback hdata
  have hliteral := hdepicts.isLiteral
  have hx : IsName "x" := by decide
  have hspaced : "x = " = "x" ++ " = " := by decide
  have hderives := derives_rendered hx hdepicts (hspaced ▸ htext)
  obtain ⟨program, hparse, hasked, htree⟩ := parse_of_importFree hderives
    (List.forall_mem_singleton.mpr hliteral.preferred)
    (by simpa [programSpecifiers, Statement.specifiers] using hliteral.specifiers) resolve depth
    journal
  refine ⟨program, hparse, hasked, fun b m hname hm => ?_⟩
  obtain ⟨b', k, m', hrun, hbound, hextends, halike⟩ :=
    interpret_rebuilds hdepicts.rebuilds htree hname hm
  exact ⟨b', k, m', hrun, hbound, hextends, halike, halike.render_eq.symm⟩

/-- A list that holds one string twice, with a quote and the marks of comments in
it. -/
theorem rendered_data_reads_back_shared :
    ∃ a : Arena Builtin, a.RefersBack ∧ a.HoldsData ⟨2⟩ ∧
      a.render ⟨2⟩ = "[\"\\\"#/*\" \"\\\"#/*\"]" ∧
      ∃ program, (parse (fun _ => .external) 1 (.ofText ("x = " ++ a.render ⟨2⟩)) {}).1 =
          .ok program ∧
        ∃ b' k m', interpret program .empty ⟨Arena.empty, {}⟩ = ⟨m', .root b', []⟩ ∧
          b'.entries = [("x", k)] ∧ Alike a m'.arena ⟨2⟩ k := by
  let a : Arena Builtin := ⟨#[.null, .string "\"#/*", .list [⟨1⟩, ⟨1⟩]]⟩
  have hback : a.RefersBack := by
    rintro (_ | _ | _ | i) object hobject <;> simp [a] at hobject <;> subst hobject <;>
      simp [Object.handles]
  have hreaches : ∀ e, a.Reaches ⟨2⟩ e → e = ⟨2⟩ ∨ e = ⟨1⟩ := by
    intro e he
    induction he with
    | refl => exact .inl rfl
    | step _ hholds ih =>
        rcases ih with rfl | rfl
        · exact .inr (by simpa [a, Arena.get, Object.handles] using hholds)
        · simp [a, Arena.get, Object.handles] at hholds
  have hdata : a.HoldsData ⟨2⟩ := by
    intro e he
    rcases hreaches e he with rfl | rfl
    · exact .inr ⟨_, rfl⟩
    · exact .inl ⟨_, rfl⟩
  have htext : (Source.ofText ("x = " ++ a.render ⟨2⟩)).text = "x = " ++ a.render ⟨2⟩ := rfl
  obtain ⟨program, hparse, -, hrun⟩ :=
    rendered_data_reads_back hback hdata htext (fun _ => .external) 0 {}
  obtain ⟨b', k, m', hresult, hbound, -, halike, -⟩ :=
    hrun .empty ⟨Arena.empty, {}⟩ (by decide) (Nat.succ_pos 0)
  exact ⟨a, hback, hdata, by decide +kernel, program, hparse, b', k, m', hresult, hbound, halike⟩

end BuildScript
