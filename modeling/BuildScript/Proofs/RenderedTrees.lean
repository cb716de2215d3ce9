import BuildScript.Proofs.SpelledTrees
import BuildScript.Proofs.FaithfulRendering

namespace BuildScript

namespace NodeKind

theorem ofName?_name (kind : NodeKind) : ofName? kind.name = some kind := by
  cases kind <;> decide +kernel

theorem name_inj {kind kind' : NodeKind} (h : kind.name = kind'.name) : kind = kind' := by
  apply Option.some.inj
  rw [← ofName?_name, h, ofName?_name]

theorem space_notMem_name (kind : NodeKind) : ' ' ∉ kind.name.toList := by
  cases kind <;> decide

theorem colon_notMem_name (kind : NodeKind) : ':' ∉ kind.name.toList := by
  cases kind <;> decide

theorem head?_name (kind : NodeKind) :
    ∃ c, kind.name.toList.head? = some c ∧ c ≠ '(' ∧ c ≠ ')' := by
  cases kind <;> exact ⟨_, rfl, by decide, by decide⟩

end NodeKind

namespace Node

/-- The same tree, wherever the nodes are located. A node without a text is as
one whose text is empty. -/
inductive Resembles : Node → Node → Prop where
  | mk {node node' : Node} (hkind : node.kind = node'.kind) (htext : node.text = node'.text)
      (hchildren : List.Forall₂ Resembles node.children node'.children) : Resembles node node'

def HasNoSpace (node : Node) : Prop := ' ' ∉ node.text.toList

instance : DecidablePred HasNoSpace := fun node =>
  inferInstanceAs (Decidable (' ' ∉ node.text.toList))

/-- What a node has on the line for itself. -/
def label (node : Node) : List Char :=
  node.kind.name.toList ++ if node.text = "" then [] else ':' :: node.text.toList

/-- What stands behind a label and a space: the children in parentheses if there
are any, and then what comes after the node. -/
def behindLabel : List Node → List Char → List Char
  | [], r => r
  | children, r => '(' :: ' ' :: ((renderAll children).toList ++ ')' :: ' ' :: r)

theorem behindLabel_cons (child : Node) (children : List Node) (r : List Char) :
    behindLabel (child :: children) r =
      '(' :: ' ' :: ((renderAll (child :: children)).toList ++ ')' :: ' ' :: r) := by
  rw [behindLabel]
  exact List.cons_ne_nil child children

theorem render_append (node : Node) (r : List Char) :
    node.render.toList ++ ' ' :: r = node.label ++ ' ' :: behindLabel node.children r := by
  obtain ⟨kind, location, text?, children⟩ := node
  have htext : (if (text?.getD "").isEmpty then "" else ":" ++ text?.getD "").toList =
      if text?.getD "" = "" then [] else ':' :: (text?.getD "").toList := by
    by_cases hempty : text?.getD "" = "" <;> simp [hempty]
  rw [render, label, text, String.toList_append, String.toList_append, htext]
  cases children with
  | nil => simp [behindLabel]
  | cons child children => simp [behindLabel]

theorem renderAll_cons_append (node : Node) (nodes : List Node) (r : List Char) :
    (renderAll (node :: nodes)).toList ++ r =
      node.render.toList ++ ' ' :: ((renderAll nodes).toList ++ r) := by
  simp [renderAll]

section Labels

variable {node node' : Node}

theorem space_notMem_label (h : node.HasNoSpace) : ' ' ∉ node.label := by
  have hname := node.kind.space_notMem_name
  have htext : ' ' ∉ node.text.toList := h
  unfold label
  split
  · simpa using hname
  · simpa [hname] using htext

/-- The first colon ends the kind of a node, whatever its text is. -/
theorem label_inj (h : node.label = node'.label) :
    node.kind = node'.kind ∧ node.text = node'.text := by
  have hcolon := node.kind.colon_notMem_name
  have hcolon' := node'.kind.colon_notMem_name
  unfold label at h
  split at h <;> split at h
  case isTrue.isTrue hnone hnone' =>
    rw [List.append_nil, List.append_nil] at h
    exact ⟨NodeKind.name_inj (String.toList_inj.mp h), hnone.trans hnone'.symm⟩
  case isTrue.isFalse =>
    apply absurd _ hcolon
    rw [← List.append_nil node.kind.name.toList, h]
    simp
  case isFalse.isTrue =>
    apply absurd _ hcolon'
    rw [← List.append_nil node'.kind.name.toList, ← h]
    simp
  case isFalse.isFalse =>
    obtain ⟨hname, htext⟩ := append_stop_inj hcolon hcolon' h
    exact ⟨NodeKind.name_inj (String.toList_inj.mp hname), String.toList_inj.mp htext⟩

theorem head?_render_append (node : Node) (r : List Char) :
    ∃ c, (node.render.toList ++ ' ' :: r).head? = some c ∧ c ≠ '(' ∧ c ≠ ')' := by
  obtain ⟨c, hc, hparens⟩ := node.kind.head?_name
  refine ⟨c, ?_, hparens⟩
  rw [render_append, label, List.append_assoc, List.head?_append, hc, Option.some_or]

end Labels

/-- What comes after a node does not begin with an opening parenthesis, neither
where another node comes nor where those that it is among end. -/
theorem head?_renderAll_append (nodes : List Node) (r : List Char) :
    ((renderAll nodes).toList ++ ')' :: r).head? ≠ some '(' := by
  cases nodes with
  | nil => simp [renderAll]
  | cons node nodes =>
      obtain ⟨c, hc, hopen, -⟩ := node.head?_render_append ((renderAll nodes).toList ++ ')' :: r)
      rw [renderAll_cons_append, hc]
      exact fun heq => hopen (Option.some.inj heq)

/-- The line tells of a node which one it is and where it ends. -/
def IsToldBy (node : Node) : Prop :=
  ∀ (node' : Node) (r r' : List Char), node'.Everywhere HasNoSpace →
    r.head? ≠ some '(' → r'.head? ≠ some '(' →
    node.render.toList ++ ' ' :: r = node'.render.toList ++ ' ' :: r' →
    node.Resembles node' ∧ r = r'

/-- If each of some nodes is told, so are all of them, up to where they end. -/
theorem renderAll_append_inj {nodes nodes' : List Node} (htold : ∀ node ∈ nodes, node.IsToldBy)
    (hspace : ∀ node' ∈ nodes', node'.Everywhere HasNoSpace) {r r' : List Char}
    (h : (renderAll nodes).toList ++ ')' :: r = (renderAll nodes').toList ++ ')' :: r') :
    List.Forall₂ Resembles nodes nodes' ∧ r = r' := by
  have hclosed : ∀ (node : Node) (s t : List Char), node.render.toList ++ ' ' :: s ≠ ')' :: t := by
    intro node s t heq
    obtain ⟨c, hc, -, hclose⟩ := node.head?_render_append s
    rw [heq] at hc
    exact hclose (Option.some.inj hc).symm
  induction nodes generalizing nodes' with
  | nil =>
      cases nodes' with
      | nil => exact ⟨.nil, (List.cons.inj h).2⟩
      | cons node' nodes' =>
          rw [renderAll_cons_append] at h
          exact absurd h.symm (hclosed node' _ r)
  | cons node nodes ih =>
      rw [renderAll_cons_append] at h
      cases nodes' with
      | nil => exact absurd h (hclosed node _ r')
      | cons node' nodes' =>
          rw [renderAll_cons_append] at h
          obtain ⟨hnode, hnodes⟩ := List.forall_mem_cons.mp htold
          obtain ⟨hspace, hspaces⟩ := List.forall_mem_cons.mp hspace
          obtain ⟨hfirst, hrest⟩ := hnode node' _ _ hspace (head?_renderAll_append nodes r)
            (head?_renderAll_append nodes' r') h
          obtain ⟨hothers, hend⟩ := ih hnodes hspaces hrest
          exact ⟨.cons hfirst hothers, hend⟩

theorem isToldBy (node : Node) : node.Everywhere HasNoSpace → node.IsToldBy := by
  induction node using Node.induction with
  | h node ih =>
    intro hspace node' r r' hspace' hr hr' h
    obtain ⟨hroot, hchildren⟩ := everywhere_iff.mp hspace
    obtain ⟨hroot', hchildren'⟩ := everywhere_iff.mp hspace'
    rw [render_append, render_append] at h
    obtain ⟨hlabel, hbehind⟩ :=
      append_stop_inj (space_notMem_label hroot) (space_notMem_label hroot') h
    obtain ⟨hkind, htext⟩ := label_inj hlabel
    have htold : ∀ child ∈ node.children, child.IsToldBy := fun child hchild =>
      ih child hchild (hchildren child hchild)
    suffices hsame : List.Forall₂ Resembles node.children node'.children ∧ r = r' from
      ⟨.mk hkind htext hsame.1, hsame.2⟩
    generalize node.children = children at htold hbehind ⊢
    generalize node'.children = children' at hchildren' hbehind ⊢
    -- a node without children has nothing in parentheses behind it, so both have children or none
    cases children with
    | nil =>
        cases children' with
        | nil => exact ⟨.nil, hbehind⟩
        | cons child' children' =>
            apply absurd _ hr
            rw [show r = _ from hbehind]
            rfl
    | cons child children =>
        cases children' with
        | nil =>
            apply absurd _ hr'
            rw [show r' = _ from hbehind.symm]
            rfl
        | cons child' children' =>
            obtain ⟨hsame, hrest⟩ :=
              renderAll_append_inj htold hchildren' (List.cons.inj (List.cons.inj hbehind).2).2
            exact ⟨hsame, (List.cons.inj hrest).2⟩

theorem renderAll_eq {nodes nodes' : List Node} (hsame : List.Forall₂ Resembles nodes nodes')
    (h : ∀ node ∈ nodes, ∀ node', node.Resembles node' → node.render = node'.render) :
    renderAll nodes = renderAll nodes' := by
  induction hsame with
  | nil => rfl
  | cons hfirst _ ih =>
      obtain ⟨hnode, hnodes⟩ := List.forall_mem_cons.mp h
      rw [renderAll, renderAll, hnode _ hfirst, ih hnodes]

theorem Resembles.render_eq {node : Node} :
    ∀ node', node.Resembles node' → node.render = node'.render := by
  induction node using Node.induction with
  | h node ih =>
    rintro node' ⟨hkind, htext, hchildren⟩
    have hlabel : node.label = node'.label := by rw [label, label, hkind, htext]
    have hbehind : behindLabel node.children [] = behindLabel node'.children [] := by
      have hall := renderAll_eq hchildren ih
      generalize node.children = children at hchildren hall ⊢
      generalize node'.children = children' at hchildren hall ⊢
      cases hchildren with
      | nil => rfl
      | cons => rw [behindLabel_cons, behindLabel_cons, hall]
    apply String.toList_inj.mp
    apply (List.append_left_inj [' ']).mp
    rw [render_append, render_append, hlabel, hbehind]

/-- Of trees whose texts have no space in them, two have the same line if and
only if they are the same in kinds, texts and children. -/
theorem render_eq_iff_resembles {node node' : Node} (h : node.Everywhere HasNoSpace)
    (h' : node'.Everywhere HasNoSpace) : node.render = node'.render ↔ node.Resembles node' := by
  constructor
  · intro heq
    have htext : node.render.toList ++ [' '] = node'.render.toList ++ [' '] := by rw [heq]
    exact (isToldBy node h node' [] [] h' (by simp) (by simp) htext).1
  · exact Resembles.render_eq node'

/-- Two lists of strings that look like the parts of a tree, read at different
places. One has an empty text where the other has none. -/
theorem render_eq_iff_resembles_parentheses :
    let place (column : Nat) : Location := ⟨.ofText "", ⟨0, 0, 1, column⟩⟩
    let string (column : Nat) (text : String) : Node := ⟨.string, place column, some text, []⟩
    let node : Node :=
      ⟨.list, place 1, none, [string 2 ")", string 3 "STRING:(", ⟨.string, place 4, none, []⟩]⟩
    let node' : Node :=
      ⟨.list, place 7, some "", [string 8 ")", string 8 "STRING:(", string 9 ""]⟩
    node.Everywhere HasNoSpace ∧ node'.Everywhere HasNoSpace ∧
      node.render = "LIST ( STRING:) STRING:STRING:( STRING )" ∧
      node.render = node'.render ∧ node.Resembles node' := by
  intro place string node node'
  have hspace : node.Everywhere HasNoSpace := by
    simp only [node, string, everywhere_mk, List.forall_mem_cons, List.not_mem_nil,
      false_imp_iff, implies_true, and_true]
    decide
  have hspace' : node'.Everywhere HasNoSpace := by
    simp only [node', string, everywhere_mk, List.forall_mem_cons, List.not_mem_nil,
      false_imp_iff, implies_true, and_true]
    decide
  have hline : node.render = node'.render := by decide +kernel
  have hsame := (render_eq_iff_resembles hspace hspace').mp hline
  exact ⟨hspace, hspace', by decide +kernel, hline, hsame⟩

/-- A text with a space in it can look like two nodes. -/
example :
    let string (text : String) : Node := ⟨.string, ⟨.ofText "", .start⟩, some text, []⟩
    let list (entries : List Node) : Node := ⟨.list, ⟨.ofText "", .start⟩, none, entries⟩
    (list [string "a", string "b"]).render = (list [string "a STRING:b"]).render := by
  decide +kernel

end Node

end BuildScript
