import BuildScript.Proofs.StructuralBuiltins
import BuildScript.Proofs.StructuralEquality

namespace BuildScript

variable {φ : Type} {R : φ → φ → Prop} {a a' : Arena φ} {args args' : Arguments}

structure SameArgument (R : φ → φ → Prop) (a a' : Arena φ) (arg arg' : Argument) : Prop where
  id : arg.id = arg'.id
  object : SameStructure R a a' arg.object arg'.object

structure SameArguments (R : φ → φ → Prop) (a a' : Arena φ) (args args' : Arguments) : Prop where
  count : args.count = args'.count
  positional : List.Forall₂ (SameArgument R a a') args.positional args'.positional
  keyword : List.Forall₂ (fun e e' => e.1 = e'.1 ∧ SameArgument R a a' e.2 e'.2)
    args.keyword args'.keyword

/-- Two answers with the same errors. If there are none, no object was lost and
the values are equal in structure. -/
structure SameReply (R : φ → φ → Prop) (a a' : Arena φ) (answer answer' : Reply × Arena φ) :
    Prop where
  callErrors : answer.1.callErrors = answer'.1.callErrors
  argumentErrors : answer.1.argumentErrors = answer'.1.argumentErrors
  value : answer.1.isSuccess = true → answer.2.Extends a ∧ answer'.2.Extends a' ∧
    SameStructure R answer.2 answer'.2 answer.1.value answer'.1.value

/-- Functions that are equal answer alike where their arguments are. -/
def Congruent [Host φ] (R : φ → φ → Prop) : Prop :=
  ∀ (body body' : φ) (a a' : Arena φ) (args args' : Arguments), R body body' →
    SameArguments R a a' args args' →
    SameReply R a a' (Host.call body a args) (Host.call body' a' args')

namespace SameArguments

theorem empty (R : φ → φ → Prop) (a a' : Arena φ) : SameArguments R a a' .empty .empty :=
  ⟨rfl, .nil, .nil⟩

theorem mono {c c' : Arena φ} (hc : c.Extends a) (hc' : c'.Extends a')
    (h : SameArguments R a a' args args') : SameArguments R c c' args args' :=
  ⟨h.count, h.positional.imp fun _ _ he => ⟨he.id, he.object.mono hc hc'⟩,
    h.keyword.imp fun _ _ he => ⟨he.1, he.2.id, he.2.object.mono hc hc'⟩⟩

theorem pushPositional (hargs : SameArguments R a a' args args') {h h' : Handle}
    (hvalue : SameStructure R a a' h h') :
    SameArguments R a a' (args.pushPositional h) (args'.pushPositional h') :=
  ⟨congrArg (· + 1) hargs.count,
    List.rel_append hargs.positional (.cons ⟨hargs.count, hvalue⟩ .nil), hargs.keyword⟩

theorem pushKeyword (hargs : SameArguments R a a' args args') {h h' : Handle}
    (hvalue : SameStructure R a a' h h') (name : String) :
    SameArguments R a a' (args.pushKeyword name h) (args'.pushKeyword name h') := by
  have hnames : args.keyword.map Prod.fst = args'.keyword.map Prod.fst :=
    map_eq_of_forall₂ (hargs.keyword.imp fun _ _ he => he.1)
  have hcount : args.count + 1 = args'.count + 1 := congrArg (· + 1) hargs.count
  unfold Arguments.pushKeyword
  rw [← hnames]
  split
  · exact ⟨hcount, hargs.positional, hargs.keyword⟩
  · exact ⟨hcount, hargs.positional,
      List.rel_append hargs.keyword (.cons ⟨rfl, hargs.count, hvalue⟩ .nil)⟩

theorem getPositional (hargs : SameArguments R a a' args args') (index : Nat) :
    SameAnswer (SameArgument R a a') (args.getPositional index) (args'.getPositional index) := by
  obtain ⟨hlength, hget⟩ := List.forall₂_iff_get.mp hargs.positional
  unfold Arguments.getPositional
  by_cases hlt : index < args.positional.length
  · have hlt' : index < args'.positional.length := hlength ▸ hlt
    rw [List.getElem?_eq_getElem hlt, List.getElem?_eq_getElem hlt']
    exact .ok (hget index hlt hlt')
  · have hlt' : ¬index < args'.positional.length := hlength ▸ hlt
    rw [List.getElem?_eq_none (Nat.le_of_not_lt hlt), List.getElem?_eq_none (Nat.le_of_not_lt hlt')]
    exact .error _

theorem getKeyword (hargs : SameArguments R a a' args args') (name : String) :
    SameAnswer (SameArgument R a a') (args.getKeyword name) (args'.getKeyword name) := by
  have hlookup := lookup_rel hargs.keyword name
  unfold Arguments.getKeyword
  generalize args.keyword.lookup name = found at hlookup ⊢
  generalize args'.keyword.lookup name = found' at hlookup ⊢
  cases hlookup with
  | none => exact .error _
  | some harg => exact .ok harg

end SameArguments

namespace SameReply

theorem refusal {reply : Reply} (h : reply.isSuccess = false) :
    SameReply R a a' (reply, a) (reply, a') :=
  ⟨rfl, rfl, fun hsuccess => by rw [h] at hsuccess; cases hsuccess⟩

theorem rejecting {arg arg' : Argument} (harg : SameArgument R a a' arg arg') (message : String) :
    SameReply R a a' (.rejecting arg message, a) (.rejecting arg' message, a') := by
  rw [Reply.rejecting, harg.id]
  exact refusal rfl

theorem answer {o o' : Object φ} (hsame : SameObject R (SameStructure R a a') o o') :
    SameReply R a a' (Builtin.answer a o) (Builtin.answer a' o') :=
  ⟨rfl, rfl, fun _ => ⟨a.extends_create o, a'.extends_create o', .create hsame⟩⟩

theorem isSuccess_eq {answer answer' : Reply × Arena φ} (h : SameReply R a a' answer answer') :
    answer.1.isSuccess = answer'.1.isSuccess := by
  unfold Reply.isSuccess
  rw [h.callErrors, h.argumentErrors]

theorem replyErrors_eq {answer answer' : Reply × Arena φ} (h : SameReply R a a' answer answer')
    (location : Location) (places : List Location) :
    Eval.replyErrors location places answer.1 = Eval.replyErrors location places answer'.1 := by
  unfold Eval.replyErrors
  rw [h.callErrors, h.argumentErrors]

end SameReply

namespace Builtin

theorem stringErrors_same {xs xs' : List Argument} (h : List.Forall₂ (SameArgument R a a') xs xs') :
    stringErrors a xs = stringErrors a' xs' := by
  induction h with
  | nil => rfl
  | cons hfirst _ ih =>
      unfold stringErrors at ih ⊢
      rw [List.filterMap_cons, List.filterMap_cons, hfirst.object.asString_eq, hfirst.id, ih]

theorem texts_same {xs xs' : List Argument} (h : List.Forall₂ (SameArgument R a a') xs xs') :
    texts a (xs.map (·.object)) = texts a' (xs'.map (·.object)) := by
  induction h with
  | nil => rfl
  | cons hfirst _ ih =>
      unfold texts at ih ⊢
      rw [List.map_cons, List.map_cons, List.filterMap_cons, List.filterMap_cons,
        hfirst.object.asString_eq, ih]

theorem entryTexts_same {hs hs' : List Handle} (h : List.Forall₂ (SameStructure R a a') hs hs') :
    entryTexts a hs = entryTexts a' hs' := by
  induction h with
  | nil => rfl
  | cons hfirst _ ih => rw [entryTexts, entryTexts, hfirst.asString_eq, ih]

theorem separator_same (hargs : SameArguments R a a' args args') :
    separator a args = separator a' args' := by
  unfold separator
  obtain ⟨arg, arg', hfound, hfound', harg⟩ | ⟨e, hfound, hfound'⟩ := (hargs.getKeyword "sep").inv
  · have hid : ∀ message, Reply.rejecting arg message = Reply.rejecting arg' message :=
      fun message => by rw [Reply.rejecting, Reply.rejecting, harg.id]
    rw [hfound, hfound']
    simp only [harg.object.asString_eq, hid]
  · rw [hfound, hfound']

theorem callConcat_same (hargs : SameArguments R a a' args args') :
    SameReply R a a' (callConcat a args) (callConcat a' args') := by
  unfold callConcat
  rw [stringErrors_same hargs.positional, texts_same hargs.positional]
  split
  · exact .answer (.string _)
  · rename_i herrors
    exact .refusal (by simpa [Reply.isSuccess] using herrors)

theorem callJoin_same (hargs : SameArguments R a a' args args') :
    SameReply R a a' (callJoin a args) (callJoin a' args') := by
  unfold callJoin
  rw [separator_same hargs]
  obtain ⟨list, list', hlist, hlist', hsame⟩ | ⟨e, hlist, hlist'⟩ := (hargs.getPositional 0).inv
  · rw [hlist, hlist']
    dsimp only
    cases hseparator : separator a' args' with
    | error reply => exact .refusal (isSuccess_of_separator_eq_error hseparator)
    | ok sep =>
        obtain ⟨entries, entries', hentries, hentries', htexts⟩ | ⟨e, herror, herror'⟩ :=
          hsame.object.asList.inv
        · rw [hentries, hentries']
          dsimp only
          rw [entryTexts_same htexts]
          cases entryTexts a' entries' with
          | error e => exact .rejecting hsame _
          | ok parts => exact .answer (.string _)
        · rw [herror, herror']
          exact .rejecting hsame _
  · rw [hlist, hlist']
    exact .refusal rfl

theorem callStruct_same (hargs : SameArguments R a a' args args') :
    SameReply R a a' (callStruct a args) (callStruct a' args') := by
  have hpositional := hargs.positional
  unfold callStruct
  generalize args.positional = xs at hpositional ⊢
  generalize args'.positional = xs' at hpositional ⊢
  cases hpositional with
  | nil =>
      have hpairs : List.Forall₂ (fun e e' => e.1 = e'.1 ∧ SameStructure R a a' e.2 e'.2)
          (args.keyword.map fun e => (e.1, e.2.object))
          (args'.keyword.map fun e => (e.1, e.2.object)) := by
        rw [List.forall₂_map_left_iff, List.forall₂_map_right_iff]
        exact hargs.keyword.imp fun _ _ he => ⟨he.1, he.2.object⟩
      have hentries := Bindings.forall₂_ofPairs hpairs
      have hnames := map_eq_of_forall₂ (hentries.imp fun _ _ he => he.1)
      refine .answer (.struct (fun name => ?_) (Bindings.rel_of_find? hentries))
      rw [Bindings.names, Bindings.names, hnames]
  | @cons x x' xs xs' hfirst hothers =>
      have herrors : (x :: xs).map (fun arg => (arg.id, "struct only takes keyword arguments")) =
          (x' :: xs').map fun arg => (arg.id, "struct only takes keyword arguments") :=
        map_eq_of_forall₂ ((List.Forall₂.cons hfirst hothers).imp fun _ _ he => by rw [he.id])
      dsimp only
      rw [herrors]
      exact .refusal rfl

theorem call_same (b : Builtin) (hargs : SameArguments R a a' args args') :
    SameReply R a a' (b.call a args) (b.call a' args') := by
  cases b with
  | concat => exact callConcat_same hargs
  | join => exact callJoin_same hargs
  | struct => exact callStruct_same hargs

def Same (embed : Builtin → φ) (body body' : φ) : Prop :=
  ∃ b, body = embed b ∧ body' = embed b

theorem congruent [Host φ] {embed : Builtin → φ}
    (hembed : ∀ (b : Builtin) (a : Arena φ) (args : Arguments),
      Host.call (embed b) a args = b.call a args) : Congruent (Same embed) := by
  rintro _ _ a a' args args' ⟨b, rfl, rfl⟩ hargs
  rw [hembed, hembed]
  exact b.call_same hargs

end Builtin

end BuildScript
