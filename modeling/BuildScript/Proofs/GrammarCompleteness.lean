import BuildScript.Proofs.ParserTriple
import BuildScript.Proofs.PreferredDerivation

/-!
The rules of the grammar follow every preferred derivation: on the yield of a
preferred tree they match all of it and nothing more, and give its tree. The
only thing that can stop them is an import that cannot be spliced in.

A rule is tried on its own tokens first, so each commitment of the ordered
alternatives is checked here: an alternative that stands before the right one
either does not match or matches just the preferred tree.
-/

namespace BuildScript.Grammar

open BuildScript.Parser BuildScript.Derivation

variable {τ : Type} [TokenStream τ] {α β : Type}

def NextKind (P : TokenKind → Prop) (ts : List Token) : Prop :=
  ∃ t rest, ts = t :: rest ∧ P t.kind

theorem NextKind.mono {P P' : TokenKind → Prop} {ts : List Token} (h : NextKind P ts)
    (hP : ∀ kind, P kind → P' kind) : NextKind P' ts := by
  obtain ⟨t, rest, hts, ht⟩ := h
  exact ⟨t, rest, hts, hP _ ht⟩

theorem exists_closing {used : List Token} {kinds : List TokenKind} {kind : TokenKind}
    (h : used.map Token.kind = kinds ++ [kind]) :
    ∃ inner closing, used = inner ++ [closing] ∧ inner.map Token.kind = kinds ∧
      closing.kind = kind := by
  obtain ⟨inner, last, rfl, hinner, hlast⟩ := List.map_eq_append_iff.mp h
  obtain ⟨closing, rfl, hclosing⟩ := List.map_eq_singleton_iff.mp hlast
  exact ⟨inner, closing, rfl, hinner, hclosing⟩

/-- The tokens of a first item and of the others. The first one has a token, so
that fewer are left and one try less is enough for them. -/
theorem exists_items {used rest : List Token} {kinds kinds' : List TokenKind} {bound count : Nat}
    (hused : used.map Token.kind = kinds ++ kinds') (hkinds : kinds ≠ [])
    (hbound : (used ++ rest).length < bound) (hcount : (used ++ rest).length < count + 1) :
    ∃ first others, used = first ++ others ∧ first.map Token.kind = kinds ∧
      others.map Token.kind = kinds' ∧ (first ++ (others ++ rest)).length < bound ∧
      (others ++ rest).length < bound ∧ (others ++ rest).length < count := by
  obtain ⟨first, others, rfl, rfl, rfl⟩ := List.map_eq_append_iff.mp hused
  have hpositive : 0 < first.length :=
    List.length_pos_of_ne_nil fun hnil => hkinds (by rw [hnil, List.map_nil])
  rw [List.append_assoc] at hbound hcount
  rw [List.length_append] at hcount
  refine ⟨first, others, rfl, rfl, rfl, hbound, ?_, by omega⟩
  rw [List.length_append] at hbound
  omega

/-- Kinds that continue no object and make no name a keyword. -/
def Apart (kind : TokenKind) : Prop := kind ≠ .dot ∧ kind ≠ .parenOpen ∧ kind ≠ .assign

def Closing (kind : TokenKind) : Prop :=
  kind = .bracketClose ∨ kind = .parenClose ∨ kind = .forKeyword

theorem Closing.apart {kind : TokenKind} (h : Closing kind) : Apart kind := by
  rcases h with rfl | rfl | rfl
  · exact ⟨by decide, by decide, by decide⟩
  · exact ⟨by decide, by decide, by decide⟩
  · exact ⟨by decide, by decide, by decide⟩

theorem Closing.opensValue {kind : TokenKind} (h : Closing kind) : opensValue kind = false := by
  rcases h with rfl | rfl | rfl
  · rfl
  · rfl
  · rfl

def Refuses (p : Parser (Rewindable τ) α) (ts : List Token) : Prop :=
  Triple p none ts (fun _ _ => False) True fun _ => False

theorem Refuses.firstOf {p q : Parser (Rewindable τ) α} {qs : List (Parser (Rewindable τ) α)}
    {ts : List Token} {Q : α → List Token → Prop} {mismatched : Prop} {stopped : Failure → Prop}
    (hp : Refuses p ts) (h : Triple (firstOf q qs) none ts Q mismatched stopped) :
    Triple (firstOf p (q :: qs)) none ts Q mismatched stopped :=
  Triple.firstOf_skip (hp.mono (fun _ _ => id) id fun _ => False.elim) h

/-- One token after the other, as long as the tokens to come do not show that
the parser will not match. -/
theorem Refuses.read {p : Parser (Rewindable τ) α} {f : Token → Option α}
    {g : α → Parser (Rewindable τ) β} {ts : List Token} (hp : Accepts p f)
    (h : ∀ t rest a, ts = t :: rest → f t = some a → Refuses (g a) rest) :
    Refuses (p >>= g) ts := by
  have hone : Triple p none ts _ _ fun _ => False := Triple.one hp fun _ hfault => by cases hfault
  refine Triple.bind (hone.mono (fun _ _ => id) (fun _ => trivial) fun _ => id) ?_
  rintro a rest ⟨t, hts, ha⟩
  exact h t rest a hts ha

theorem Refuses.here_bind {g : Location → Parser (Rewindable τ) α} {ts : List Token}
    (h : ∀ location, Refuses (g location) ts) : Refuses (here >>= g) ts :=
  Triple.here_bind h fun _ hfault => by cases hfault

section Runs

variable (good : String → Prop)

/-- The parser matches the tokens up to `rest` and gives something that is as
shown, unless one of the specifiers is not good. -/
def Runs (p : Parser (Rewindable τ) α) (ts rest : List Token) (shows : α → Prop)
    (specifiers : List String) : Prop :=
  Triple p none ts (fun a left => left = rest ∧ shows a ∧ ∀ s ∈ specifiers, good s) False
    fun _ => ¬∀ s ∈ specifiers, good s

end Runs

namespace Runs

variable {good : String → Prop} {p : Parser (Rewindable τ) α}
  {q : Parser (Rewindable τ) β} {f : α → Parser (Rewindable τ) β}
  {ts mid rest : List Token} {shows shows' : α → Prop}
  {showsAll : List α → Prop} {after : β → Prop}
  {specifiers specifiers' specifiersAll : List String}

theorem pure {a : α} (h : shows a) :
    Runs good (Pure.pure a : Parser (Rewindable τ) α) ts ts shows [] :=
  Triple.pure ⟨rfl, h, by simp⟩

theorem mono (h : Runs good p ts rest shows specifiers) (hshows : ∀ a, shows a → shows' a) :
    Runs good p ts rest shows' specifiers :=
  Triple.mono h (fun a _ ⟨hrest, ha, hgood⟩ => ⟨hrest, hshows a ha, hgood⟩) id fun _ => id

theorem rest_of_first (h : specifiersAll = specifiers ++ specifiers')
    (hgood : ∀ s ∈ specifiers, good s) (hq : Runs good q mid rest after specifiers') :
    Triple q none mid (fun b left => left = rest ∧ after b ∧ ∀ s ∈ specifiersAll, good s) False
      fun _ => ¬∀ s ∈ specifiersAll, good s := by
  subst h
  refine Triple.mono hq ?_ id ?_
  · rintro b left ⟨hleft, hb, hgood'⟩
    exact ⟨hleft, hb, List.forall_mem_append.mpr ⟨hgood, hgood'⟩⟩
  · intro _ hbad hall
    exact hbad (List.forall_mem_append.mp hall).2

theorem first_of_all (h : specifiersAll = specifiers ++ specifiers')
    (hp : Runs good p ts mid shows specifiers) :
    Triple p none ts (fun a left => left = mid ∧ shows a ∧ ∀ s ∈ specifiers, good s) False
      fun _ => ¬∀ s ∈ specifiersAll, good s := by
  subst h
  refine Triple.mono hp (fun _ _ => id) id ?_
  intro _ hbad hall
  exact hbad (List.forall_mem_append.mp hall).1

theorem bind (hp : Runs good p ts mid shows specifiers)
    (hf : ∀ a, shows a → Runs good (f a) mid rest after specifiers')
    (h : specifiersAll = specifiers ++ specifiers') :
    Runs good (p >>= f) ts rest after specifiersAll := by
  refine Triple.bind (first_of_all h hp) ?_
  rintro a _ ⟨rfl, ha, hgood⟩
  exact rest_of_first h hgood (hf a ha)

theorem step {q : Parser (Rewindable τ) β} {accepted : Token → Option β}
    {g : β → Parser (Rewindable τ) α} {b : β} {t : Token} (hq : Accepts q accepted)
    (hb : accepted t = some b) (h : Runs good (g b) ts rest shows specifiers) :
    Runs good (q >>= g) (t :: ts) rest shows specifiers :=
  Triple.step hq hb h

theorem here_bind {g : Location → Parser (Rewindable τ) α}
    (h : ∀ location, Runs good (g location) ts rest shows specifiers) :
    Runs good (here >>= g) ts rest shows specifiers :=
  Triple.here_bind h fun _ hfault => by cases hfault

theorem skip {q : Parser (Rewindable τ) α} {qs : List (Parser (Rewindable τ) α)}
    (hp : Refuses p ts) (h : Runs good (firstOf q qs) ts rest shows specifiers) :
    Runs good (firstOf p (q :: qs)) ts rest shows specifiers :=
  hp.firstOf h

theorem first {qs : List (Parser (Rewindable τ) α)} (h : Runs good p ts rest shows specifiers) :
    Runs good (firstOf p qs) ts rest shows specifiers :=
  Triple.firstOf_head h

theorem many_nil {bound : Nat} (hp : Refuses p ts) :
    Runs good (many p (bound + 1)) ts ts (fun as => as = []) [] :=
  Triple.optional_bind (hp.mono (fun _ _ => id) id fun _ => False.elim)
    (fun _ _ h => h.elim) fun _ => Triple.pure ⟨rfl, rfl, by simp⟩

theorem many_cons {bound : Nat} (hp : Runs good p ts mid shows specifiers)
    (hmany : Runs good (many p bound) mid rest showsAll specifiers')
    (h : specifiersAll = specifiers ++ specifiers') :
    Runs good (many p (bound + 1)) ts rest
      (fun as => ∃ a others, as = a :: others ∧ shows a ∧ showsAll others) specifiersAll := by
  refine Triple.optional_bind (first_of_all h hp) ?_ False.elim
  rintro a _ ⟨rfl, ha, hgood⟩
  refine rest_of_first h hgood (hmany.bind (fun others hothers => ?_) (List.append_nil _).symm)
  exact Runs.pure ⟨a, others, rfl, ha, hothers⟩

theorem optional_some {r : Parser (Rewindable τ) β} {accepted : Token → Option β}
    {g : Option β → Parser (Rewindable τ) α} {b : β} {t : Token} (hr : Accepts r accepted)
    (hb : accepted t = some b) (h : Runs good (g (some b)) ts rest shows specifiers) :
    Runs good (optional r >>= g) (t :: ts) rest shows specifiers := by
  refine Triple.optional_bind (Triple.one_cons none t ts _ hr) ?_ ?_
  · rintro b' _ ⟨hb', rfl⟩
    rw [hb] at hb'
    cases hb'
    exact h
  · intro hnone
    rw [hb] at hnone
    cases hnone

theorem optional_none {r : Parser (Rewindable τ) β} {accepted : Token → Option β}
    {g : Option β → Parser (Rewindable τ) α} {t : Token} (hr : Accepts r accepted)
    (hnone : accepted t = none) (h : Runs good (g none) (t :: ts) rest shows specifiers) :
    Runs good (optional r >>= g) (t :: ts) rest shows specifiers := by
  refine Triple.optional_bind (Triple.one_cons none t ts _ hr) ?_ fun _ => h
  rintro b _ ⟨hb, -⟩
  rw [hnone] at hb
  cases hb

end Runs

variable {good : String → Prop}

theorem attributes_runs (names : List String) {owner : Node} {budget : Nat}
    {used rest : List Token} (hused : used.map Token.kind = attributeKinds names)
    (hrest : NextKind (· ≠ .dot) rest) (hbudget : (used ++ rest).length < budget) :
    Runs good (attributes owner budget : Parser (Rewindable τ) Node) (used ++ rest) rest
      (AttributesHaveTree owner names) [] := by
  induction names generalizing owner budget used with
  | nil =>
      obtain ⟨t, ts, rfl, ht⟩ := hrest
      obtain rfl := List.map_eq_nil_iff.mp hused
      obtain ⟨budget, rfl⟩ := Nat.exists_eq_succ_of_ne_zero (Nat.ne_zero_of_lt hbudget)
      exact Runs.optional_none (accepts_expect rfl (by decide)) (ofKind?_of_ne ht)
        (Runs.pure rfl)
  | cons name names ih =>
      obtain ⟨dot, used, rfl, hdot, hused⟩ := List.map_eq_cons_iff.mp hused
      obtain ⟨t, used, rfl, ht, hused⟩ := List.map_eq_cons_iff.mp hused
      obtain ⟨budget, rfl⟩ := Nat.exists_eq_succ_of_ne_zero (Nat.ne_zero_of_lt hbudget)
      simp only [List.cons_append, List.length_cons] at hbudget
      refine Runs.optional_some (accepts_expect rfl (by decide)) (ofKind?_of_eq hdot) ?_
      refine Runs.step accepts_identifier (name?_of_eq ht) ?_
      exact (ih hused (by omega)).mono fun node hnode => ⟨t.location, hnode⟩

theorem object_runs (path : Path) {budget : Nat} {used rest : List Token}
    (hused : used.map Token.kind = path.kinds) (hrest : NextKind (· ≠ .dot) rest)
    (hbudget : (used ++ rest).length < budget) :
    Runs good (object budget : Parser (Rewindable τ) Node) (used ++ rest) rest path.HasTree
      [] := by
  obtain ⟨t, used, rfl, ht, hused⟩ := List.map_eq_cons_iff.mp hused
  simp only [List.cons_append, List.length_cons] at hbudget
  refine Runs.step accepts_identifier (name?_of_eq ht) ?_
  exact (attributes_runs path.attributes hused hrest (by omega)).mono
    fun node hnode => ⟨t.location, hnode⟩

theorem object_refuses {budget : Nat} {t : Token} {ts : List Token}
    (ht : ∀ name, t.kind ≠ .identifier name) :
    Refuses (object budget : Parser (Rewindable τ) Node) (t :: ts) :=
  Triple.refuse accepts_identifier (name?_of_ne ht) trivial

theorem call_refuses {value : Parser (Rewindable τ) Node} {budget : Nat} {t : Token}
    {ts : List Token} (ht : ∀ name, t.kind ≠ .identifier name) :
    Refuses (call value budget) (t :: ts) :=
  Refuses.here_bind fun _ => Triple.bind (object_refuses ht) fun _ _ h => h.elim

theorem parenthesized_refuses {budget : Nat} {t : Token} {ts : List Token}
    (ht : t.kind ≠ .parenOpen) :
    Refuses (parenthesized budget : Parser (Rewindable τ) Node) (t :: ts) :=
  Triple.refuse (accepts_expect rfl (by decide)) (ofKind?_of_ne ht) trivial

theorem list_refuses {value : Parser (Rewindable τ) Node} {budget : Nat} {t : Token}
    {ts : List Token} (ht : t.kind ≠ .bracketOpen) : Refuses (list value budget) (t :: ts) :=
  Refuses.here_bind fun _ =>
    Triple.refuse (accepts_expect rfl (by decide)) (ofKind?_of_ne ht) trivial

theorem listFor_refuses {value : Parser (Rewindable τ) Node} {t : Token} {ts : List Token}
    (ht : t.kind ≠ .bracketOpen) : Refuses (listFor value) (t :: ts) :=
  Refuses.here_bind fun _ =>
    Triple.refuse (accepts_expect rfl (by decide)) (ofKind?_of_ne ht) trivial

section Splice

variable {splice : String → Location → Parser (Rewindable τ) Node}
  {included : String → Node → Prop}

theorem inclusion_refuses {ts : List Token}
    (h : ∀ specifier kinds, ts.map Token.kind ≠ (Value.inclusion specifier).kinds ++ kinds) :
    Refuses (inclusion splice) ts := by
  refine Refuses.read (accepts_expectIdentifier "import") ?_
  rintro t ts location rfl ht
  refine Refuses.read (accepts_expect rfl (by decide)) ?_
  rintro opening ts _ rfl hopening
  refine Refuses.read accepts_stringToken ?_
  rintro u ts ⟨specifier, _⟩ rfl hu
  refine Refuses.read (accepts_expect rfl (by decide)) ?_
  rintro closing ts _ rfl hclosing
  refine absurd ?_ (h specifier (ts.map Token.kind))
  simp [Value.kinds, kind_of_placeOf? ht, kind_of_ofKind? hopening, kind_of_contents? hu,
    kind_of_ofKind? hclosing]

theorem inclusion_refuses_cons {t : Token} {ts : List Token}
    (ht : t.kind ≠ .identifier "import") : Refuses (inclusion splice) (t :: ts) :=
  inclusion_refuses fun specifier kinds h => by
    simp [Value.kinds, ht] at h

theorem value_refuses {budget : Nat} {ts : List Token}
    (h : NextKind (fun kind => opensValue kind = false) ts) :
    Refuses (value splice (budget + 1)) ts := by
  obtain ⟨t, ts, rfl, ht⟩ := h
  have hname : ∀ name, t.kind ≠ .identifier name := fun name hkind => by
    simp [hkind, opensValue] at ht
  have hparen : t.kind ≠ .parenOpen := fun hkind => by simp [hkind, opensValue] at ht
  have hbracket : t.kind ≠ .bracketOpen := fun hkind => by simp [hkind, opensValue] at ht
  have hstring : contents? t = none := by
    unfold contents?
    split
    · rename_i text hkind
      simp [hkind, opensValue] at ht
    · rfl
  refine Refuses.firstOf (inclusion_refuses_cons (hname _)) ?_
  refine Refuses.firstOf (call_refuses hname) ?_
  refine Refuses.firstOf (object_refuses hname) ?_
  refine Refuses.firstOf (parenthesized_refuses hparen) ?_
  refine Refuses.firstOf (list_refuses hbracket) ?_
  refine Refuses.firstOf (listFor_refuses hbracket) ?_
  refine Triple.firstOf_all ?_
  intro q hq
  obtain rfl := List.mem_singleton.mp hq
  exact Triple.refuse accepts_stringToken hstring trivial

theorem object_append_ne_inclusion {path : Path} {rest : List Token}
    (hrest : NextKind Apart rest) (specifier : String) (kinds : List TokenKind) :
    path.kinds ++ rest.map Token.kind ≠ (Value.inclusion specifier).kinds ++ kinds := by
  obtain ⟨t, ts, rfl, -, hparen, -⟩ := hrest
  rcases path with ⟨name, attributes⟩
  cases attributes with
  | nil => simp [Path.kinds, attributeKinds, Value.kinds, hparen]
  | cons first others => simp [Path.kinds, attributeKinds, Value.kinds]

theorem Runs.certain {p : Parser (Rewindable τ) α} {ts rest : List Token} {shows : α → Prop}
    (h : Runs good p ts rest shows []) :
    Triple p none ts (fun a left => left = rest ∧ shows a) True fun _ => False :=
  Triple.mono h (fun _ _ ⟨hleft, ha, _⟩ => ⟨hleft, ha⟩) False.elim fun _ hbad => hbad (by simp)

theorem call_refuses_object {value : Parser (Rewindable τ) Node} {path : Path} {budget : Nat}
    {used rest : List Token} (hused : used.map Token.kind = path.kinds)
    (hrest : NextKind Apart rest) (hbudget : (used ++ rest).length < budget) :
    Refuses (call value budget) (used ++ rest) := by
  refine Refuses.here_bind fun _ => ?_
  have hobject : Runs (fun _ => True) (object budget : Parser (Rewindable τ) Node) (used ++ rest)
      rest path.HasTree [] := object_runs path hused (hrest.mono fun _ h => h.1) hbudget
  refine Triple.bind hobject.certain ?_
  rintro node _ ⟨rfl, -⟩
  obtain ⟨t, ts, rfl, -, hparen, -⟩ := hrest
  exact Triple.refuse (accepts_expect rfl (by decide)) (ofKind?_of_ne hparen) trivial

theorem value_runs_object {path : Path} {budget : Nat} {used rest : List Token}
    (hused : used.map Token.kind = path.kinds) (hrest : NextKind Apart rest)
    (hbudget : (used ++ rest).length < budget + 1) :
    Runs good (value splice (budget + 1)) (used ++ rest) rest path.HasTree [] := by
  refine Runs.skip (inclusion_refuses ?_) ?_
  · intro specifier kinds
    rw [List.map_append, hused]
    exact object_append_ne_inclusion hrest specifier kinds
  refine Runs.skip (call_refuses_object hused hrest hbudget) ?_
  exact Runs.first (object_runs path hused (hrest.mono fun _ h => h.1) hbudget)

theorem value_runs_parenthesized {path : Path} {budget : Nat} {used rest : List Token}
    (hused : used.map Token.kind = (Value.parenthesized path).kinds)
    (hbudget : (used ++ rest).length < budget + 1) :
    Runs good (value splice (budget + 1)) (used ++ rest) rest path.HasTree [] := by
  obtain ⟨opening, used, rfl, hopening, hused⟩ := List.map_eq_cons_iff.mp hused
  obtain ⟨inner, closing, rfl, hinner, hclosing⟩ := exists_closing hused
  simp only [List.cons_append, List.append_assoc, List.nil_append, List.length_cons]
    at hbudget ⊢
  have hname : ∀ name, opening.kind ≠ .identifier name := by simp [hopening]
  refine Runs.skip (inclusion_refuses_cons (hname _)) ?_
  refine Runs.skip (call_refuses hname) ?_
  refine Runs.skip (object_refuses hname) ?_
  refine Runs.first ?_
  refine Runs.step (accepts_expect rfl (by decide)) (ofKind?_of_eq hopening) ?_
  refine Runs.bind (object_runs path hinner ⟨closing, rest, rfl, by simp [hclosing]⟩ ?_)
    (fun node hnode => ?_) rfl
  · omega
  · exact Runs.step (accepts_expect rfl (by decide)) (ofKind?_of_eq hclosing) (Runs.pure hnode)

theorem value_runs_string {text : String} {budget : Nat} {t : Token} {rest : List Token}
    (ht : t.kind = .string text) :
    Runs good (value splice (budget + 1)) (t :: rest) rest
      ((Value.string text).HasTree included) [] := by
  have hname : ∀ name, t.kind ≠ .identifier name := by simp [ht]
  have hparen : t.kind ≠ .parenOpen := by simp [ht]
  have hbracket : t.kind ≠ .bracketOpen := by simp [ht]
  refine Runs.skip (inclusion_refuses_cons (hname _)) ?_
  refine Runs.skip (call_refuses hname) ?_
  refine Runs.skip (object_refuses hname) ?_
  refine Runs.skip (parenthesized_refuses hparen) ?_
  refine Runs.skip (list_refuses hbracket) ?_
  refine Runs.skip (listFor_refuses hbracket) ?_
  exact Runs.first (Runs.step accepts_stringToken (contents?_of_eq ht)
    (Runs.pure ⟨t.location, rfl⟩))

/-- Splicing reads no tokens, and stops just where a specifier is not good. -/
def Splices (good : String → Prop) (splice : String → Location → Parser (Rewindable τ) Node)
    (included : String → Node → Prop) : Prop :=
  ∀ specifier location ts,
    Runs good (splice specifier location) ts ts (included specifier) [specifier]

theorem value_runs_inclusion (hsplice : Splices good splice included) {specifier : String}
    {budget : Nat} {used rest : List Token}
    (hused : used.map Token.kind = (Value.inclusion specifier).kinds) :
    Runs good (value splice (budget + 1)) (used ++ rest) rest (included specifier)
      [specifier] := by
  obtain ⟨t, used, rfl, ht, hused⟩ := List.map_eq_cons_iff.mp hused
  obtain ⟨opening, used, rfl, hopening, hused⟩ := List.map_eq_cons_iff.mp hused
  obtain ⟨u, used, rfl, hu, hused⟩ := List.map_eq_cons_iff.mp hused
  obtain ⟨closing, rfl, hclosing⟩ := List.map_eq_singleton_iff.mp hused
  refine Runs.first ?_
  refine Runs.step (accepts_expectIdentifier "import") (placeOf?_of_eq ht) ?_
  refine Runs.step (accepts_expect rfl (by decide)) (ofKind?_of_eq hopening) ?_
  refine Runs.step accepts_stringToken (contents?_of_eq hu) ?_
  refine Runs.step (accepts_expect rfl (by decide)) (ofKind?_of_eq hclosing) ?_
  exact hsplice specifier t.location rest

/-- What is known of the arguments of a call once they are run, where `value`
is good for less than `bound` tokens. -/
def ArgumentsRun (good : String → Prop) (included : String → Node → Prop)
    (value : Parser (Rewindable τ) Node) (bound : Nat) (arguments : List Argument) : Prop :=
  ∀ count used rest, used.map Token.kind = argumentKinds arguments → NextKind Closing rest →
    (used ++ rest).length < bound → (used ++ rest).length < count →
    Runs good (many (argument value) count) (used ++ rest) rest
      (ArgumentsHaveTrees included arguments) (argumentSpecifiers arguments)

theorem call_runs {value : Parser (Rewindable τ) Node} {callee : Path}
    {arguments : List Argument} {bound budget : Nat} {used rest : List Token}
    (hused : used.map Token.kind = callKinds callee arguments)
    (hbudget : (used ++ rest).length < budget) (hbound : (used ++ rest).length < bound + 1)
    (harguments : ArgumentsRun good included value bound arguments) :
    Runs good (call value budget) (used ++ rest) rest
      (fun node => ∃ location object nodes, node = ⟨.call, location, none, object :: nodes⟩ ∧
        callee.HasTree object ∧ ArgumentsHaveTrees included arguments nodes)
      (argumentSpecifiers arguments) := by
  obtain ⟨usedCallee, used, rfl, hcallee, hused⟩ := List.map_eq_append_iff.mp hused
  obtain ⟨opening, used, rfl, hopening, hused⟩ := List.map_eq_cons_iff.mp hused
  obtain ⟨inner, closing, rfl, hinner, hclosing⟩ := exists_closing hused
  simp only [List.append_assoc, List.cons_append, List.nil_append] at hbudget hbound ⊢
  refine Runs.here_bind fun location => ?_
  refine Runs.bind (object_runs callee hcallee ⟨opening, _, rfl, by simp [hopening]⟩ hbudget)
    (fun object hobject => ?_) rfl
  refine Runs.step (accepts_expect rfl (by decide)) (ofKind?_of_eq hopening) ?_
  rw [List.length_append, List.length_cons] at hbudget hbound
  have hrun := harguments budget inner (closing :: rest) hinner
    ⟨closing, rest, rfl, .inr (.inl hclosing)⟩ (by omega) (by omega)
  refine Runs.bind hrun (fun nodes hnodes => ?_) (List.append_nil _).symm
  refine Runs.step (accepts_expect rfl (by decide)) (ofKind?_of_eq hclosing) ?_
  exact Runs.pure ⟨location, object, nodes, rfl, hobject, hnodes⟩

theorem value_runs_call {callee : Path} {arguments : List Argument} {budget : Nat}
    {used rest : List Token} (hused : used.map Token.kind = callKinds callee arguments)
    (hnot : inclusion? (callKinds callee arguments) = none)
    (hbudget : (used ++ rest).length < budget + 1)
    (harguments : ArgumentsRun good included (value splice budget) budget arguments) :
    Runs good (value splice (budget + 1)) (used ++ rest) rest
      ((Value.call callee arguments).HasTree included)
      ((Value.call callee arguments).specifiers) := by
  refine Runs.skip (inclusion_refuses ?_) ?_
  · intro specifier kinds
    rw [List.map_append, hused]
    exact callKinds_append_ne hnot _ specifier kinds
  · rw [Value.specifiers, hnot]
    exact Runs.first (call_runs hused hbudget hbudget harguments)

def EntriesRun (good : String → Prop) (included : String → Node → Prop)
    (value : Parser (Rewindable τ) Node) (bound : Nat) (entries : List Value) : Prop :=
  ∀ count used rest, used.map Token.kind = entryKinds entries → NextKind Closing rest →
    (used ++ rest).length < bound → (used ++ rest).length < count →
    Runs good (many value count) (used ++ rest) rest (EntriesHaveTrees included entries)
      (entrySpecifiers entries)

theorem value_runs_list {entries : List Value} {budget : Nat} {used rest : List Token}
    (hused : used.map Token.kind = (Value.list entries).kinds)
    (hbudget : (used ++ rest).length < budget + 1)
    (hentries : EntriesRun good included (value splice budget) budget entries) :
    Runs good (value splice (budget + 1)) (used ++ rest) rest
      ((Value.list entries).HasTree included) (entrySpecifiers entries) := by
  obtain ⟨opening, used, rfl, hopening, hused⟩ := List.map_eq_cons_iff.mp hused
  obtain ⟨inner, closing, rfl, hinner, hclosing⟩ := exists_closing hused
  simp only [List.cons_append, List.append_assoc, List.nil_append, List.length_cons]
    at hbudget ⊢
  have hname : ∀ name, opening.kind ≠ .identifier name := by simp [hopening]
  refine Runs.skip (inclusion_refuses_cons (hname _)) ?_
  refine Runs.skip (call_refuses hname) ?_
  refine Runs.skip (object_refuses hname) ?_
  refine Runs.skip (parenthesized_refuses (by simp [hopening])) ?_
  refine Runs.first (Runs.here_bind fun location => ?_)
  refine Runs.step (accepts_expect rfl (by decide)) (ofKind?_of_eq hopening) ?_
  have hrun := hentries (budget + 1) inner (closing :: rest) hinner
    ⟨closing, rest, rfl, .inl hclosing⟩ (by omega) (by omega)
  refine Runs.bind hrun (fun nodes hnodes => ?_) (List.append_nil _).symm
  refine Runs.step (accepts_expect rfl (by decide)) (ofKind?_of_eq hclosing) ?_
  exact Runs.pure ⟨location, nodes, rfl, hnodes⟩

/-- A comprehension is tried as a list first, which does not match once the
body is behind. -/
theorem list_refuses_body {budget : Nat} {opening forToken : Token} {ts rest : List Token}
    {shows : Node → Prop} {specifiers specifiers' : List String}
    (hopening : opening.kind = .bracketOpen) (hfor : forToken.kind = .forKeyword)
    (hbody : Runs good (value splice (budget + 1)) ts (forToken :: rest) shows specifiers) :
    Triple (list (value splice (budget + 1)) (budget + 2)) none (opening :: ts) (fun _ _ => False)
      True fun _ => ¬∀ s ∈ specifiers ++ specifiers', good s := by
  have hnil : Runs good (many (value splice (budget + 1)) (budget + 1)) (forToken :: rest) _ _ _ :=
    Runs.many_nil (value_refuses ⟨forToken, rest, rfl, Closing.opensValue (.inr (.inr hfor))⟩)
  have hmany := Runs.many_cons hbody hnil (List.append_nil _).symm
  refine Triple.here_bind (fun location => ?_) fun _ hfault => by cases hfault
  refine Triple.step (accepts_expect rfl (by decide)) (ofKind?_of_eq hopening) ?_
  refine Triple.bind ((Runs.first_of_all rfl hmany).mono (fun _ _ => id) False.elim
    fun _ => id) ?_
  rintro nodes _ ⟨rfl, -, -⟩
  exact Triple.refuse (accepts_expect rfl (by decide)) (ofKind?_of_ne (by simp [hfor])) trivial

/-- What is known of a value once it is run. An object on its own needs to be
followed by something that does not continue it. -/
def ValueRuns (good : String → Prop) (included : String → Node → Prop)
    (value : Parser (Rewindable τ) Node) (bound : Nat) (derived : Value) : Prop :=
  ∀ used rest, used.map Token.kind = derived.kinds →
    (derived.isBare = true → NextKind Apart rest) → (used ++ rest).length < bound →
    Runs good value (used ++ rest) rest (derived.HasTree included) derived.specifiers

theorem value_runs_listFor {body source : Value} {element : String} {budget : Nat}
    {used rest : List Token}
    (hused : used.map Token.kind = (Value.listFor body element source).kinds)
    (hbudget : (used ++ rest).length < budget + 1)
    (hbody : ValueRuns good included (value splice budget) budget body)
    (hsource : ValueRuns good included (value splice budget) budget source) :
    Runs good (value splice (budget + 1)) (used ++ rest) rest
      ((Value.listFor body element source).HasTree included)
      (body.specifiers ++ source.specifiers) := by
  obtain ⟨opening, used, rfl, hopening, hused⟩ := List.map_eq_cons_iff.mp hused
  obtain ⟨usedBody, used, rfl, hbodyKinds, hused⟩ := List.map_eq_append_iff.mp hused
  obtain ⟨forToken, used, rfl, hfor, hused⟩ := List.map_eq_cons_iff.mp hused
  obtain ⟨elementToken, used, rfl, helement, hused⟩ := List.map_eq_cons_iff.mp hused
  obtain ⟨inToken, used, rfl, hin, hused⟩ := List.map_eq_cons_iff.mp hused
  obtain ⟨usedSource, closing, rfl, hsourceKinds, hclosing⟩ := exists_closing hused
  simp only [List.cons_append, List.append_assoc, List.nil_append, List.length_cons,
    List.length_append] at hbudget ⊢
  have hname : ∀ name, opening.kind ≠ .identifier name := by simp [hopening]
  have hforClosing : Closing forToken.kind := .inr (.inr hfor)
  have hrunBody := hbody usedBody
    (forToken :: elementToken :: inToken :: (usedSource ++ closing :: rest)) hbodyKinds
    (fun _ => ⟨forToken, _, rfl, hforClosing.apart⟩)
    (by simp only [List.length_append, List.length_cons]; omega)
  have hrunSource := hsource usedSource (closing :: rest) hsourceKinds
    (fun _ => ⟨closing, rest, rfl, Closing.apart (.inl hclosing)⟩)
    (by simp only [List.length_append, List.length_cons]; omega)
  refine Runs.skip (inclusion_refuses_cons (hname _)) ?_
  refine Runs.skip (call_refuses hname) ?_
  refine Runs.skip (object_refuses hname) ?_
  refine Runs.skip (parenthesized_refuses (by simp [hopening])) ?_
  obtain ⟨bound, rfl⟩ := Nat.exists_eq_succ_of_ne_zero
    (Nat.ne_zero_of_lt (Nat.lt_of_succ_lt_succ hbudget))
  refine Triple.firstOf_skip (list_refuses_body hopening hfor hrunBody) ?_
  refine Runs.first (Runs.here_bind fun location => ?_)
  refine Runs.step (accepts_expect rfl (by decide)) (ofKind?_of_eq hopening) ?_
  refine Runs.bind hrunBody (fun bodyNode hbodyNode => ?_) rfl
  refine Runs.step (accepts_expect rfl (by decide)) (ofKind?_of_eq hfor) ?_
  refine Runs.step (accepts_identifier.map _) (by rw [name?_of_eq helement]; rfl) ?_
  refine Runs.step (accepts_expect rfl (by decide)) (ofKind?_of_eq hin) ?_
  refine Runs.bind hrunSource (fun sourceNode hsourceNode => ?_) (List.append_nil _).symm
  refine Runs.step (accepts_expect rfl (by decide)) (ofKind?_of_eq hclosing) ?_
  exact Runs.pure ⟨location, elementToken.location, bodyNode, sourceNode, rfl, hbodyNode,
    hsourceNode⟩

theorem keywordArgument_refuses {value : Parser (Rewindable τ) Node} {ts : List Token}
    (h : ∀ name kinds, ts.map Token.kind ≠ .identifier name :: .assign :: kinds) :
    Refuses (keywordArgument value) ts := by
  refine Refuses.read accepts_identifier ?_
  rintro t ts ⟨name, location⟩ rfl ht
  refine Refuses.read (accepts_expect rfl (by decide)) ?_
  rintro u ts _ rfl hu
  refine absurd ?_ (h name (ts.map Token.kind))
  simp [kind_of_name? ht, kind_of_ofKind? hu]

theorem path_append_ne_keyword {path : Path} {kind : TokenKind} (hkind : kind ≠ .assign)
    (rest : List TokenKind) (name : String) (kinds : List TokenKind) :
    path.kinds ++ kind :: rest ≠ .identifier name :: .assign :: kinds := by
  rcases path with ⟨first, attributes⟩
  cases attributes with
  | nil => simp [Path.kinds, attributeKinds, hkind]
  | cons second others => simp [Path.kinds, attributeKinds]

theorem value_append_ne_keyword {derived : Value} {rest : List Token}
    (hrest : derived.isBare = true → NextKind Apart rest) (name : String)
    (kinds : List TokenKind) :
    derived.kinds ++ rest.map Token.kind ≠ .identifier name :: .assign :: kinds := by
  cases derived with
  | object path =>
      obtain ⟨t, ts, rfl, -, -, hassign⟩ := hrest rfl
      exact path_append_ne_keyword hassign _ name kinds
  | call callee arguments =>
      rw [Value.kinds, List.append_assoc]
      exact path_append_ne_keyword (by decide) _ name kinds
  | _ => simp [Value.kinds]

theorem argument_runs {value : Parser (Rewindable τ) Node} {bound : Nat} {derived : Argument}
    {used rest : List Token} (hvalue : ValueRuns good included value bound derived.value)
    (hused : used.map Token.kind = derived.kinds)
    (hrest : derived.isBare = true → NextKind Apart rest)
    (hbound : (used ++ rest).length < bound) :
    Runs good (argument value) (used ++ rest) rest (derived.HasTree included)
      derived.specifiers := by
  cases derived with
  | keyword name derived =>
      obtain ⟨t, used, rfl, ht, hused⟩ := List.map_eq_cons_iff.mp hused
      obtain ⟨u, used, rfl, hu, hused⟩ := List.map_eq_cons_iff.mp hused
      simp only [List.cons_append, List.length_cons] at hbound
      refine Runs.first (Runs.step accepts_identifier (name?_of_eq ht) ?_)
      refine Runs.step (accepts_expect rfl (by decide)) (ofKind?_of_eq hu) ?_
      refine Runs.bind (hvalue used rest hused hrest (by omega)) (fun node hnode => ?_)
        (List.append_nil _).symm
      exact Runs.pure ⟨t.location, node, rfl, hnode⟩
  | positional derived =>
      refine Runs.skip (keywordArgument_refuses ?_) ?_
      · intro name kinds
        rw [List.map_append, hused]
        exact value_append_ne_keyword hrest name kinds
      · exact Runs.first (hvalue used rest hused hrest hbound)

theorem nextKind_of_items {kinds : List TokenKind} {used rest : List Token}
    (hused : used.map Token.kind = kinds) (hrest : NextKind Apart rest)
    (hkinds : ∀ kind ∈ kinds.head?, opensValue kind = true ∧ kind ≠ .parenOpen) :
    NextKind Apart (used ++ rest) := by
  cases used with
  | nil => exact hrest
  | cons t used =>
      obtain ⟨hopens, hparen⟩ := hkinds t.kind (by rw [← hused]; rfl)
      refine ⟨t, used ++ rest, rfl, ?_, hparen, ?_⟩
      · rintro hdot
        rw [hdot] at hopens
        cases hopens
      · rintro hassign
        rw [hassign] at hopens
        cases hopens

theorem entries_head {values : List Value}
    (h : ∀ next ∈ values.head?, next.isParenthesized = false) :
    ∀ kind ∈ (entryKinds values).head?, opensValue kind = true ∧ kind ≠ .parenOpen := by
  cases values with
  | nil => simp [entryKinds]
  | cons value values =>
      obtain ⟨kind, kinds, hkinds, hopens, hparen⟩ := value.kinds_eq_cons
      simpa [entryKinds, hkinds] using ⟨hopens, hparen (h value (by simp))⟩

theorem arguments_head {arguments : List Argument}
    (h : ∀ next ∈ arguments.head?, next.isParenthesized = false) :
    ∀ kind ∈ (argumentKinds arguments).head?, opensValue kind = true ∧ kind ≠ .parenOpen := by
  cases arguments with
  | nil => simp [argumentKinds]
  | cons argument arguments =>
      obtain ⟨kind, kinds, hkinds, hopens, hparen⟩ := argument.kinds_eq_cons
      simpa [argumentKinds, hkinds] using ⟨hopens, hparen (h argument (by simp))⟩

theorem argument_refuses {budget : Nat} {ts : List Token}
    (h : NextKind (fun kind => opensValue kind = false) ts) :
    Refuses (argument (value splice (budget + 1))) ts := by
  refine Refuses.firstOf (keywordArgument_refuses ?_) ?_
  · rintro name kinds hkinds
    obtain ⟨t, ts, rfl, ht⟩ := h
    obtain ⟨hkind, -⟩ := List.cons.inj hkinds
    rw [hkind] at ht
    cases ht
  · refine Triple.firstOf_all ?_
    intro q hq
    obtain rfl := List.mem_singleton.mp hq
    exact value_refuses h

theorem entries_run_nil {budget : Nat} :
    EntriesRun good included (value splice budget) budget [] := by
  intro count used rest hused hrest hbudget hcount
  obtain rfl := List.map_eq_nil_iff.mp hused
  obtain ⟨budget, rfl⟩ := Nat.exists_eq_succ_of_ne_zero (Nat.ne_zero_of_lt hbudget)
  obtain ⟨count, rfl⟩ := Nat.exists_eq_succ_of_ne_zero (Nat.ne_zero_of_lt hcount)
  exact Runs.many_nil (value_refuses (hrest.mono fun _ => Closing.opensValue))

theorem entries_run_cons {first : Value} {others : List Value} {budget : Nat}
    (hpreferred : PreferredEntries (first :: others))
    (hfirst : ValueRuns good included (value splice budget) budget first)
    (hothers : EntriesRun good included (value splice budget) budget others) :
    EntriesRun good included (value splice budget) budget (first :: others) := by
  intro count used rest hused hrest hbudget hcount
  obtain ⟨count, rfl⟩ := Nat.exists_eq_succ_of_ne_zero (Nat.ne_zero_of_lt hcount)
  obtain ⟨usedFirst, usedOthers, rfl, hkindsFirst, hkindsOthers, hfits, hbudget, hcount⟩ :=
    exists_items hused first.kinds_ne_nil hbudget hcount
  rw [List.append_assoc]
  refine (Runs.many_cons (hfirst usedFirst (usedOthers ++ rest) hkindsFirst (fun hbare => ?_) hfits)
    (hothers count usedOthers rest hkindsOthers hrest hbudget hcount) rfl).mono ?_
  · exact nextKind_of_items hkindsOthers (hrest.mono fun _ => Closing.apart)
      (entries_head (hpreferred.2.2 hbare))
  · rintro nodes ⟨node, nodes, rfl, hnode, hnodes⟩
    exact ⟨node, nodes, rfl, hnode, hnodes⟩

theorem arguments_run_nil {budget : Nat} :
    ArgumentsRun good included (value splice budget) budget [] := by
  intro count used rest hused hrest hbudget hcount
  obtain rfl := List.map_eq_nil_iff.mp hused
  obtain ⟨budget, rfl⟩ := Nat.exists_eq_succ_of_ne_zero (Nat.ne_zero_of_lt hbudget)
  obtain ⟨count, rfl⟩ := Nat.exists_eq_succ_of_ne_zero (Nat.ne_zero_of_lt hcount)
  exact Runs.many_nil (argument_refuses (hrest.mono fun _ => Closing.opensValue))

theorem arguments_run_cons {first : Argument} {others : List Argument} {budget : Nat}
    (hpreferred : PreferredArguments (first :: others))
    (hfirst : ValueRuns good included (value splice budget) budget first.value)
    (hothers : ArgumentsRun good included (value splice budget) budget others) :
    ArgumentsRun good included (value splice budget) budget (first :: others) := by
  intro count used rest hused hrest hbudget hcount
  obtain ⟨count, rfl⟩ := Nat.exists_eq_succ_of_ne_zero (Nat.ne_zero_of_lt hcount)
  obtain ⟨usedFirst, usedOthers, rfl, hkindsFirst, hkindsOthers, hfits, hbudget, hcount⟩ :=
    exists_items hused first.kinds_ne_nil hbudget hcount
  rw [List.append_assoc]
  refine (Runs.many_cons (argument_runs hfirst hkindsFirst (fun hbare => ?_) hfits)
    (hothers count usedOthers rest hkindsOthers hrest hbudget hcount) rfl).mono ?_
  · exact nextKind_of_items hkindsOthers (hrest.mono fun _ => Closing.apart)
      (arguments_head (hpreferred.2.2 hbare))
  · rintro nodes ⟨node, nodes, rfl, hnode, hnodes⟩
    exact ⟨node, nodes, rfl, hnode, hnodes⟩

mutual

/-- Every preferred value is run as it was derived. -/
theorem value_runs (hsplice : Splices good splice included) :
    ∀ (derived : Value) (budget : Nat), derived.Preferred →
      ValueRuns good included (value splice budget) budget derived
  | derived, 0, _ => fun _ _ _ _ hbudget => absurd hbudget (Nat.not_lt_zero _)
  | .inclusion specifier, budget + 1, _ => fun _ _ hused _ _ =>
      value_runs_inclusion hsplice hused
  | .call callee arguments, budget + 1, ⟨hnot, hpreferred⟩ => fun _ _ hused _ hbudget =>
      value_runs_call hused hnot hbudget
        (arguments_run hsplice arguments budget hpreferred)
  | .object path, budget + 1, _ => fun _ _ hused hrest hbudget =>
      value_runs_object hused (hrest rfl) hbudget
  | .parenthesized path, budget + 1, _ => fun _ _ hused _ hbudget =>
      value_runs_parenthesized hused hbudget
  | .list entries, budget + 1, hpreferred => fun _ _ hused _ hbudget =>
      value_runs_list hused hbudget
        (entries_run hsplice entries budget hpreferred)
  | .listFor body element source, budget + 1, ⟨hbody, hsource⟩ => fun _ _ hused _ hbudget =>
      value_runs_listFor hused hbudget (value_runs hsplice body budget hbody)
        (value_runs hsplice source budget hsource)
  | .string text, budget + 1, _ => fun _ _ hused _ _ => by
      obtain ⟨t, rfl, ht⟩ := List.map_eq_singleton_iff.mp hused
      exact value_runs_string ht

theorem entries_run (hsplice : Splices good splice included) :
    ∀ (entries : List Value) (budget : Nat), PreferredEntries entries →
      EntriesRun good included (value splice budget) budget entries
  | [], _, _ => entries_run_nil
  | first :: others, budget, hpreferred =>
      entries_run_cons hpreferred (value_runs hsplice first budget hpreferred.1)
        (entries_run hsplice others budget hpreferred.2.1)

theorem arguments_run (hsplice : Splices good splice included) :
    ∀ (arguments : List Argument) (budget : Nat), PreferredArguments arguments →
      ArgumentsRun good included (value splice budget) budget arguments
  | [], _, _ => arguments_run_nil
  | .keyword _ first :: others, budget, hpreferred =>
      arguments_run_cons hpreferred (value_runs hsplice first budget hpreferred.1)
        (arguments_run hsplice others budget hpreferred.2.1)
  | .positional first :: others, budget, hpreferred =>
      arguments_run_cons hpreferred (value_runs hsplice first budget hpreferred.1)
        (arguments_run hsplice others budget hpreferred.2.1)

end

end Splice

end BuildScript.Grammar
