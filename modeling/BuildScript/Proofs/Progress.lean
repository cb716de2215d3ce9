import BuildScript.Proofs.ParallelLoading
import BuildScript.Proofs.Acceptance

namespace BuildScript.Grammar

open BuildScript.Parser

variable {τ : Type} [TokenStream τ] {α β : Type} {P : List Token → Prop}
  {fault : Option LexError} {ts : List Token}

/-- At most `n` tokens, fit to be read wherever one is among them. -/
def Within (P : List Token → Prop) (n : Nat) (ts : List Token) : Prop :=
  ts.length ≤ n ∧ ∀ rest, rest <:+ ts → P rest

theorem Within.here {n : Nat} (h : Within P n ts) : P ts := h.2 ts (List.suffix_refl ts)

theorem Within.tail {n : Nat} {t : Token} (h : Within P n (t :: ts)) : ∃ k < n, Within P k ts := by
  obtain ⟨hlength, hall⟩ := h
  rw [List.length_cons] at hlength
  exact ⟨n - 1, by omega, by omega, fun rest hrest =>
    hall rest (hrest.trans (List.suffix_cons t ts))⟩

/-- A parser that takes a token when it matches, and does not run out of its
budget before fewer than `n` tokens. -/
def Advances (P : List Token → Prop) (n : Nat) (p : Parser (Rewindable τ) α) : Prop :=
  ∀ m < n, ∀ fault ts, Within P m ts →
    Triple p fault ts (fun _ rest => ∃ k < m, Within P k rest) True (· ≠ .exhausted)

theorem advance_read {m : Nat} {p : Parser (Rewindable τ) α} {f : Token → Option α}
    {g : α → Parser (Rewindable τ) β} {R : β → List Token → Prop} (hp : Accepts p f)
    (hts : Within P m ts)
    (h : ∀ t a k rest, ts = t :: rest → f t = some a → k < m → Within P k rest →
      Triple (g a) fault rest R True (· ≠ .exhausted)) :
    Triple (p >>= g) fault ts R True (· ≠ .exhausted) := by
  have hone : Triple p fault ts (fun a rest => ∃ t, ts = t :: rest ∧ f t = some a) _
      (· ≠ .exhausted) := Triple.one hp fun _ _ _ => by simp
  refine Triple.bind (hone.mono (fun _ _ => id) (fun _ => trivial) fun _ => id) ?_
  rintro a rest ⟨t, rfl, ha⟩
  obtain ⟨k, hk, hrest⟩ := hts.tail
  exact h t a k rest rfl ha hk hrest

theorem advance_here {g : Location → Parser (Rewindable τ) β} {R : β → List Token → Prop}
    (h : ∀ location, Triple (g location) fault ts R True (· ≠ .exhausted)) :
    Triple (here >>= g) fault ts R True (· ≠ .exhausted) :=
  Triple.here_bind h fun _ _ _ => by simp

theorem advance_last {m n : Nat} {kind : TokenKind} {a : α} (h : kind.payload = none)
    (hend : kind ≠ .endOfStream) (hm : m ≤ n) (hts : Within P m ts) :
    Triple (do let _ ← expect kind; return a : Parser (Rewindable τ) α) fault ts
      (fun _ rest => ∃ k < n, Within P k rest) True (· ≠ .exhausted) := by
  refine advance_read (accepts_expect h hend) hts fun _ _ k rest _ _ hk hrest => ?_
  exact Triple.pure ⟨k, by omega, hrest⟩

/-- A repetition ends, since each item takes a token. -/
theorem many_advances {n m budget : Nat} {p : Parser (Rewindable τ) α} (hp : Advances P n p)
    (hm : m < n) (hbudget : m < budget) (hts : Within P m ts) :
    Triple (many p budget) fault ts (fun _ rest => ∃ k ≤ m, Within P k rest) False
      (· ≠ .exhausted) := by
  induction budget generalizing m ts with
  | zero => omega
  | succ budget ih =>
      refine Triple.optional_bind (hp m hm fault ts hts) ?_ fun _ => ?_
      · rintro a mid ⟨k, hk, hmid⟩
        refine Triple.bind (ih (by omega) (by omega) hmid) ?_
        rintro as rest ⟨j, hj, hrest⟩
        exact Triple.pure ⟨j, by omega, hrest⟩
      · exact Triple.pure ⟨m, Nat.le_refl m, hts⟩

theorem attributes_advances {m budget : Nat} (owner : Node) (hbudget : m < budget)
    (hts : Within P m ts) :
    Triple (attributes owner budget : Parser (Rewindable τ) Node) fault ts
      (fun _ rest => ∃ k ≤ m, Within P k rest) True (· ≠ .exhausted) := by
  induction budget generalizing owner m ts with
  | zero => omega
  | succ budget ih =>
      have hdot : Triple (expect .dot : Parser (Rewindable τ) Token) fault ts
          (fun a rest => ∃ t, ts = t :: rest ∧ ofKind? .dot t = some a) _ (· ≠ .exhausted) :=
        Triple.one (accepts_expect rfl (by decide)) fun _ _ _ => by simp
      refine Triple.optional_bind hdot ?_ fun _ => Triple.pure ⟨m, Nat.le_refl m, hts⟩
      rintro _ mid ⟨dot, rfl, -⟩
      obtain ⟨k, hk, hmid⟩ := hts.tail
      refine advance_read accepts_identifier hmid fun _ name j rest _ _ hj hrest => ?_
      refine (ih _ (by omega) hrest).mono ?_ id fun _ => id
      rintro node rest' ⟨i, hi, hrest'⟩
      exact ⟨i, by omega, hrest'⟩

theorem object_advances (n : Nat) : Advances P n (object n : Parser (Rewindable τ) Node) := by
  intro m hm fault ts hts
  refine advance_read accepts_identifier hts fun _ _ k rest _ _ hk hrest => ?_
  refine (attributes_advances _ (by omega) hrest).mono ?_ id fun _ => id
  rintro node rest' ⟨j, hj, hrest'⟩
  exact ⟨j, by omega, hrest'⟩

theorem binder_advances (n : Nat) : Advances P n (binder : Parser (Rewindable τ) Node) := by
  intro m _ fault ts hts
  refine advance_read accepts_identifier hts fun _ _ k rest _ _ hk hrest => ?_
  exact Triple.pure ⟨k, hk, hrest⟩

theorem stringLiteral_advances (n : Nat) :
    Advances P n (stringLiteral : Parser (Rewindable τ) Node) := by
  intro m _ fault ts hts
  refine advance_read accepts_stringToken hts fun _ _ k rest _ _ hk hrest => ?_
  exact Triple.pure ⟨k, hk, hrest⟩

theorem parenthesized_advances (n : Nat) :
    Advances P n (parenthesized n : Parser (Rewindable τ) Node) := by
  intro m hm fault ts hts
  refine advance_read (accepts_expect rfl (by decide)) hts fun _ _ k mid _ _ hk hmid => ?_
  refine Triple.bind (object_advances n k (by omega) fault mid hmid) ?_
  rintro node rest ⟨j, hj, hrest⟩
  exact advance_last rfl (by decide) (by omega) hrest

variable {value : Parser (Rewindable τ) Node}

/-- Below, values are read with a smaller budget than what is around them, for
something is read before them. -/
theorem list_advances {n budget : Nat} (hvalue : Advances P n value) (hbudget : budget ≤ n + 1) :
    Advances P budget (list value budget) := by
  intro m hm fault ts hts
  refine advance_here fun location => ?_
  refine advance_read (accepts_expect rfl (by decide)) hts fun _ _ k mid _ _ hk hmid => ?_
  refine Triple.bind ((many_advances hvalue (by omega) (by omega) hmid).mono (fun _ _ => id)
    False.elim fun _ => id) ?_
  rintro nodes rest ⟨j, hj, hrest⟩
  exact advance_last rfl (by decide) (by omega) hrest

theorem listFor_advances {n budget : Nat} (hvalue : Advances P n value)
    (hbudget : budget ≤ n + 1) : Advances P budget (listFor value) := by
  intro m hm fault ts hts
  refine advance_here fun location => ?_
  refine advance_read (accepts_expect rfl (by decide)) hts fun _ _ k₁ ts₁ _ _ hk₁ hts₁ => ?_
  refine Triple.bind (hvalue k₁ (by omega) fault ts₁ hts₁) ?_
  rintro body ts₂ ⟨k₂, hk₂, hts₂⟩
  refine advance_read (accepts_expect rfl (by decide)) hts₂ fun _ _ k₃ ts₃ _ _ hk₃ hts₃ => ?_
  refine Triple.bind (binder_advances n k₃ (by omega) fault ts₃ hts₃) ?_
  rintro element ts₄ ⟨k₄, hk₄, hts₄⟩
  refine advance_read (accepts_expect rfl (by decide)) hts₄ fun _ _ k₅ ts₅ _ _ hk₅ hts₅ => ?_
  refine Triple.bind (hvalue k₅ (by omega) fault ts₅ hts₅) ?_
  rintro source ts₆ ⟨k₆, hk₆, hts₆⟩
  exact advance_last rfl (by decide) (by omega) hts₆

theorem keywordArgument_advances {n : Nat} (hvalue : Advances P n value) :
    Advances P n (keywordArgument value) := by
  intro m hm fault ts hts
  refine advance_read accepts_identifier hts fun _ _ k mid _ _ hk hmid => ?_
  refine advance_read (accepts_expect rfl (by decide)) hmid fun _ _ j rest _ _ hj hrest => ?_
  refine Triple.bind (hvalue j (by omega) fault rest hrest) ?_
  rintro node rest' ⟨i, hi, hrest'⟩
  exact Triple.pure ⟨i, by omega, hrest'⟩

theorem argument_advances {n : Nat} (hvalue : Advances P n value) :
    Advances P n (argument value) := by
  intro m hm fault ts hts
  refine Triple.firstOf_all ?_
  intro q hq
  simp only [List.mem_cons, List.not_mem_nil, or_false] at hq
  rcases hq with rfl | rfl
  · exact keywordArgument_advances hvalue m hm fault ts hts
  · exact hvalue m hm fault ts hts

theorem call_advances {n budget : Nat} (hvalue : Advances P n value) (hbudget : budget ≤ n + 1) :
    Advances P budget (call value budget) := by
  intro m hm fault ts hts
  refine advance_here fun location => ?_
  refine Triple.bind (object_advances budget m (by omega) fault ts hts) ?_
  rintro callee mid ⟨k, hk, hmid⟩
  refine advance_read (accepts_expect rfl (by decide)) hmid fun _ _ j ts₁ _ _ hj hts₁ => ?_
  refine Triple.bind ((many_advances (argument_advances hvalue) (by omega) (by omega) hts₁).mono
    (fun _ _ => id) False.elim fun _ => id) ?_
  rintro nodes rest ⟨i, hi, hrest⟩
  exact advance_last rfl (by decide) (by omega) hrest

variable {splice : String → Location → Parser (Rewindable τ) Node}

def InclusionBegins (specifier : String) (ts : List Token) : Prop :=
  ∃ word opening text closing rest, ts = word :: opening :: text :: closing :: rest ∧
    word.kind = .identifier "import" ∧ opening.kind = .parenOpen ∧
    text.kind = .string specifier ∧ closing.kind = .parenClose

/-- A way to splice trees in that reads nothing and does not run out, for the
inclusions that begin where it is fit to read. -/
def SplicesFit (P : List Token → Prop)
    (splice : String → Location → Parser (Rewindable τ) Node) : Prop :=
  ∀ specifier location fault begun ts, P begun → InclusionBegins specifier begun →
    Triple (splice specifier location) fault ts (fun _ rest => rest = ts) True (· ≠ .exhausted)

theorem inclusion_advances (hsplice : SplicesFit P splice) (n : Nat) :
    Advances P n (inclusion splice) := by
  intro m hm fault ts hts
  refine advance_read (accepts_expectIdentifier "import") hts ?_
  rintro word location k₁ ts₁ hword hplace hk₁ hts₁
  refine advance_read (accepts_expect rfl (by decide)) hts₁ ?_
  rintro opening _ k₂ ts₂ hopening hparen hk₂ hts₂
  refine advance_read accepts_stringToken hts₂ ?_
  rintro text ⟨specifier, place⟩ k₃ ts₃ htext hspecifier hk₃ hts₃
  refine advance_read (accepts_expect rfl (by decide)) hts₃ ?_
  rintro closing _ k₄ ts₄ hclosing hparen' hk₄ hts₄
  have hbegins : InclusionBegins specifier ts := by
    refine ⟨word, opening, text, closing, ts₄, by rw [hword, hopening, htext, hclosing], ?_⟩
    exact ⟨kind_of_placeOf? hplace, kind_of_ofKind? hparen, kind_of_contents? hspecifier,
      kind_of_ofKind? hparen'⟩
  refine (hsplice specifier location fault ts ts₄ hts.here hbegins).mono ?_ id fun _ => id
  rintro node rest rfl
  exact ⟨k₄, by omega, hts₄⟩

theorem value_advances (hsplice : SplicesFit P splice) (n : Nat) :
    Advances P n (Grammar.value splice n) := by
  induction n with
  | zero => exact fun m hm => by omega
  | succ n ih =>
      intro m hm fault ts hts
      refine Triple.firstOf_all ?_
      intro q hq
      simp only [List.mem_cons, List.not_mem_nil, or_false] at hq
      rcases hq with rfl | rfl | rfl | rfl | rfl | rfl | rfl
      · exact inclusion_advances hsplice (n + 1) m hm fault ts hts
      · exact call_advances ih (Nat.le_refl _) m hm fault ts hts
      · exact object_advances (n + 1) m hm fault ts hts
      · exact parenthesized_advances (n + 1) m hm fault ts hts
      · exact list_advances ih (Nat.le_refl _) m hm fault ts hts
      · exact listFor_advances ih (Nat.le_refl _) m hm fault ts hts
      · exact stringLiteral_advances (n + 1) m hm fault ts hts

theorem assignment_advances {n : Nat} (hvalue : Advances P n value) :
    Advances P n (assignment value) := by
  intro m hm fault ts hts
  refine advance_here fun location => ?_
  refine Triple.bind (binder_advances n m hm fault ts hts) ?_
  rintro target mid ⟨k, hk, hmid⟩
  refine advance_read (accepts_expect rfl (by decide)) hmid fun _ _ j rest _ _ hj hrest => ?_
  refine Triple.bind (hvalue j (by omega) fault rest hrest) ?_
  rintro node rest' ⟨i, hi, hrest'⟩
  exact Triple.pure ⟨i, by omega, hrest'⟩

theorem statement_advances {n : Nat} (hvalue : Advances P n value) :
    Advances P n (statement value n) := by
  intro m hm fault ts hts
  refine Triple.firstOf_all ?_
  intro q hq
  simp only [List.mem_cons, List.not_mem_nil, or_false] at hq
  rcases hq with rfl | rfl
  · exact assignment_advances hvalue m hm fault ts hts
  · exact call_advances hvalue (Nat.le_succ n) m hm fault ts hts

/-- A program of fewer tokens than its budget does not run out. -/
theorem program_advances {n m : Nat} (hvalue : Advances P n value) (hm : m < n)
    (hts : Within P m ts) :
    Triple (program value n) fault ts (fun _ _ => True) False (· ≠ .exhausted) := by
  refine Triple.here_bind (fun location => ?_) fun _ _ _ => by simp
  refine Triple.bind (many_advances (statement_advances hvalue) hm hm hts) fun nodes rest _ => ?_
  refine Triple.bind (Q := fun _ _ => True) (Triple.peek (fun _ _ _ => trivial)
    fun _ _ _ => by simp) fun token _ _ => ?_
  by_cases hend : token.isEnd = true
  · rw [if_pos hend]
    exact Triple.pure trivial
  · rw [if_neg hend]
    exact Triple.throw_fatal (by simp)

end BuildScript.Grammar

namespace BuildScript

open BuildScript.Parser BuildScript.Grammar

variable {resolve : String → Resolution} {depth : Nat} {source : Source}

/-- One source can import another one: a string among its tokens stands for
it. -/
def Imports (resolve : String → Resolution) (imported source : Source) : Prop :=
  ∃ token ∈ source.scan.1, ∃ specifier, token.kind = .string specifier ∧
    resolve specifier = .program imported

/-- One source includes another one: somewhere among its tokens an inclusion
begins whose specifier stands for it. -/
def Includes (resolve : String → Resolution) (included source : Source) : Prop :=
  ∃ ts, ts <:+ source.scan.1 ∧ ∃ specifier, InclusionBegins specifier ts ∧
    resolve specifier = .program included

theorem Includes.imports {found : Source} (h : Includes resolve found source) :
    Imports resolve found source := by
  obtain ⟨_, hsuffix, specifier, ⟨_, _, text, _, _, rfl, -, -, htext, -⟩, hresolve⟩ := h
  exact ⟨text, hsuffix.subset (by simp), specifier, htext, hresolve⟩

/-- Loading does not run out of depth, whatever the journal. -/
def Finishes (resolve : String → Resolution) (depth : Nat) (source : Source) : Prop :=
  ∀ journal, outcome (load resolve depth source journal) ≠ .error .exhausted

theorem Finishes.mono {depth' : Nat} (h : Finishes resolve depth source) (hdepth : depth ≤ depth') :
    Finishes resolve depth' source := by
  intro journal hspent
  rcases load_stable resolve hdepth source journal journal with hearlier | hsame
  · exact h journal hearlier
  · exact h journal (hsame.trans hspent)

/-- It is fit to read where no inclusion begins, or one of a source that can be
loaded to the end. -/
def IsFit (resolve : String → Resolution) (depth : Nat) (ts : List Token) : Prop :=
  ∀ specifier, InclusionBegins specifier ts → ∀ found, resolve specifier = .program found →
    Finishes resolve depth found

theorem splice_splicesFit (resolve : String → Resolution) (depth : Nat) :
    SplicesFit (IsFit resolve depth)
      (splice resolve (load resolve depth) :
        String → Location → Parser (Rewindable Lexer) Node) := by
  intro specifier location fault begun ts hfit hbegins
  refine (splice_triple (Q := fun _ => True) ?_ ?_ ?_ ?_).mono (fun _ _ h => h.1) id fun _ => id
  · exact fun _ _ _ _ _ _ => trivial
  · exact fun _ _ _ _ _ _ => trivial
  · rintro found journal failure journal' hresolve hload rfl
    exact hfit specifier hbegins found hresolve journal
      (outcome_eq_error_iff.mpr ⟨journal', hload⟩)
  · simp

theorem finishes_succ (h : ∀ found, Includes resolve found source → Finishes resolve depth found) :
    Finishes resolve (depth + 1) source := by
  have hfit : ∀ rest, rest <:+ source.scan.1 → IsFit resolve depth rest :=
    fun rest hrest specifier hbegins found hresolve =>
      h found ⟨rest, hrest, specifier, hbegins, hresolve⟩
  intro journal hspent
  have hvalue := value_advances (splice_splicesFit resolve depth) source.budget
  have hprogram : Triple (reading resolve depth source) source.scan.2 source.scan.1
      (fun _ _ => True) False (· ≠ .exhausted) :=
    program_advances hvalue source.length_scan_lt ⟨Nat.le_refl _, hfit⟩
  rcases load_of_triple rfl hprogram journal with
    ⟨node, journal', -, hload, -⟩ | ⟨failure, journal', hload, -, hfailure⟩
  · rw [hload] at hspent
    cases hspent
  · rw [hload] at hspent
    cases hspent
    exact hfailure rfl

/-- The sources that a source can import, one for each string that stands for
one. -/
def Source.imported (resolve : String → Resolution) (source : Source) : List Source :=
  source.scan.1.filterMap fun token => do
    let (specifier, _) ← contents? token
    match resolve specifier with
    | .program found => some found
    | _ => none

theorem Source.mem_imported_iff {found : Source} :
    found ∈ source.imported resolve ↔ Imports resolve found source := by
  simp only [Source.imported, List.mem_filterMap, Option.bind_eq_bind, Option.bind_eq_some_iff]
  constructor
  · rintro ⟨token, htoken, ⟨specifier, location⟩, hcontents, hfound⟩
    refine ⟨token, htoken, specifier, kind_of_contents? hcontents, ?_⟩
    split at hfound
    · rename_i hresolve
      cases hfound
      exact hresolve
    · cases hfound
  · rintro ⟨token, htoken, specifier, hkind, hresolve⟩
    exact ⟨token, htoken, _, contents?_of_eq hkind, by simp only [hresolve]⟩

/-- Imports nest at most `n` deep below a source, the source itself included. -/
def NestsWithin (resolve : String → Resolution) : (n : Nat) → Source → Prop
  | 0, _ => False
  | n + 1, source => ∀ found, Imports resolve found source → NestsWithin resolve n found

instance NestsWithin.decidable (resolve : String → Resolution) :
    (n : Nat) → (source : Source) → Decidable (NestsWithin resolve n source)
  | 0, _ => .isFalse id
  | n + 1, source =>
      have := NestsWithin.decidable resolve n
      decidable_of_iff (∀ found ∈ source.imported resolve, NestsWithin resolve n found)
        (forall_congr' fun _ => imp_congr_left Source.mem_imported_iff)

theorem NestsWithin.mono {n m : Nat} (h : NestsWithin resolve n source) (hle : n ≤ m) :
    NestsWithin resolve m source := by
  induction n generalizing m source with
  | zero => exact h.elim
  | succ n ih =>
      obtain ⟨m, rfl⟩ := Nat.exists_eq_add_of_lt hle
      exact fun found hfound => ih (h found hfound) (Nat.le_add_right n m)

/-- How deep imports nest is enough of a depth. -/
theorem NestsWithin.finishes {n : Nat} (h : NestsWithin resolve n source) :
    Finishes resolve n source := by
  induction n generalizing source with
  | zero => exact h.elim
  | succ n ih =>
      exact finishes_succ fun found hfound => ih (h found hfound.imports)

theorem NestsWithin.acc {n : Nat} (h : NestsWithin resolve n source) :
    Acc (Imports resolve) source := by
  induction n generalizing source with
  | zero => exact h.elim
  | succ n ih => exact .intro source fun found hfound => ih (h found hfound)

/-- Where imports lead to no endless chain, they nest only so deep: a source
has finitely many tokens. -/
theorem exists_nestsWithin (h : Acc (Imports resolve) source) :
    ∃ n, NestsWithin resolve n source := by
  induction h with
  | intro source _ ih =>
      obtain ⟨bound, hbound⟩ := exists_common_bound (source.imported resolve) fun found hfound =>
        (ih found (Source.mem_imported_iff.mp hfound)).imp fun bound hbound n hn => hbound.mono hn
      -- One bound is enough for all that the source can import, so the next is enough for it.
      exact ⟨bound + 1, fun found hfound =>
        hbound bound (Nat.le_refl bound) found (Source.mem_imported_iff.mpr hfound)⟩

/-- Where inclusions lead to no endless chain, some depth is enough. -/
theorem exists_depth_of_acc_includes (h : Acc (Includes resolve) source) :
    ∃ bound, ∀ depth ≥ bound, Finishes resolve depth source := by
  induction h with
  | intro source _ ih =>
      have hbounds : ∀ found ∈ source.imported resolve, ∃ bound, ∀ depth ≥ bound,
          Includes resolve found source → Finishes resolve depth found := by
        intro found _
        by_cases hfound : Includes resolve found source
        · exact (ih found hfound).imp fun bound hbound depth hdepth _ => hbound depth hdepth
        · exact ⟨0, fun _ _ hincludes => absurd hincludes hfound⟩
      obtain ⟨bound, hbound⟩ := exists_common_bound _ hbounds
      refine ⟨bound + 1, fun depth hdepth =>
        Finishes.mono (finishes_succ fun found hfound => ?_) hdepth⟩
      exact hbound bound (Nat.le_refl bound) found
        (Source.mem_imported_iff.mpr hfound.imports) hfound

theorem exists_depth_of_acc (h : Acc (Imports resolve) source) :
    ∃ bound, ∀ depth ≥ bound, Finishes resolve depth source :=
  exists_depth_of_acc_includes (Subrelation.accessible Includes.imports h)

end BuildScript
