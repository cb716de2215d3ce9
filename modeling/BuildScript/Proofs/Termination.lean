import BuildScript.Proofs.Splicing

namespace BuildScript

open BuildScript.Parser

namespace Grammar

variable {σ : Type} [TokenSupply σ]

/-- The rules of the grammar but that of programs, all with the same budget. -/
def rules (splice : String → Location → Parser σ Node) (n : Nat) : List (Parser σ Node) :=
  let inner := value splice n
  [statement inner n, assignment inner, inner, inclusion splice, call inner n, argument inner,
    keywordArgument inner, object n, parenthesized n, list inner n, listFor inner, binder,
    stringLiteral]

variable {τ : Type} [TokenStream τ] {P : List Token → Prop} {n : Nat}
  {splice : String → Location → Parser (Rewindable τ) Node}

theorem rules_advance (hsplice : SplicesFit P splice) :
    ∀ rule ∈ rules splice n, Advances P n rule := by
  have hvalue := value_advances hsplice n
  intro rule hrule
  simp only [rules, List.mem_cons, List.not_mem_nil, or_false] at hrule
  rcases hrule with rfl | rfl | rfl | rfl | rfl | rfl | rfl | rfl | rfl | rfl | rfl | rfl | rfl
  · exact statement_advances hvalue
  · exact assignment_advances hvalue
  · exact hvalue
  · exact inclusion_advances hsplice n
  · exact call_advances hvalue (Nat.le_succ n)
  · exact argument_advances hvalue
  · exact keywordArgument_advances hvalue
  · exact object_advances n
  · exact parenthesized_advances n
  · exact list_advances hvalue (Nat.le_succ n)
  · exact listFor_advances hvalue (Nat.le_succ n)
  · exact binder_advances n
  · exact stringLiteral_advances n

variable {α : Type} {p : Parser (Rewindable τ) α} {tape : List Token} {fault : Option LexError}
  {s t : ParserState (Rewindable τ)}

theorem within_drop (htape : ∀ rest, rest <:+ tape → P rest) (k : Nat) :
    Within P (tape.drop k).length (tape.drop k) :=
  ⟨Nat.le_refl _, fun rest hrest => htape rest (hrest.trans (List.drop_suffix k tape))⟩

/-- What a rule takes is seen in where the reader stands. -/
theorem Advances.cursor_lt (hp : Advances P n p) (htape : ∀ rest, rest <:+ tape → P rest)
    (hs : s.supply.Standing tape fault) (hn : (tape.drop s.supply.cursor).length < n) {a : α}
    (hrun : p s = .ok a t) : s.supply.cursor < t.supply.cursor := by
  have hended := hp _ hn fault _ (within_drop htape _) tape s hs
  rw [hrun] at hended
  obtain ⟨rest, ⟨⟨-, -, rfl⟩, -⟩, -, k, hk, hlength, -⟩ := hended
  simp only [List.length_drop] at hk hlength
  omega

theorem Advances.ne_exhausted (hp : Advances P n p) (htape : ∀ rest, rest <:+ tape → P rest)
    (hs : s.supply.Standing tape fault) (hn : (tape.drop s.supply.cursor).length < n) :
    p s ≠ .error .exhausted t := by
  intro hrun
  have hended := hp _ hn fault _ (within_drop htape _) tape s hs
  rw [hrun] at hended
  exact hended rfl

theorem Advances.many_ne_exhausted (hp : Advances P n p) (htape : ∀ rest, rest <:+ tape → P rest)
    (hs : s.supply.Standing tape fault) (hn : (tape.drop s.supply.cursor).length < n) :
    many p n s ≠ .error .exhausted t := by
  intro hrun
  have hmany : Triple (many p n) fault (tape.drop s.supply.cursor) _ False (· ≠ .exhausted) :=
    many_advances hp hn hn (within_drop htape _)
  have hended := hmany tape s hs
  rw [hrun] at hended
  exact hended rfl

end Grammar

variable {resolve : String → Resolution} {depth bound : Nat} {source : Source}

theorem NestsWithin.isFit (h : NestsWithin resolve bound source) (hdepth : bound ≤ depth) :
    ∀ rest, rest <:+ source.scan.1 → IsFit resolve depth rest := by
  cases bound with
  | zero => exact h.elim
  | succ bound =>
      intro rest hrest specifier hbegins found hresolve
      have hincludes : Includes resolve found source := ⟨rest, hrest, specifier, hbegins, hresolve⟩
      exact (h found hincludes.imports).finishes.mono (by omega)

/-- A depth that is enough settles what a source is parsed to. -/
theorem parse_eq_of_finishes (h : Finishes resolve bound source) (hdepth : bound ≤ depth)
    (journal journal' : Journal) :
    (parse resolve depth source journal).1 = (parse resolve bound source journal').1 := by
  have hloads : LoadsTo resolve bound source (outcome (load resolve bound source {})) :=
    loadsTo_of_outcome rfl (h {})
  rw [hloads.parse_eq, (hloads.mono hdepth).parse_eq]

/-- Where imports lead to no endless chain, they nest only so deep, and then
parsing a source comes to one tree or to one error, the same at any depth from
there on, and never for want of depth. On the way, wherever a reader stands in
the source, no rule with a budget above the number of tokens left spends it,
nor does a repetition of that rule, and a rule that matches has gone forward. A
program, whatever it is read from, is never a mismatch. -/
theorem parse_terminates (resolve : String → Resolution) (source : Source)
    (hacyclic : Acc (Imports resolve) source) :
    (∃ bound, NestsWithin resolve bound source) ∧
    (∀ bound, NestsWithin resolve bound source →
      ((∃ program, ∀ depth ≥ bound, ∀ journal,
          (parse resolve depth source journal).1 = .ok program) ∨
        ∃ e, (∀ location, e ≠ .tooDeep location) ∧ ∀ depth ≥ bound, ∀ journal,
          (parse resolve depth source journal).1 = .error e) ∧
      ∀ depth ≥ bound, ∀ n, ∀ rule ∈ Grammar.rules (splice resolve (load resolve depth)) n,
        ∀ s : ParserState (Rewindable Lexer), s.supply.Standing source.scan.1 source.scan.2 →
          (source.scan.1.drop s.supply.cursor).length < n →
          (∀ t, rule s ≠ .error .exhausted t) ∧ (∀ t, many rule n s ≠ .error .exhausted t) ∧
          ∀ node t, rule s = .ok node t → s.supply.cursor < t.supply.cursor) ∧
    ∀ (σ : Type) [TokenSupply σ] (value : Parser σ Node) (budget : Nat) (s t : ParserState σ)
      (token : Token), Grammar.program value budget s ≠ .error (.mismatch token) t := by
  refine ⟨exists_nestsWithin hacyclic, fun bound hbound => ⟨?_, ?_⟩, ?_⟩
  · have hsame : ∀ depth ≥ bound, ∀ journal, (parse resolve depth source journal).1 =
        (parse resolve bound source {}).1 :=
      fun depth hdepth journal => parse_eq_of_finishes hbound.finishes hdepth journal {}
    cases hparse : (parse resolve bound source {}).1 with
    | ok program =>
        refine .inl ⟨program, fun depth hdepth journal => ?_⟩
        rw [hsame depth hdepth journal, hparse]
    | error e =>
        refine .inr ⟨e, ?_, fun depth hdepth journal => ?_⟩
        · rintro location rfl
          exact ne_tooDeep_of_finishes hbound.finishes {} location hparse
        · rw [hsame depth hdepth journal, hparse]
  · intro depth hdepth n rule hrule s hs hn
    have hadvances := Grammar.rules_advance (splice_splicesFit resolve depth) rule hrule
    have htape := hbound.isFit hdepth
    refine ⟨fun t => ?_, fun t => ?_, fun node t hrun => ?_⟩
    · exact hadvances.ne_exhausted htape hs hn
    · exact hadvances.many_ne_exhausted htape hs hn
    · exact hadvances.cursor_lt htape hs hn hrun
  · intro σ _ value budget s t token
    exact Decides.program value budget s token t

/-- A text that breaks off inside an import of an import, and what imports it
goes on badly too. -/
theorem parse_terminates_truncated :
    let resolve := (ImportTable.mk [
      ("lib", .program ⟨"lib", "x = [import(\"leaf\") for i in y]", 1⟩),
      ("leaf", .program ⟨"leaf", "y = f(\"a", 2⟩)]).resolve
    let source := Source.ofText "a = b c = import(\"lib\") ["
    Acc (Imports resolve) source ∧ ∃ e, e.location.source = ⟨"leaf", "y = f(\"a", 2⟩ ∧
      ∀ depth ≥ 3, ∀ journal, (parse resolve depth source journal).1 = .error e := by
  intro resolve source
  have hnests : NestsWithin resolve 3 source := by decide +kernel
  have hparse : (match (parse resolve 3 source {}).1 with
      | .ok _ => false
      | .error e => e.location.source == ⟨"leaf", "y = f(\"a", 2⟩) = true := by decide +kernel
  refine ⟨hnests.acc, ?_⟩
  rcases ((parse_terminates resolve source hnests.acc).2.1 3 hnests).1 with
    ⟨program, hprogram⟩ | ⟨e, -, he⟩
  · rw [hprogram 3 (Nat.le_refl 3) {}] at hparse
    cases hparse
  · rw [he 3 (Nat.le_refl 3) {}] at hparse
    exact ⟨e, beq_iff_eq.mp hparse, he⟩

end BuildScript
