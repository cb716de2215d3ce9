import Mathlib.Logic.Relation
import BuildScript.Proofs.Phrases
import BuildScript.Proofs.PreferredReading
import BuildScript.Proofs.ImportFailures
import BuildScript.Proofs.Progress

namespace BuildScript

open BuildScript.Parser BuildScript.Derivation BuildScript.Grammar

section Splice

variable (resolve : String → Resolution) (depth : Nat)

/-- The trees that an inclusion is loaded as, wherever it stands. -/
def LoadedAs (specifier : String) (_ : Location) (node : Node) : Prop :=
  ∃ found, resolve specifier = .program found ∧ LoadsTo resolve depth found (.ok node)

/-- How an inclusion at a place stops the reading: the specifier stands for no
program, or the program it stands for is not loaded. -/
inductive Halts (specifier : String) (location : Location) : Failure → Prop where
  | failed {remark : Option String} (hresolve : resolve specifier = .failed remark) :
      Halts specifier location (.fatal (.importFailed specifier location))
  | external (hresolve : resolve specifier = .external) :
      Halts specifier location (.fatal (.unknownImportType specifier location))
  | within {found : Source} {failure : Failure} (hresolve : resolve specifier = .program found)
      (hload : ∀ journal, outcome (load resolve depth found journal) = .error failure) :
      Halts specifier location failure

theorem splice_splicesAs {τ : Type} [TokenStream τ] (fault : Option LexError) :
    SplicesAs (τ := τ) fault (LoadedAs resolve depth) (Halts resolve depth)
      (splice resolve (load resolve depth)) := by
  intro specifier location ts
  unfold splice
  refine record_bind ?_
  cases hresolve : resolve specifier with
  | program found =>
      refine record_bind ?_
      rintro tape ⟨supply, journal⟩ hs
      dsimp only
      cases hload : load resolve depth found journal with
      | ok node journal' =>
          have houtcome := outcome_eq_ok_iff.mpr ⟨journal', hload⟩
          exact ⟨ts, hs, Nat.le_refl _, rfl, found, hresolve,
            loadsTo_of_outcome houtcome (by simp)⟩
      | error failure journal' =>
          have houtcome := outcome_eq_error_iff.mpr ⟨journal', hload⟩
          have hhalts : Halts resolve depth specifier location failure :=
            .within hresolve fun other => (load_journal resolve depth found other _).trans houtcome
          cases failure with
          | mismatch token => exact absurd hload ((load_steady resolve depth).decides _ _ _ _)
          | fatal e => exact hhalts
          | exhausted => exact hhalts
  | external => exact Triple.throw_fatal (.external hresolve)
  | failed remark =>
      cases remark with
      | none => exact Triple.throw_fatal (.failed hresolve)
      | some remark => exact record_bind (Triple.throw_fatal (.failed hresolve))

end Splice

namespace Grammar

variable {τ : Type} [TokenStream τ] {tokens : List Token} {fault : Option LexError}
  {included : String → Location → Node → Prop} {halts : String → Location → Failure → Prop}

def ProgramTaken (included : String → Location → Node → Prop) (tokens : List Token)
    (nodes : List Node) (rest : List Token) : Prop :=
  ∃ used statements, tokens = used ++ rest ∧ StatementsPlaced included statements nodes used ∧
    ∀ statement ∈ statements, statement.Preferred

/-- What stops the reading of a program: something among its tokens, or a token
after its last statement that is not their end. -/
inductive ProgramBlamed (tokens : List Token) (fault : Option LexError)
    (included : String → Location → Node → Prop) (halts : String → Location → Failure → Prop) :
    Failure → Prop where
  | inside {failure : Failure} (hblamed : Blamed tokens fault halts failure) :
      ProgramBlamed tokens fault included halts failure
  | leftover {nodes : List Node} {token : Token} {others : List Token}
      (htaken : ProgramTaken included tokens nodes (token :: others))
      (hkind : token.kind ≠ .endOfStream) :
      ProgramBlamed tokens fault included halts (.fatal (.leftover token.location))

theorem program_read {value : Parser (Rewindable τ) Node}
    (hvalue : ReadsValues tokens fault included halts value) (budget : Nat) :
    Triple (program value budget) fault tokens
      (fun node rest => ∃ nodes first others last after, tokens = first :: others ∧
        node = ⟨.program, first.location, none, nodes⟩ ∧
        ProgramTaken included tokens nodes rest ∧ rest = last :: after ∧
        last.kind = .endOfStream)
      False (ProgramBlamed tokens fault included halts) := by
  have hfault : ∀ e, fault = some e →
      ProgramBlamed tokens fault included halts (.fatal (.lexical e)) :=
    fun e he => .inside (.lexical he)
  refine Triple.here_at hfault ?_
  rintro first others hfirst
  refine Triple.bind ((statements_read hvalue budget budget (List.suffix_refl tokens)).mono
    (fun _ _ => id) id fun _ => .inside) ?_
  rintro nodes rest htaken
  refine Triple.bind (Q := fun token left => left = rest ∧ ∃ after, rest = token :: after)
    (Triple.peek (fun token after hrest => ⟨rfl, after, hrest⟩) fun e he _ => hfault e he) ?_
  rintro token _ ⟨rfl, after, rfl⟩
  by_cases hend : token.isEnd = true
  · rw [if_pos hend]
    exact Triple.pure ⟨nodes, first, others, token, after, hfirst, rfl, htaken, rfl,
      by simpa [Token.isEnd] using hend⟩
  · rw [if_neg hend]
    exact Triple.throw_fatal (.leftover htaken (by simpa [Token.isEnd] using hend))

end Grammar

section Load

variable {resolve : String → Resolution} {depth : Nat} {source : Source} {node : Node}
  {journal : Journal} {failure : Failure}

theorem reading_read (resolve : String → Resolution) (depth : Nat) (source : Source) :
    Triple (reading resolve depth source) source.scan.2 source.scan.1
      (fun node rest => ∃ nodes first others last after, source.scan.1 = first :: others ∧
        node = ⟨.program, first.location, none, nodes⟩ ∧
        ProgramTaken (LoadedAs resolve depth) source.scan.1 nodes rest ∧ rest = last :: after ∧
        last.kind = .endOfStream)
      False (ProgramBlamed source.scan.1 source.scan.2 (LoadedAs resolve depth)
        (Halts resolve depth)) :=
  program_read (value_read (splice_splicesAs resolve depth source.scan.2) source.budget)
    source.budget

theorem load_placed (h : outcome (load resolve (depth + 1) source journal) = .ok node) :
    ∃ nodes first others last after, source.scan.1 = first :: others ∧
      node = ⟨.program, first.location, none, nodes⟩ ∧
      ProgramTaken (LoadedAs resolve depth) source.scan.1 nodes (last :: after) ∧
      last.kind = .endOfStream := by
  obtain ⟨journal', h⟩ := outcome_eq_ok_iff.mp h
  rcases load_of_triple rfl (reading_read resolve depth source) journal with
    ⟨node', _, rest, hok, nodes, first, others, last, after, hfirst, hnode, htaken, rfl, hlast⟩ |
    ⟨failure, _, herror, -⟩
  · rw [h] at hok
    cases hok
    exact ⟨nodes, first, others, last, after, hfirst, hnode, htaken, hlast⟩
  · rw [h] at herror
    cases herror

theorem program_of_load (h : outcome (load resolve depth source journal) = .ok node) :
    node.kind = .program ∧ node.location.source = source := by
  cases depth with
  | zero => cases h
  | succ depth =>
      obtain ⟨nodes, first, others, last, after, hfirst, rfl, -, -⟩ := load_placed h
      exact ⟨rfl, Source.location_of_mem_scan (by simp [hfirst])⟩

theorem load_blamed (h : outcome (load resolve (depth + 1) source journal) = .error failure) :
    ProgramBlamed source.scan.1 source.scan.2 (LoadedAs resolve depth) (Halts resolve depth)
      failure := by
  obtain ⟨journal', h⟩ := outcome_eq_error_iff.mp h
  rcases load_of_triple rfl (reading_read resolve depth source) journal with
    ⟨node', _, rest, hok, -⟩ | ⟨failure, _, herror, -, hblamed⟩
  · rw [h] at hok
    cases hok
  · rw [h] at herror
    cases herror
    exact hblamed

theorem source_of_load_error {e : ParseError}
    (h : outcome (load resolve depth source journal) = .error (.fatal e)) :
    Relation.ReflTransGen (Imports resolve) e.location.source source := by
  induction depth generalizing source journal with
  | zero => cases h
  | succ depth ih =>
      cases load_blamed h with
      | inside hblamed =>
          cases hblamed with
          | lexical hfault => rw [ParseError.location, (Source.tokenize_of_fault hfault).1]
          | @inclusion specifier _ _ word _ text _ _ hscan _ _ htext _ hhalts =>
              have hword : word.location.source = source :=
                Source.location_of_mem_scan (by simp [hscan])
              cases hhalts with
              | failed => rw [ParseError.location, hword]
              | external => rw [ParseError.location, hword]
              | @within found _ hresolve hload =>
                  have himports : Imports resolve found source :=
                    ⟨text, by simp [hscan], specifier, htext, hresolve⟩
                  exact (ih (hload {})).tail himports
      | @leftover _ token _ htaken _ =>
          obtain ⟨used, statements, hscan, -⟩ := htaken
          have htoken : token.location.source = source :=
            Source.location_of_mem_scan (by simp [hscan])
          rw [ParseError.location, htoken]

section Everywhere

variable {P : Location → Prop}

theorem Grammar.ProgramTaken.everywhere {included : String → Location → Node → Prop}
    {tokens rest : List Token} {nodes : List Node} (h : ProgramTaken included tokens nodes rest)
    (hincluded : ∀ s location tree, included s location tree → tree.Everywhere (P ·.location))
    (htokens : ∀ token ∈ tokens, P token.location) :
    ∀ node ∈ nodes, node.Everywhere (P ·.location) := by
  obtain ⟨used, statements, rfl, hplaced, -⟩ := h
  have hused : used <:+: used ++ rest := (List.prefix_append used rest).isInfix
  refine hplaced.row.everywhere hincluded (fun phrase node inner hphrase hnode hinner => ?_) hused
  obtain ⟨token, htoken, -, hlocation, -⟩ := hnode.exists_place hphrase
  rw [hlocation]
  exact htokens token (hinner.subset (Phrase.mem_of_mem_place htoken))

/-- What holds of the places of all tokens of all sources holds of the places of
all nodes that are loaded. -/
theorem load_everywhere
    (htokens : ∀ source : Source, ∀ token ∈ source.scan.1, P token.location)
    (h : outcome (load resolve depth source journal) = .ok node) :
    node.Everywhere (P ·.location) := by
  induction depth generalizing source node journal with
  | zero => cases h
  | succ depth ih =>
      obtain ⟨nodes, first, others, last, after, hfirst, rfl, htaken, -⟩ := load_placed h
      refine Node.everywhere_mk.mpr ⟨htokens source first (by simp [hfirst]), ?_⟩
      refine htaken.everywhere ?_ (htokens source)
      rintro specifier location tree ⟨found, -, hloads⟩
      exact ih (hloads.outcome_eq {})

theorem load_error_located
    (htokens : ∀ source : Source, ∀ token ∈ source.scan.1, P token.location)
    (hfaults : ∀ source : Source, ∀ e ∈ source.scan.2, P e.location) {e : ParseError}
    (h : outcome (load resolve depth source journal) = .error (.fatal e)) : P e.location := by
  induction depth generalizing source journal with
  | zero => cases h
  | succ depth ih =>
      cases load_blamed h with
      | inside hblamed =>
          cases hblamed with
          | lexical hfault => exact hfaults source _ hfault
          | @inclusion specifier _ _ word _ _ _ _ hscan _ _ _ _ hhalts =>
              have hword : P word.location := htokens source word (by simp [hscan])
              cases hhalts with
              | failed => exact hword
              | external => exact hword
              | within _ hload => exact ih (hload {})
      | leftover htaken hkind =>
          obtain ⟨used, statements, hscan, -⟩ := htaken
          exact htokens source _ (by simp [hscan])

end Everywhere

end Load

end BuildScript
