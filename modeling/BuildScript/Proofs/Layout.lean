import BuildScript.Proofs.TwoLayouts
import BuildScript.Proofs.Splicing
import BuildScript.Proofs.Concatenation

namespace BuildScript

open BuildScript.Parser

/-- Errors of two texts that differ in their layout only: the same error at the
places of two tokens with the same index, or one error that is met in a source
that both import. -/
inductive SameError (resolve : String → Resolution) (depth : Nat) (tokens tokens' : List Token) :
    ParseError → ParseError → Prop where
  | leftover {location location' : Location}
      (hplace : SamePlace tokens tokens' location location') :
      SameError resolve depth tokens tokens' (.leftover location) (.leftover location')
  | importFailed (specifier : String) {location location' : Location}
      (hplace : SamePlace tokens tokens' location location') :
      SameError resolve depth tokens tokens' (.importFailed specifier location)
        (.importFailed specifier location')
  | unknownImportType (specifier : String) {location location' : Location}
      (hplace : SamePlace tokens tokens' location location') :
      SameError resolve depth tokens tokens' (.unknownImportType specifier location)
        (.unknownImportType specifier location')
  | imported {specifier : String} {found : Source} {e : ParseError}
      (hspecifier : ∃ token ∈ tokens, token.kind = .string specifier)
      (hresolve : resolve specifier = .program found)
      (hfound : ∀ journal, (parse resolve depth found journal).1 = .error e) :
      SameError resolve depth tokens tokens' e e

/-- Two failures that are reported as the same error, or both are for want of
depth. -/
inductive SameFailure (resolve : String → Resolution) (depth : Nat) (tokens tokens' : List Token) :
    Failure → Failure → Prop where
  | fatal {e e' : ParseError} (h : SameError resolve depth tokens tokens' e e') :
      SameFailure resolve depth tokens tokens' (.fatal e) (.fatal e')
  | exhausted : SameFailure resolve depth tokens tokens' .exhausted .exhausted

inductive SameLoad (resolve : String → Resolution) (depth : Nat) (tokens tokens' : List Token) :
    Except Failure Node → Except Failure Node → Prop where
  | loaded {node node' : Node} (h : node.Matches node') :
      SameLoad resolve depth tokens tokens' (.ok node) (.ok node')
  | failed {failure failure' : Failure}
      (h : SameFailure resolve depth tokens tokens' failure failure') :
      SameLoad resolve depth tokens tokens' (.error failure) (.error failure')

variable {resolve : String → Resolution} {source source' : Source}
  {tokens tokens' : List Token}

namespace Source

theorem succ_lt_length_of_tokenize (h : source.tokenize = .ok tokens) (i : Nat) (token : Token)
    (htoken : tokens[i]? = some token) (hkind : token.kind ≠ .endOfStream) :
    i + 1 < tokens.length := by
  obtain ⟨others, last, rfl, hlast, -⟩ := tokenize_eq_append h
  rcases Nat.lt_trichotomy i others.length with hlt | rfl | hgt
  · simpa using hlt
  · rw [List.getElem?_concat_length] at htoken
    cases htoken
    exact absurd hlast hkind
  · rw [List.getElem?_eq_none (by simp; omega)] at htoken
    cases htoken

theorem scan_fst_of_tokenize (h : source.tokenize = .ok tokens) : source.scan.1 = tokens :=
  congrArg Prod.fst (Source.tokenize_eq_ok_iff.mp h)

end Source

def Layouts.ofSources (hkinds : source.scan.1.map (·.kind) = source'.scan.1.map (·.kind)) :
    Layouts where
  tokens := source.scan.1
  tokens' := source'.scan.1
  kinds_eq := hkinds
  faulty := source.scan.2.isSome = true
  closed i token htoken hkind := by
    cases hfault : source.scan.2 with
    | some e => exact .inr rfl
    | none =>
        have htokenize : source.tokenize = .ok source.scan.1 :=
          Source.tokenize_eq_ok_iff.mpr (Prod.ext rfl hfault)
        exact .inl (Source.succ_lt_length_of_tokenize htokenize i token htoken hkind)

theorem Layouts.inside_ofSources
    (hkinds : source.scan.1.map (·.kind) = source'.scan.1.map (·.kind)) :
    (Layouts.ofSources hkinds).Inside 0 := by
  rcases Nat.eq_zero_or_pos source.scan.1.length with hempty | hpos
  · refine .inr ⟨?_, hempty.symm⟩
    show source.scan.2.isSome = true
    cases hfault : source.scan.2 with
    | some e => rfl
    | none =>
        have htokenize : source.tokenize = .ok source.scan.1 :=
          Source.tokenize_eq_ok_iff.mpr (Prod.ext rfl hfault)
        obtain ⟨others, last, htokens, -⟩ := Source.tokenize_eq_append htokenize
        simp [htokens] at hempty
  · exact .inl hpos

theorem load_eq_array (resolve : String → Resolution) (beyond : Except LexError Token)
    (depth : Nat) (source : Source) (journal journal' : Journal) :
    outcome (load resolve depth source journal) =
      outcome (loadWith (TokenArray.ofSource beyond) resolve depth source journal') :=
  (loadWith_eq_array resolve beyond Source.pulls_scan depth source journal journal').1

/-- Where both texts import the same thing, both get the same tree or the same
error; where it cannot be imported, both errors are at the import. -/
theorem Layouts.splicesAlike (L : Layouts) (resolve : String → Resolution)
    (beyond : Except LexError Token) (depth : Nat) :
    L.SplicesAlike (SameFailure resolve (depth + 1) L.tokens L.tokens')
      (splice resolve (loadWith (TokenArray.ofSource beyond) resolve depth))
      (splice resolve (loadWith (TokenArray.ofSource beyond) resolve depth)) := by
  intro specifier location location' i hspecifier hplace
  unfold splice
  refine .record_bind ?_
  cases hresolve : resolve specifier with
  | external => exact .throw_fatal (.fatal (.unknownImportType specifier hplace))
  | failed remark =>
      cases remark with
      | none => exact .throw_fatal (.fatal (.importFailed specifier hplace))
      | some remark => exact .record_bind (.throw_fatal (.fatal (.importFailed specifier hplace)))
  | program found =>
      -- Both load the same source. Their journals differ, but have no part in what it comes to.
      refine .record_bind fun s s' hs => ?_
      have hsame := loadWith_journal (TokenArray.ofSource beyond) resolve depth found s.journal
        s'.journal
      have hdecides := loadWith_decides (TokenArray.ofSource beyond) resolve depth found s.journal
      have harray := load_eq_array resolve beyond depth found {} s.journal
      generalize loadWith (TokenArray.ofSource beyond) resolve depth found s.journal = result
        at hsame hdecides harray ⊢
      generalize loadWith (TokenArray.ofSource beyond) resolve depth found s'.journal = result'
        at hsame ⊢
      cases result with
      | ok node after =>
          obtain ⟨after', rfl⟩ := outcome_eq_ok_iff.mp hsame.symm
          exact .matched ⟨rfl, .refl node⟩ (hs.journals _ _)
      | error failure after =>
          obtain ⟨after', rfl⟩ := outcome_eq_error_iff.mp hsame.symm
          have hfailure (token : Token) : failure ≠ .mismatch token :=
            fun hmismatch => hdecides token (congrArg Except.error hmismatch)
          refine .stopped _ _ hfailure hfailure ?_
          cases failure with
          | mismatch token => exact absurd rfl (hfailure token)
          | exhausted => exact .exhausted
          | fatal e =>
              have hloads : LoadsTo resolve depth found (.error (.fatal e)) :=
                loadsTo_of_outcome harray (by simp)
              exact .fatal (.imported hspecifier hresolve
                fun journal => (hloads.mono (Nat.le_succ depth)).parse_eq journal)

/-- The runs over two sources go side by side from their first tokens on. Each
budget is more than there are tokens. -/
theorem run_aligned (hkinds : source.scan.1.map (·.kind) = source'.scan.1.map (·.kind))
    (hfaults : source.scan.2.isSome = source'.scan.2.isSome) (resolve : String → Resolution)
    (beyond : Except LexError Token) (depth : Nat) (journal journal' : Journal) :
    Layouts.Aligned (Layouts.ofSources hkinds)
      (SameFailure resolve (depth + 1) source.scan.1 source'.scan.1)
      (fun node node' _ => node.Matches node')
      (runWith (TokenArray.ofSource beyond) resolve depth source journal)
      (runWith (TokenArray.ofSource beyond) resolve depth source' journal') := by
  have hlength := (Layouts.ofSources hkinds).length_eq
  have hbudget : source.scan.1.length < source.budget := source.length_scan_lt
  have hbudget' : source.scan.1.length < source'.budget := hlength ▸ source'.length_scan_lt
  have hready : (Layouts.ofSources hkinds).Ready 0
      ⟨TokenArray.ofSource beyond source, journal⟩
      ⟨TokenArray.ofSource beyond source', journal'⟩ := by
    refine { left := rfl, right := rfl, faults := fun hfaulty => ?_, cursor_eq := rfl,
             cursor_eq' := rfl, inside := Layouts.inside_ofSources hkinds }
    obtain ⟨e, he⟩ := Option.isSome_iff_exists.mp hfaulty
    obtain ⟨e', he'⟩ := Option.isSome_iff_exists.mp (hfaults.symm.trans hfaulty)
    exact ⟨e, e', by simp [TokenArray.ofSource, he], by simp [TokenArray.ofSource, he']⟩
  have hsplice := (Layouts.ofSources hkinds).splicesAlike resolve beyond depth
  -- The text with more layout has the greater budget, but both are enough.
  refine Layouts.align_program (fun j => ?_) hbudget hbudget' ?_ _ _ hready
  · exact Layouts.align_value hsplice (Nat.lt_add_left j hbudget) (Nat.lt_add_left j hbudget')
  · exact fun location location' hplace => .fatal (.leftover hplace)

theorem load_eq_run (resolve : String → Resolution) (depth : Nat) (source : Source)
    (journal : Journal) (beyond : Except LexError Token) :
    outcome (load resolve (depth + 1) source journal) =
      outcome (runWith (TokenArray.ofSource beyond) resolve depth source journal) := by
  rw [load_eq_array resolve beyond _ source journal journal, outcome_loadWith_succ]

/-- Two sources with tokens of the same kinds are loaded alike. -/
theorem load_of_same_kinds (h : source.tokenize = .ok tokens) (h' : source'.tokenize = .ok tokens')
    (hkinds : tokens.map (·.kind) = tokens'.map (·.kind)) (resolve : String → Resolution)
    (depth : Nat) (journal journal' : Journal) :
    SameLoad resolve depth tokens tokens' (outcome (load resolve depth source journal))
      (outcome (load resolve depth source' journal')) := by
  obtain rfl := Source.scan_fst_of_tokenize h
  obtain rfl := Source.scan_fst_of_tokenize h'
  have hfault : source.scan.2 = none := congrArg Prod.snd (Source.tokenize_eq_ok_iff.mp h)
  have hfault' : source'.scan.2 = none := congrArg Prod.snd (Source.tokenize_eq_ok_iff.mp h')
  cases depth with
  | zero => exact .failed .exhausted
  | succ depth =>
      let beyond : Except LexError Token := .error ⟨.unexpectedEnd, .startOf source⟩
      have haligned := run_aligned hkinds (by rw [hfault, hfault']) resolve beyond depth journal
        journal'
      have hdecides := loadWith_decides (TokenArray.ofSource beyond) resolve (depth + 1) source
        journal
      rw [outcome_loadWith_succ] at hdecides
      rw [load_eq_run resolve depth source journal beyond,
        load_eq_run resolve depth source' journal' beyond]
      generalize runWith (TokenArray.ofSource beyond) resolve depth source journal = result
        at haligned hdecides ⊢
      generalize runWith (TokenArray.ofSource beyond) resolve depth source' journal' = result'
        at haligned ⊢
      cases haligned with
      | matched value ready => exact .loaded value
      | mismatched token token' holds => exact absurd rfl (hdecides token)
      | stopped t t' hfailure hfailure' stop => exact .failed stop
      | faulted faulty => exact absurd faulty (by simp [Layouts.ofSources, hfault])

/-- Whether a depth is enough depends on the kinds of the tokens alone, and on
whether a fault follows them. -/
theorem finishes_of_same_kinds {depth : Nat}
    (hkinds : source.scan.1.map (·.kind) = source'.scan.1.map (·.kind))
    (hfaults : source.scan.2.isSome = source'.scan.2.isSome)
    (h : Finishes resolve depth source) : Finishes resolve depth source' := by
  intro journal hspent
  cases depth with
  | zero => exact h journal rfl
  | succ depth =>
      let beyond : Except LexError Token := .error ⟨.unexpectedEnd, .startOf source⟩
      have haligned := run_aligned hkinds hfaults resolve beyond depth journal journal
      refine h journal ?_
      rw [load_eq_run resolve depth source' journal beyond] at hspent
      rw [load_eq_run resolve depth source journal beyond]
      generalize runWith (TokenArray.ofSource beyond) resolve depth source journal = result
        at haligned ⊢
      generalize runWith (TokenArray.ofSource beyond) resolve depth source' journal = result'
        at haligned hspent
      cases haligned with
      | matched => cases hspent
      | mismatched => cases hspent
      | stopped t t' _ _ stop =>
          cases hspent
          cases stop
          rfl
      | faulted => cases hspent

theorem interpret_of_matches {φ : Type} [Host φ] {program program' : Node}
    (hkind : program.kind = .program) (hkind' : program'.kind = .program)
    (h : program.Matches program') (scope : Scope) {m m' : Machine φ}
    (harena : m.arena = m'.arena) :
    SameRun (interpret program scope m) (interpret program' scope m') := by
  have hchildren : Node.MatchesAll program.children program'.children := by
    rcases program with ⟨_, _, _, _⟩
    rcases program' with ⟨_, _, _, _⟩
    exact h.2.2
  have hrun : SameRun (interpret program scope m) (execute program'.children scope m') :=
    (interpret_same hkind scope rfl).trans (execute_same hchildren scope harena)
  exact hrun.trans (interpret_same hkind' scope rfl).symm

theorem imports_of_same_kinds (h : source.tokenize = .ok tokens)
    (h' : source'.tokenize = .ok tokens') (hkinds : tokens.map (·.kind) = tokens'.map (·.kind))
    {found : Source} (himports : Imports resolve found source') : Imports resolve found source := by
  have hscan := Source.scan_fst_of_tokenize h
  have hscan' := Source.scan_fst_of_tokenize h'
  obtain ⟨token', htoken', specifier, hspecifier, hresolve⟩ := himports
  have hkind : .string specifier ∈ tokens.map (·.kind) := by
    rw [hkinds, ← hspecifier]
    exact List.mem_map_of_mem (hscan' ▸ htoken')
  obtain ⟨token, htoken, hstring⟩ := List.mem_map.mp hkind
  exact ⟨token, hscan ▸ htoken, specifier, hstring, hresolve⟩

/-- Two sources that are tokenized to the same kinds of tokens are parsed to the
same tree but for locations, and running it makes the same objects, leaves the
same scope and meets the same faults; or they are not parsed, for the same error
at the same token or for the same error of a source that is imported. Only where
imports lead to an endless chain may no depth be enough, and then it is enough
for neither. -/
theorem parse_of_same_kinds (h : source.tokenize = .ok tokens)
    (h' : source'.tokenize = .ok tokens') (hkinds : tokens.map (·.kind) = tokens'.map (·.kind))
    (resolve : String → Resolution) :
    (Acc (Imports resolve) source → ∃ bound, ∀ depth ≥ bound, ∀ journal location,
      (parse resolve depth source journal).1 ≠ .error (.tooDeep location) ∧
      (parse resolve depth source' journal).1 ≠ .error (.tooDeep location)) ∧
    ∀ depth journal journal',
      (∃ program program', (parse resolve depth source journal).1 = .ok program ∧
        (parse resolve depth source' journal').1 = .ok program' ∧ program.Matches program' ∧
        ∀ (φ : Type) [Host φ] (scope : Scope) (m m' : Machine φ), m.arena = m'.arena →
          SameRun (interpret program scope m) (interpret program' scope m')) ∨
      (∃ e e', (parse resolve depth source journal).1 = .error e ∧
        (parse resolve depth source' journal').1 = .error e' ∧
        SameError resolve depth tokens tokens' e e') ∨
      (parse resolve depth source journal).1 = .error (.tooDeep (.startOf source)) ∧
        (parse resolve depth source' journal').1 = .error (.tooDeep (.startOf source')) := by
  refine ⟨fun hacyclic => ?_, fun depth journal journal' => ?_⟩
  · have hacyclic' : Acc (Imports resolve) source' :=
      ⟨source', fun found hfound => hacyclic.inv (imports_of_same_kinds h h' hkinds hfound)⟩
    obtain ⟨bound, hbound⟩ := exists_depth_of_acc hacyclic
    obtain ⟨bound', hbound'⟩ := exists_depth_of_acc hacyclic'
    refine ⟨max bound bound', fun depth hdepth journal location => ⟨?_, ?_⟩⟩
    · exact ne_tooDeep_of_finishes (hbound depth (by omega)) journal location
    · exact ne_tooDeep_of_finishes (hbound' depth (by omega)) journal location
  · have hload := load_of_same_kinds h h' hkinds resolve depth (journal.record (.parsing source))
      (journal'.record (.parsing source'))
    rw [parse_fst, parse_fst]
    generalize hresult : outcome (load resolve depth source _) = result at hload ⊢
    generalize hresult' : outcome (load resolve depth source' _) = result' at hload ⊢
    cases hload with
    | @loaded program program' hmatches =>
        obtain ⟨_, hload⟩ := outcome_eq_ok_iff.mp hresult
        obtain ⟨_, hload'⟩ := outcome_eq_ok_iff.mp hresult'
        refine .inl ⟨program, program', rfl, rfl, hmatches, fun φ _ scope m m' harena => ?_⟩
        exact interpret_of_matches (load_kind hload) (load_kind hload') hmatches scope harena
    | failed hfailure =>
        cases hfailure with
        | fatal hsame => exact .inr (.inl ⟨_, _, rfl, rfl, hsame⟩)
        | exhausted => exact .inr (.inr ⟨rfl, rfl⟩)

/-- An inclusion with and without layout, where its specifier is resolved and
where it is not. -/
theorem parse_of_same_kinds_spaced :
    ∃ tokens tokens',
      (Source.ofText "x=import(\"lib\")").tokenize = .ok tokens ∧
      (Source.ofText "# x\nx = /* y */ import ( \"lib\" )\n").tokenize = .ok tokens' ∧
      tokens.map (·.kind) = tokens'.map (·.kind) ∧
      (∃ program program',
        (parse (ImportTable.mk [("lib", .program ⟨"lib", "a = \"s\"", 1⟩)]).resolve 2
          (.ofText "x=import(\"lib\")") {}).1 = .ok program ∧
        (parse (ImportTable.mk [("lib", .program ⟨"lib", "a = \"s\"", 1⟩)]).resolve 2
          (.ofText "# x\nx = /* y */ import ( \"lib\" )\n") {}).1 = .ok program' ∧
        program.Matches program' ∧ ∃ m : Machine Builtin,
          SameRun (interpret program .empty m) (interpret program' .empty m)) ∧
      ∃ e e', (parseAlone (.ofText "x=import(\"lib\")") {}).1 = .error e ∧
        (parseAlone (.ofText "# x\nx = /* y */ import ( \"lib\" )\n") {}).1 = .error e' ∧
        SameError ImportTable.empty.resolve 1 tokens tokens' e e' := by
  obtain ⟨tokens, h, hkinds⟩ := exists_of_any
    (show (Source.ofText "x=import(\"lib\")").tokenize.toOption.any (fun tokens =>
      tokens.map (·.kind) == [.identifier "x", .assign, .identifier "import", .parenOpen,
        .string "lib", .parenClose, .endOfStream]) = true by decide +kernel)
  obtain ⟨tokens', h', hkinds'⟩ := exists_of_any
    (show (Source.ofText "# x\nx = /* y */ import ( \"lib\" )\n").tokenize.toOption.any
      (fun tokens => tokens.map (·.kind) == [.identifier "x", .assign, .identifier "import",
        .parenOpen, .string "lib", .parenClose, .endOfStream]) = true by decide +kernel)
  have hsame : tokens.map (·.kind) = tokens'.map (·.kind) :=
    (beq_iff_eq.mp hkinds).trans (beq_iff_eq.mp hkinds').symm
  have hparsed := (parse_of_same_kinds h h' hsame
    (ImportTable.mk [("lib", .program ⟨"lib", "a = \"s\"", 1⟩)]).resolve).2 2 {} {}
  have hfailed := (parse_of_same_kinds h h' hsame ImportTable.empty.resolve).2 1 {} {}
  obtain ⟨_, hok, -⟩ := exists_of_any
    (show (parse (ImportTable.mk [("lib", .program ⟨"lib", "a = \"s\"", 1⟩)]).resolve 2
      (.ofText "x=import(\"lib\")") {}).1.toOption.any (fun _ => true) = true by decide +kernel)
  have herror : (match (parseAlone (.ofText "x=import(\"lib\")") {}).1 with
    | .error (.importFailed _ _) => true
    | _ => false) = true := by decide +kernel
  refine ⟨tokens, tokens', h, h', hsame, ?_, ?_⟩
  · rcases hparsed with ⟨program, program', hprogram, hprogram', hmatches, hrun⟩ | ⟨_, _, he, -⟩ |
      ⟨he, -⟩
    · exact ⟨program, program', hprogram, hprogram', hmatches, ⟨Arena.empty, {}⟩,
        hrun Builtin .empty _ _ rfl⟩
    · rw [hok] at he
      cases he
    · rw [hok] at he
      cases he
  · rcases hfailed with ⟨_, _, he, -⟩ | hfailed | ⟨he, -⟩
    · rw [parseAlone, show ImportTable.empty.depth = 1 from rfl, he] at herror
      cases herror
    · exact hfailed
    · rw [parseAlone, show ImportTable.empty.depth = 1 from rfl, he] at herror
      cases herror

end BuildScript
