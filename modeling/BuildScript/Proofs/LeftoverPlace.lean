import Mathlib.Data.List.Infix
import BuildScript.Proofs.CutTexts
import BuildScript.Proofs.PlacedLoading

/-!
Where leftover input is reported. What is left over begins with the first token
that no statement begins at: the statements before it were matched, and they are
all there is to the text that is cut off there. That nothing changes when the
text is cut off follows from the derivation of the statements, which goes by the
tokens before the leftover one alone.
-/

namespace BuildScript

open BuildScript.Parser BuildScript.Grammar BuildScript.Derivation LexicalGrammar

section Endings

variable {σ α β : Type} {s t : ParserState σ}

theorem Parser.bind_eq_error {p : Parser σ α} {f : α → Parser σ β} {failure : Failure}
    (h : (p >>= f) s = .error failure t) :
    p s = .error failure t ∨ ∃ a u, p s = .ok a u ∧ f a u = .error failure t := by
  change EStateM.bind p f s = _ at h
  unfold EStateM.bind at h
  split at h
  · exact .inr ⟨_, _, by assumption, h⟩
  · cases h
    exact .inl (by assumption)

variable [TokenSupply σ]

theorem Parser.optional_eq_ok {p : Parser σ α} {found : Option α}
    (h : Parser.optional p s = .ok found t) :
    (∃ a, found = some a ∧ p s = .ok a t) ∨
      found = none ∧ ∃ token u, p s = .error (.mismatch token) u ∧ t = back s u := by
  unfold Parser.optional Parser.orElse at h
  dsimp only at h
  split at h
  · rename_i token supply journal hmismatch
    cases h
    rcases bind_eq_error hmismatch with hp | ⟨a, u, -, hpure⟩
    · exact .inr ⟨rfl, token, _, hp, rfl⟩
    · cases hpure
  · obtain ⟨a, u, hp, hpure⟩ := bind_eq_ok h
    cases hpure
    exact .inl ⟨a, rfl, hp⟩

end Endings

section SameTape

variable {τ : Type} [TokenStream τ] {tape : List Token} {fault : Option LexError}

/-- Two readers at one place of one tape. How much of it each has pulled may
differ, and so may their journals. -/
def sameTape (tape : List Token) (fault : Option LexError) :
    Coupling (Rewindable τ) (Rewindable τ) where
  Ready s s' := s.supply.Standing tape fault ∧ s'.supply.Standing tape fault ∧
    s.supply.cursor = s'.supply.cursor
  Since s s' t t' := (t.supply.OnTape tape fault ∧ s.supply.buffer.size ≤ t.supply.buffer.size) ∧
    t'.supply.OnTape tape fault ∧ s'.supply.buffer.size ≤ t'.supply.buffer.size
  Stop _ _ _ := True
  Seen _ := True
  Lenient := False

variable {s s' : ParserState (Rewindable τ)}

theorem sameTape_answer (hs : (sameTape tape fault).Ready s s') :
    (∃ token r r', Rewindable.Saw tape fault s.supply r token ∧
      Rewindable.Saw tape fault s'.supply r' token) ∨
    ∃ e r r', s.supply.peek = (.error e, r) ∧ s'.supply.peek = (.error e, r') := by
  obtain ⟨hstanding, hstanding', hcursor⟩ := hs
  rcases hstanding.peek with ⟨token, r, hsaw⟩ | ⟨e, hfault, hout, r, hpeek⟩
  · rcases hstanding'.peek with ⟨token', r', hsaw'⟩ | ⟨e, -, hout, -⟩
    · have htoken := hsaw.getElem?
      rw [hcursor, hsaw'.getElem?] at htoken
      cases htoken
      exact .inl ⟨_, r, r', hsaw, hsaw'⟩
    · have htoken := hsaw.getElem?
      rw [hcursor, List.getElem?_eq_none hout] at htoken
      cases htoken
  · rcases hstanding'.peek with ⟨token', r', hsaw'⟩ | ⟨e', hfault', -, r', hpeek'⟩
    · have htoken := hsaw'.getElem?
      rw [← hcursor, List.getElem?_eq_none hout] at htoken
      cases htoken
    · rw [hfault] at hfault'
      cases hfault'
      exact .inr ⟨e, r, r', hpeek, hpeek'⟩

theorem sameTape_lawful : (sameTape (τ := τ) tape fault).Lawful where
  refl hs := ⟨⟨hs.1.1.1, Nat.le_refl _⟩, hs.2.1.1.1, Nat.le_refl _⟩
  trans h h' := ⟨⟨h'.1.1, Nat.le_trans h.1.2 h'.1.2⟩, h'.2.1, Nat.le_trans h.2.2 h'.2.2⟩
  wind hs h := ⟨⟨hs.1.rewind h.1.1 h.1.2, hs.2.1.rewind h.2.1 h.2.2, hs.2.2⟩, h⟩
  peek {s s'} hs := by
    simp only [Parser.peek, take, TokenSupply.peek]
    rcases sameTape_answer hs with ⟨token, r, r', hsaw, hsaw'⟩ | ⟨e, r, r', hpeek, hpeek'⟩
    · rw [hsaw.peek_eq, hsaw'.peek_eq]
      refine .matched trivial ⟨hsaw.standing, hsaw'.standing, ?_⟩
        ⟨⟨hsaw.standing.1.1, hsaw.size_le⟩, hsaw'.standing.1.1, hsaw'.size_le⟩
      rw [hsaw.cursor_eq, hsaw'.cursor_eq, hs.2.2]
    · rw [hpeek, hpeek']
      exact .stopped (by simp) trivial
  next {s s'} hs := by
    simp only [Parser.next, take, TokenSupply.next, Rewindable.next]
    rcases sameTape_answer hs with ⟨token, r, r', hsaw, hsaw'⟩ | ⟨e, r, r', hpeek, hpeek'⟩
    · rw [hsaw.peek_eq, hsaw'.peek_eq]
      refine .token trivial
        ⟨⟨hsaw.standing.1.1, hsaw.size_le⟩, hsaw'.standing.1.1, hsaw'.size_le⟩
        fun hkind => ⟨hsaw.past hkind, hsaw'.past hkind, ?_⟩
      rw [hsaw.cursor_eq, hsaw'.cursor_eq, hs.2.2]
    · rw [hpeek, hpeek']
      exact .fault trivial
  exhausted _ := trivial
  leftover _ _ := trivial

theorem sameTape_symm (hs : (sameTape tape fault).Ready s s') :
    (sameTape tape fault).Ready s' s :=
  ⟨hs.2.1, hs.1, hs.2.2.symm⟩

theorem sameTape_splices : (sameTape (τ := τ) tape fault).Splices where
  journals hs _ _ := ⟨hs, ⟨hs.1.1.1, Nat.le_refl _⟩, hs.2.1.1.1, Nat.le_refl _⟩
  failed _ _ _ := trivial
  external _ _ _ := trivial

theorem standing_of_stands {ts : List Token} (hs : Stands tape fault ts s) :
    s.supply.Standing tape fault := by
  obtain ⟨⟨htape, hcursor, rfl⟩, hend⟩ := hs
  exact ⟨⟨htape, hcursor, rfl⟩, hend⟩

theorem sameTape_ready {ts : List Token} (hs : Stands tape fault ts s)
    (hs' : Stands tape fault ts s') (hne : ts ≠ []) : (sameTape tape fault).Ready s s' := by
  refine ⟨standing_of_stands hs, standing_of_stands hs', ?_⟩
  have hlength := congrArg List.length hs.1.2.2
  have hlength' := congrArg List.length hs'.1.2.2
  have hpos := List.length_pos_iff.mpr hne
  rw [List.length_drop] at hlength hlength'
  omega

variable {α : Type} {p : Parser (Rewindable τ) α} {Q : α → Prop}

/-- A parser that does not match at a place does not match there from any other
state either. -/
theorem mismatch_of_ready (hp : Agree (sameTape tape fault) Q p p)
    (hs : (sameTape tape fault).Ready s s') {token : Token} {t : ParserState (Rewindable τ)}
    (h : p s = .error (.mismatch token) t) :
    (∃ t', p s' = .error (.mismatch token) t') ∧ (sameTape tape fault).Ready (back s t) s' := by
  have hagreed := hp s s' hs
  rw [h] at hagreed
  generalize hresult : p s' = result at hagreed
  cases hagreed with
  | mismatched _ since =>
      exact ⟨⟨_, rfl⟩, hs.1.rewind since.1.1 since.1.2, hs.2.1, hs.2.2⟩
  | stopped hfailure => exact absurd rfl (hfailure token)

/-- A repetition ends where the parser that is repeated does not match. -/
theorem mismatch_after_many (hp : Agree (sameTape tape fault) Q p p) {budget : Nat} {as : List α}
    {t : ParserState (Rewindable τ)} (hs : (sameTape tape fault).Ready s s)
    (h : many p budget s = .ok as t) : ∃ token t', p t = .error (.mismatch token) t' := by
  induction budget generalizing s as with
  | zero => cases h
  | succ budget ih =>
      obtain ⟨found, u, hfound, hlater⟩ := bind_eq_ok h
      rcases optional_eq_ok hfound with ⟨a, rfl, ha⟩ | ⟨rfl, token, v, hmismatch, rfl⟩
      · obtain ⟨others, w, hothers, hpure⟩ := bind_eq_ok hlater
        cases hpure
        have hagreed := hp s s hs
        rw [ha] at hagreed
        cases hagreed with
        | matched _ ready => exact ih ready hothers
      · -- the state may have another journal than the one that did not match
        cases hlater
        have hwound := (mismatch_of_ready hp hs hmismatch).2
        obtain ⟨t', ht'⟩ := (mismatch_of_ready hp (sameTape_symm hwound) hmismatch).1
        exact ⟨token, t', ht'⟩

end SameTape

variable {resolve : String → Resolution} {depth : Nat} {source : Source} {journal : Journal}

/-- How a statement of a source is read, where imports may nest `depth` deep. -/
def readStatement (resolve : String → Resolution) (depth : Nat) (source : Source) :
    Parser (Rewindable Lexer) Node :=
  statement (value (splice resolve (load resolve depth)) source.budget) source.budget

def readStatements (resolve : String → Resolution) (depth : Nat) (source : Source) :
    Parser (Rewindable Lexer) (List Node) :=
  here >>= fun _ => many (readStatement resolve depth source) source.budget

theorem readStatement_agree (resolve : String → Resolution) (depth : Nat) (source : Source) :
    InStep (sameTape source.scan.1 source.scan.2) (readStatement resolve depth source)
      (readStatement resolve depth source) := by
  have hsplice : SpliceInStep (sameTape source.scan.1 source.scan.2)
      (splice resolve (load resolve depth) : String → Location → Parser (Rewindable Lexer) Node)
      (splice resolve (load resolve depth)) :=
    spliceInStep sameTape_splices
      (fun _ found _ before after => .inr ⟨load_journal resolve depth found before after,
        fun _ _ _ _ _ => trivial⟩) (loadWith_decides _ resolve depth)
  exact inStep_statement sameTape_lawful (inStep_value sameTape_lawful hsplice _) _

/-- A depth at which a source does not yet come to an error of its own: then the
error one level up is not that of an import. -/
theorem not_blamed_leftover {location : Location} (hsource : location.source = source)
    (hnotYet : ¬ LoadsTo resolve depth source (.error (.fatal (.leftover location)))) :
    ¬ Blamed source.scan.1 source.scan.2 (Halts resolve depth)
      (.fatal (.leftover location)) := by
  intro hblamed
  cases hblamed with
  | inclusion _ _ _ _ _ hhalts =>
      cases hhalts with
      | within _ hload =>
          have hown := loadsTo_of_error ⟨by simp, hload⟩
          rw [ParseError.location, hsource] at hown
          exact hnotYet hown

theorem peek_eq_error {σ : Type} [TokenSupply σ] {s t : ParserState σ} {failure : Failure}
    (h : peek s = .error failure t) : ∃ e, failure = .fatal (.lexical e) := by
  simp only [Parser.peek, take] at h
  split at h
  · cases h
  · cases h
    exact ⟨_, rfl⟩

/-- A program that is stopped by a leftover token has matched statements up to
it, or was stopped inside one. -/
theorem reading_eq_leftover {s t : ParserState (Rewindable Lexer)} {location : Location}
    (h : reading resolve depth source s = .error (.fatal (.leftover location)) t) :
    readStatements resolve depth source s = .error (.fatal (.leftover location)) t ∨
      ∃ nodes u token, readStatements resolve depth source s = .ok nodes u ∧
        peek u = .ok token t ∧ token.kind ≠ .endOfStream ∧ token.location = location := by
  rcases bind_eq_error h with hhere | ⟨place, u, hhere, h⟩
  · rcases bind_eq_error hhere with hpeek | ⟨_, _, _, hpure⟩
    · obtain ⟨e, he⟩ := peek_eq_error hpeek
      cases he
    · cases hpure
  have hstatements : readStatements resolve depth source s =
      many (readStatement resolve depth source) source.budget u := by
    show EStateM.bind here _ s = _
    rw [EStateM.bind, hhere]
  rw [hstatements]
  rcases bind_eq_error h with hmany | ⟨nodes, v, hmany, h⟩
  · exact .inl hmany
  rcases bind_eq_error h with hpeek | ⟨token, w, hpeek, h⟩
  · obtain ⟨e, he⟩ := peek_eq_error hpeek
    cases he
  · split at h
    · cases h
    · rename_i hend
      cases h
      exact .inr ⟨nodes, v, token, hmany, hpeek, by simpa [Token.isEnd] using hend, rfl⟩

/-- Statements that were read are read alike where imports may nest deeper. -/
theorem readStatements_stable {depth' : Nat} (hdepth : depth ≤ depth')
    {s t : ParserState (Rewindable Lexer)} {nodes : List Node}
    (h : readStatements resolve depth source s = .ok nodes t) :
    ∃ t', readStatements resolve depth' source s = .ok nodes t' := by
  have hsplice : SpliceInStep (sameTokens (Rewindable Lexer) True)
      (splice resolve (load resolve depth))
      (splice resolve (load resolve depth')) := by
    refine spliceInStep sameTokens_splices (fun _ found _ before after => ?_)
      (loadWith_decides _ resolve depth)
    rcases load_stable resolve hdepth found before after with hspent | hsame
    · exact .inl ⟨trivial, hspent⟩
    · exact .inr ⟨hsame, fun _ _ _ _ _ => trivial⟩
  have hstatement : InStep (sameTokens (Rewindable Lexer) True) (readStatement resolve depth source)
      (readStatement resolve depth' source) :=
    inStep_statement sameTokens_lawful (inStep_value sameTokens_lawful hsplice _) _
  have hagreed := Agree.bind sameTokens_lawful (Agree.here sameTokens_lawful)
    (fun _ _ => Agree.many sameTokens_lawful hstatement source.budget) s s rfl
  change Agreed _ _ s s (readStatements resolve depth source s)
    (readStatements resolve depth' source s) at hagreed
  rw [h] at hagreed
  generalize readStatements resolve depth' source s = result at hagreed
  cases hagreed with
  | matched => exact ⟨_, rfl⟩

theorem readStatements_read (resolve : String → Resolution) (depth : Nat) (source : Source) :
    Triple (readStatements resolve depth source) source.scan.2 source.scan.1
      (ProgramTaken (LoadedAs resolve depth) source.scan.1) False
      (Blamed source.scan.1 source.scan.2 (Halts resolve depth)) :=
  Triple.here_at blamed_fault fun _ _ _ =>
    statements_read (value_read (splice_splicesAs resolve depth source.scan.2) source.budget)
      source.budget source.budget (List.suffix_refl _)

theorem readStatements_of_least {location : Location} (hsource : location.source = source)
    (hnotYet : ¬ LoadsTo resolve depth source (.error (.fatal (.leftover location))))
    (h : LoadsTo resolve (depth + 1) source (.error (.fatal (.leftover location))))
    (journal : Journal) :
    ∃ nodes t, readStatements resolve depth source
      ⟨.ofStream (Lexer.ofSource source), journal⟩ = .ok nodes t := by
  have hload := h.outcome_eq journal
  rw [load, outcome_loadWith_succ] at hload
  obtain ⟨t, hrun⟩ := outcome_eq_error_iff.mp hload
  have hended := readStatements_read resolve depth source _ _ (stands_ofSource source journal)
  rcases reading_eq_leftover hrun with hstopped | ⟨nodes, u, -, hread, -⟩
  · rw [hstopped] at hended
    exact absurd hended (not_blamed_leftover hsource hnotYet)
  · exact ⟨nodes, u, hread⟩

/-- The statements before a leftover token were all read. At the least depth
that comes to the error no import can be to blame for it, and what is read there
is read alike at every greater depth. -/
theorem readStatements_of_leftover {location : Location} (hsource : location.source = source)
    (h : LoadsTo resolve (depth + 1) source (.error (.fatal (.leftover location))))
    (journal : Journal) :
    ∃ nodes t, readStatements resolve depth source
      ⟨.ofStream (Lexer.ofSource source), journal⟩ = .ok nodes t := by
  induction depth with
  | zero => exact readStatements_of_least hsource (fun h => by cases h.outcome_eq {}) h journal
  | succ depth ih =>
      by_cases hearlier : LoadsTo resolve (depth + 1) source (.error (.fatal (.leftover location)))
      · obtain ⟨nodes, t, hread⟩ := ih hearlier
        exact ⟨nodes, readStatements_stable (Nat.le_succ depth) hread⟩
      · exact readStatements_of_least hsource hearlier h journal

theorem available_of_loadedAs {specifier : String} {location : Location} {node : Node}
    (h : LoadedAs resolve depth specifier location node) :
    Available resolve (load resolve depth) specifier := by
  obtain ⟨found, hresolve, hloads⟩ := h
  exact ⟨found, hresolve, fun journal =>
    ⟨node, outcome_eq_ok_iff.mp (hloads.outcome_eq journal)⟩⟩

theorem exists_cons_of_peek {tape ts : List Token} {fault : Option LexError} {token : Token}
    {s t : ParserState (Rewindable Lexer)} (hs : Stands tape fault ts s)
    (h : peek s = .ok token t) : ∃ after, ts = token :: after := by
  simp only [Parser.peek, take, TokenSupply.peek] at h
  rcases (standing_of_stands hs).peek with ⟨found, r, hsaw⟩ | ⟨e, -, -, r, hpeek⟩
  · rw [hsaw.peek_eq] at h
    cases h
    have htoken := hsaw.getElem?
    rw [← List.head?_drop, hs.1.2.2] at htoken
    exact List.head?_eq_some_iff.mp htoken
  · rw [hpeek] at h
    cases h

theorem mismatch_after_readStatements {s t : ParserState (Rewindable Lexer)} {nodes : List Node}
    (hs : s.supply.Standing source.scan.1 source.scan.2)
    (h : readStatements resolve depth source s = .ok nodes t) :
    ∃ unfit t', readStatement resolve depth source t = .error (.mismatch unfit) t' := by
  obtain ⟨place, u, hhere, hmany⟩ := bind_eq_ok h
  have hagreed := Agree.here sameTape_lawful s s ⟨hs, hs, rfl⟩
  rw [hhere] at hagreed
  cases hagreed with
  | matched _ ready =>
      exact mismatch_after_many (readStatement_agree resolve depth source) ready hmany

theorem parse_of_programTaken {cut : Source} {before rest tokens : List Token} {nodes : List Node}
    (htaken : ProgramTaken (LoadedAs resolve depth) (before ++ rest) nodes rest)
    (htokenize : cut.tokenize = .ok tokens)
    (hkinds : tokens.map Token.kind = before.map Token.kind ++ [.endOfStream])
    (journal : Journal) :
    ∃ program, (parse resolve (depth + 1) cut journal).1 = .ok program ∧
      Node.MatchesAll program.children nodes := by
  obtain ⟨used, statements, hused, hplaced, hpreferred⟩ := htaken
  obtain rfl : before = used := List.append_cancel_right hused
  have hderives : Derives cut statements := by
    refine ⟨tokens, htokenize, ?_⟩
    rw [hkinds, hplaced.map_kind, programKinds]
  have havailable : ∀ s ∈ programSpecifiers statements,
      Available resolve (load resolve depth) s := by
    intro s hs
    obtain ⟨tree, location, hloaded⟩ := hplaced.included_of_mem hpreferred s hs
    exact available_of_loadedAs hloaded
  obtain ⟨program, journal', hload, location, nodes', rfl, htrees⟩ :=
    load_of_derivation hderives hpreferred havailable (journal.record (.parsing cut))
  have hshown : List.Forall₂ (Statement.HasTree fun s node =>
      ∃ place, LoadedAs resolve depth s place node) statements nodes :=
    hplaced.haveTrees fun _ place _ h => ⟨place, h⟩
  refine ⟨_, parse_eq_ok_iff.mpr ⟨journal', hload⟩, statementTrees_match ?_ htrees hshown⟩
  rintro s m n ⟨found, _, _, hresolve, hload⟩ ⟨_, found', hresolve', hloads⟩
  obtain ⟨_, hload'⟩ := outcome_eq_ok_iff.mp (hloads.outcome_eq {})
  rw [hresolve] at hresolve'
  cases hresolve'
  exact load_matches hload hload'

/-- Leftover input that is reported in a source begins with a token that no
statement can be read from. The statements that were read stand before it, and
they are what the text before it is parsed to on its own. -/
theorem leftover_at_first_unmatched {location : Location}
    (h : (parse resolve depth source journal).1 = .error (.leftover location))
    (hsource : location.source = source) :
    ∃ below before token after front back nodes s, depth = below + 1 ∧
      source.scan.1 = before ++ token :: after ∧ token.location = location ∧
      token.kind ≠ .endOfStream ∧ source.text.toList = front ++ back ∧
      location.position.offset = (String.ofList front).utf8ByteSize ∧
      readStatements resolve below source ⟨.ofStream (Lexer.ofSource source),
        journal.record (.parsing source)⟩ = .ok nodes s ∧
      Stands source.scan.1 source.scan.2 (token :: after) s ∧
      (∀ t, Stands source.scan.1 source.scan.2 (token :: after) t →
        ∃ unfit t', readStatement resolve below source t = .error (.mismatch unfit) t') ∧
      ∀ cut : Source, cut.text = String.ofList front → ∀ other, ∃ program,
        (parse resolve depth cut other).1 = .ok program ∧
        Node.MatchesAll program.children nodes := by
  have hload : outcome (load resolve depth source (journal.record (.parsing source))) =
      .error (.fatal (.leftover location)) :=
    (parse_eq_error h).resolve_right fun hdeep => nomatch hdeep.2
  cases depth with
  | zero => cases hload
  | succ below =>
      obtain ⟨_, _, hstatements⟩ := readStatements_of_leftover hsource
        (loadsTo_of_outcome hload (by simp)) (journal.record (.parsing source))
      rw [load, outcome_loadWith_succ] at hload
      obtain ⟨t, hrun⟩ := outcome_eq_error_iff.mp hload
      have hended := readStatements_read resolve below source _ _
        (stands_ofSource source (journal.record (.parsing source)))
      rcases reading_eq_leftover hrun with hstopped | ⟨nodes, u, token, hread, hpeek, hkind, rfl⟩
      · rw [hstopped] at hstatements
        cases hstatements
      · rw [hread] at hended
        obtain ⟨rest, hstands, -, htaken⟩ := hended
        obtain ⟨after, rfl⟩ := exists_cons_of_peek hstands hpeek
        obtain ⟨before, -, hscan, -⟩ := id htaken
        rw [hscan] at htaken
        obtain ⟨front, back, htext, hposition, hcut⟩ := tokenize_cut hscan hkind
        refine ⟨below, before, token, after, front, back, nodes, u, rfl, hscan, rfl, hkind, htext,
          ?_, hread, hstands, fun t ht => ?_, fun cut hfront other => ?_⟩
        · rw [hposition, offset_advanceAll]
          exact Nat.zero_add _
        · obtain ⟨unfit, t', hmismatch⟩ := mismatch_after_readStatements
            (standing_of_stands (stands_ofSource source _)) hread
          exact ⟨unfit, (mismatch_of_ready (readStatement_agree resolve below source)
            (sameTape_ready hstands ht (by simp)) hmismatch).1⟩
        · obtain ⟨tokens, htokenize, hkinds⟩ := hcut cut hfront
          exact parse_of_programTaken htaken htokenize hkinds other

/-- The call is given up where its parenthesis is missing, and the value is the
object alone. -/
theorem leftover_at_first_unmatched_call :
    let resolve : String → Resolution := fun _ => .external
    let source : Source := .ofText "a = b (c"
    let location : Location := ⟨source, ⟨6, 0, 1, 7⟩⟩
    (parse resolve 1 source {}).1 = .error (.leftover location) ∧
      ∃ nodes s unfit t program,
        readStatements resolve 0 source ⟨.ofStream (Lexer.ofSource source),
          Journal.record {} (.parsing source)⟩ = .ok nodes s ∧
        readStatement resolve 0 source s = .error (.mismatch unfit) t ∧
        (parse resolve 1 (.ofText "a = b ") {}).1 = .ok program ∧
        Node.MatchesAll program.children nodes := by
  intro resolve source location
  have hchecks : (match (parse resolve 1 source {}).1 with
      | .ok _ => false
      | .error e => e == .leftover location) = true := by decide +kernel
  have hparse : (parse resolve 1 source {}).1 = .error (.leftover location) := by
    split at hchecks
    · cases hchecks
    · rename_i hparse
      rw [hparse, beq_iff_eq.mp hchecks]
  obtain ⟨below, before, token, after, front, back, nodes, s, hdepth, -, -, -, htext, hoffset,
    hread, hstands, hmismatch, hcut⟩ := leftover_at_first_unmatched hparse rfl
  obtain rfl : below = 0 := (Nat.succ.inj hdepth).symm
  have hfront : front = "a = b ".toList := by
    have hinits : ∀ cs ∈ source.text.toList.inits, 6 = (String.ofList cs).utf8ByteSize →
        cs = "a = b ".toList := by decide +kernel
    exact hinits front ((List.mem_inits _ _).mpr ⟨back, htext.symm⟩) hoffset
  obtain ⟨unfit, t, ht⟩ := hmismatch s hstands
  obtain ⟨program, hprogram, hmatches⟩ := hcut (.ofText "a = b ") (by rw [hfront]; rfl) {}
  exact ⟨hparse, nodes, s, unfit, t, program, hread, ht, hprogram, hmatches⟩

end BuildScript
