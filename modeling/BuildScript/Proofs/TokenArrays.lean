import BuildScript.Proofs.ParallelLoading
import BuildScript.Proofs.Loading

namespace BuildScript

open BuildScript.Parser BuildScript.Grammar

/-- Tokens in an array and the index of the token to be read next. What is
read beyond the last token is always the same. -/
structure TokenArray where
  tokens : Array Token
  beyond : Except LexError Token
  cursor : Nat := 0

namespace TokenArray

def peek (a : TokenArray) : Except LexError Token :=
  match a.tokens[a.cursor]? with
  | some token => .ok token
  | none => a.beyond

def next (a : TokenArray) : Except LexError Token × TokenArray :=
  match a.peek with
  | .ok token => (.ok token, { a with cursor := a.cursor + 1 })
  | .error e => (.error e, a)

instance : TokenSupply TokenArray where
  peek a := (a.peek, a)
  next := next
  mark a := ⟨a.cursor⟩
  rewind a m := { a with cursor := m.index }
  fetched _ := 0

/-- All tokens of a source up to its end or its first fault. Beyond them the
fault is met; where there is none, whatever one likes. -/
def ofSource (beyond : Except LexError Token) (source : Source) : TokenArray :=
  ⟨source.scan.1.toArray, (source.scan.2.map .error).getD beyond, 0⟩

end TokenArray

section Pulling

variable {τ : Type} [TokenStream τ]

def TokenStream.after (stream : τ) : Nat → τ
  | 0 => stream
  | n + 1 => (TokenStream.pull (after stream n)).2

/-- A reader whose stream has been pulled once for every token in the
buffer. -/
def Rewindable.PulledFrom (stream : τ) (r : Rewindable τ) : Prop :=
  r.stream = TokenStream.after stream r.buffer.size

theorem Rewindable.PulledFrom.peek_ok {stream : τ} {r r' : Rewindable τ} {token : Token}
    (h : r.PulledFrom stream) (hpeek : r.peek = (.ok token, r')) : r'.PulledFrom stream := by
  unfold Rewindable.peek at hpeek
  split at hpeek
  · cases hpeek
    exact h
  · split at hpeek
    · rename_i hpull
      cases hpeek
      rw [PulledFrom, Array.size_push, TokenStream.after, ← h, hpull]
    · cases hpeek

theorem Rewindable.PulledFrom.peek_error {stream : τ} {r r' : Rewindable τ} {e : LexError}
    (h : r.PulledFrom stream) (hpeek : r.peek = (.error e, r')) :
    r'.stream = TokenStream.after stream (r.buffer.size + 1) := by
  unfold Rewindable.peek at hpeek
  split at hpeek
  · cases hpeek
  · split at hpeek
    · cases hpeek
    · rename_i hpull
      cases hpeek
      rw [TokenStream.after, ← h, hpull]

theorem Metered.pull_eq {stream next : τ} {answer : Except LexError Token}
    (h : TokenStream.pull stream = (answer, next)) (n : Nat) :
    TokenStream.pull (⟨stream, n⟩ : Metered τ) = (answer, ⟨next, n + 1⟩) := by
  simp [TokenStream.pull, h]

/-- Counting the pulls changes nothing about the tape. -/
theorem Pulls.metered {stream : τ} {tape : List Token} {fault : Option LexError}
    (h : Pulls stream tape fault) (n : Nat) : Pulls (⟨stream, n⟩ : Metered τ) tape fault := by
  induction h generalizing n with
  | nothing stream => exact .nothing _
  | fault hpull => exact .fault (Metered.pull_eq hpull n)
  | token hpull _ ih => exact .token (Metered.pull_eq hpull n) (ih (n + 1))

theorem Metered.pulls_after (stream : τ) (n : Nat) :
    (TokenStream.after (⟨stream, 0⟩ : Metered τ) n).pulls = n := by
  induction n with
  | zero => rfl
  | succ n ih => exact congrArg (· + 1) ih

end Pulling

section Coupled

/-- How often the lexer of a source may be pulled: once for each token, and
once more for the fault. -/
def Source.pullLimit (source : Source) : Nat := source.scan.1.length + source.scan.2.toList.length

variable {τ : Type} [TokenStream τ]

/-- A rewindable stream for a source and the array of its tokens that stand at
the same place. -/
def arrayCoupling (stream : τ) (source : Source) (beyond : Except LexError Token) :
    Coupling (Rewindable τ) TokenArray where
  Ready s s' := s.supply.Standing source.scan.1 source.scan.2 ∧ s.supply.PulledFrom stream ∧
    s'.supply = { TokenArray.ofSource beyond source with cursor := s.supply.cursor }
  Since s _ t t' := t.supply.OnTape source.scan.1 source.scan.2 ∧ t.supply.PulledFrom stream ∧
    s.supply.buffer.size ≤ t.supply.buffer.size ∧
    ∃ cursor, t'.supply = { TokenArray.ofSource beyond source with cursor }
  Stop failure t _ :=
    (∃ n ≤ source.pullLimit, t.supply.stream = TokenStream.after stream n) ∧
      ∀ e, failure = .fatal (.lexical e) → e.location.source.tokenize = .error e
  Seen _ := True
  Lenient := False

variable {stream : τ} {source : Source} {beyond : Except LexError Token}

theorem Rewindable.OnTape.size_le_pullLimit {r : Rewindable τ}
    (h : r.OnTape source.scan.1 source.scan.2) : r.buffer.size ≤ source.pullLimit :=
  Nat.le_trans h.size_le (Nat.le_add_right _ _)

theorem arrayCoupling_stop {s : ParserState (Rewindable τ)} {s' : ParserState TokenArray}
    (hs : (arrayCoupling stream source beyond).Ready s s') {failure : Failure}
    (hfailure : ∀ e, failure = .fatal (.lexical e) → e.location.source.tokenize = .error e) :
    (arrayCoupling stream source beyond).Stop failure s s' :=
  ⟨⟨s.supply.buffer.size, hs.1.1.1.size_le_pullLimit, hs.2.1⟩, hfailure⟩

theorem arrayCoupling_answer {r : Rewindable τ} (hr : r.Standing source.scan.1 source.scan.2)
    (hpulled : r.PulledFrom stream) :
    (∃ token r', Rewindable.Saw source.scan.1 source.scan.2 r r' token ∧ r'.PulledFrom stream ∧
      TokenArray.peek { TokenArray.ofSource beyond source with cursor := r.cursor } = .ok token) ∨
    ∃ e r', r.peek = (.error e, r') ∧
      TokenArray.peek { TokenArray.ofSource beyond source with cursor := r.cursor } = .error e ∧
      ∀ journal s',
        (arrayCoupling stream source beyond).Stop (.fatal (.lexical e)) ⟨r', journal⟩ s' := by
  rcases hr.peek with ⟨token, r', hsaw⟩ | ⟨e, hfault, hout, r', hpeek⟩
  · refine .inl ⟨token, r', hsaw, hpulled.peek_ok hsaw.peek_eq, ?_⟩
    simp [TokenArray.peek, TokenArray.ofSource, hsaw.getElem?]
  · refine .inr ⟨e, r', hpeek, ?_, fun journal s' => ⟨⟨_, ?_, hpulled.peek_error hpeek⟩, ?_⟩⟩
    · simp [TokenArray.peek, TokenArray.ofSource, hout, hfault]
    · simpa [Source.pullLimit, hfault] using hr.1.1.size_le
    · intro e' he'
      cases he'
      obtain ⟨hsource, htokenize⟩ := Source.tokenize_of_fault hfault
      rw [hsource, htokenize]

theorem arrayCoupling_peek {s : ParserState (Rewindable τ)} {s' : ParserState TokenArray}
    (hs : (arrayCoupling stream source beyond).Ready s s') :
    Agreed (arrayCoupling stream source beyond) (fun _ => True) s s' (peek s) (peek s') := by
  obtain ⟨hstanding, hpulled, harray⟩ := hs
  simp only [Parser.peek, take, TokenSupply.peek, harray]
  rcases arrayCoupling_answer hstanding hpulled with
    ⟨token, r, hsaw, hpulled', hpeek⟩ | ⟨e, r, hpeek, hpeek', hstop⟩
  · rw [hsaw.peek_eq, hpeek]
    refine .matched trivial ⟨hsaw.standing, hpulled', ?_⟩
      ⟨hsaw.standing.1.1, hpulled', hsaw.size_le, _, rfl⟩
    rw [hsaw.cursor_eq]
  · rw [hpeek, hpeek']
    exact .stopped (by simp) (hstop _ _)

theorem arrayCoupling_next {s : ParserState (Rewindable τ)} {s' : ParserState TokenArray}
    (hs : (arrayCoupling stream source beyond).Ready s s') :
    ReadAlike (arrayCoupling stream source beyond) s s' (next s) (next s') := by
  obtain ⟨hstanding, hpulled, harray⟩ := hs
  simp only [Parser.next, take, TokenSupply.next, Rewindable.next, TokenArray.next, harray]
  rcases arrayCoupling_answer hstanding hpulled with
    ⟨token, r, hsaw, hpulled', hpeek⟩ | ⟨e, r, hpeek, hpeek', hstop⟩
  · rw [hsaw.peek_eq, hpeek]
    refine .token trivial ⟨hsaw.standing.1.1, hpulled', hsaw.size_le, _, rfl⟩
      fun hkind => ⟨hsaw.past hkind, hpulled', ?_⟩
    rw [hsaw.cursor_eq]
  · rw [hpeek, hpeek']
    exact .fault (hstop _ _)

theorem arrayCoupling_lawful : (arrayCoupling stream source beyond).Lawful where
  refl hs := ⟨hs.1.1.1, hs.2.1, Nat.le_refl _, _, hs.2.2⟩
  trans h h' := ⟨h'.1, h'.2.1, Nat.le_trans h.2.2.1 h'.2.2.1, h'.2.2.2⟩
  wind {s s' t t'} hs h := by
    obtain ⟨hstanding, -, harray⟩ := hs
    obtain ⟨htape, hpulled, hgrown, cursor, harray'⟩ := h
    have hback : (back s' t').supply =
        { TokenArray.ofSource beyond source with cursor := s.supply.cursor } := by
      simp [back, harray, harray', TokenSupply.rewind, TokenSupply.mark]
    exact ⟨⟨hstanding.rewind htape hgrown, hpulled, hback⟩, htape, hpulled, hgrown, _, hback⟩
  peek hs := arrayCoupling_peek hs
  next hs := arrayCoupling_next hs
  exhausted hs := arrayCoupling_stop hs (by simp)
  leftover hs _ := arrayCoupling_stop hs (by simp)

theorem arrayCoupling_splices : (arrayCoupling stream source beyond).Splices where
  journals hs _ _ := ⟨hs, hs.1.1.1, hs.2.1, Nat.le_refl _, _, hs.2.2⟩
  failed hs _ _ := arrayCoupling_stop hs (by simp)
  external hs _ _ := arrayCoupling_stop hs (by simp)

/-- However a run ends, the stream has not been pulled too often. -/
theorem arrayCoupling_limit {α : Type} {Q : α → Prop} {s : ParserState (Rewindable τ)}
    {s' : ParserState TokenArray} {result : EStateM.Result Failure (ParserState (Rewindable τ)) α}
    {result' : EStateM.Result Failure (ParserState TokenArray) α}
    (h : Agreed (arrayCoupling stream source beyond) Q s s' result result') :
    ∃ n ≤ source.pullLimit,
      (finalState result).supply.stream = TokenStream.after stream n := by
  cases h with
  | matched _ ready => exact ⟨_, ready.1.1.1.size_le_pullLimit, ready.2.1⟩
  | mismatched _ since => exact ⟨_, since.1.size_le_pullLimit, since.2.1⟩
  | stopped _ stop => exact stop.1
  | spent lenient => exact lenient.elim

end Coupled

section Loading

variable {τ : Type} [TokenStream τ] (streamOf : Source → τ)

abbrev lazily (source : Source) : Rewindable τ := .ofStream (streamOf source)

variable {streamOf} {resolve : String → Resolution} {beyond : Except LexError Token}

theorem run_agreed (hpulls : ∀ source, Pulls (streamOf source) source.scan.1 source.scan.2)
    {depth : Nat}
    (hload : ∀ source journal journal',
      outcome (loadWith (lazily streamOf) resolve depth source journal) =
        outcome (loadWith (TokenArray.ofSource beyond) resolve depth source journal'))
    (hlexical : ∀ source journal e,
      outcome (loadWith (lazily streamOf) resolve depth source journal) =
        .error (.fatal (.lexical e)) → e.location.source.tokenize = .error e)
    (source : Source) (journal journal' : Journal) :
    Agreed (arrayCoupling (streamOf source) source beyond) (fun _ => True)
      ⟨lazily streamOf source, journal⟩ ⟨TokenArray.ofSource beyond source, journal'⟩
      (runWith (lazily streamOf) resolve depth source journal)
      (runWith (TokenArray.ofSource beyond) resolve depth source journal') := by
  have hsplice : SpliceInStep (arrayCoupling (streamOf source) source beyond)
      (splice resolve (loadWith (lazily streamOf) resolve depth))
      (splice resolve (loadWith (TokenArray.ofSource beyond) resolve depth)) := by
    refine spliceInStep arrayCoupling_splices (fun _ found _ before before' => .inr ?_)
      (loadWith_decides _ resolve depth)
    refine ⟨hload found before before', fun failure hfailure s s' hs => arrayCoupling_stop hs ?_⟩
    rintro e rfl
    exact hlexical found before e hfailure
  refine inStep_program arrayCoupling_lawful (inStep_value arrayCoupling_lawful hsplice _) _ _ _ ?_
  exact ⟨⟨Rewindable.at_ofStream (hpulls source), (stands_ofSource source {}).2⟩, rfl, rfl⟩

theorem loadWith_eq_array (resolve : String → Resolution) (beyond : Except LexError Token)
    (hpulls : ∀ source, Pulls (streamOf source) source.scan.1 source.scan.2) (depth : Nat)
    (source : Source) (journal journal' : Journal) :
    outcome (loadWith (lazily streamOf) resolve depth source journal) =
        outcome (loadWith (TokenArray.ofSource beyond) resolve depth source journal') ∧
      ∀ e, outcome (loadWith (lazily streamOf) resolve depth source journal) =
        .error (.fatal (.lexical e)) → e.location.source.tokenize = .error e := by
  induction depth generalizing source journal journal' with
  | zero => exact ⟨rfl, fun e h => by cases h⟩
  | succ depth ih =>
      have hagreed := run_agreed hpulls (fun source journal journal' =>
        (ih source journal journal').1) (fun source journal => (ih source journal {}).2)
        source journal journal'
      simp only [outcome_loadWith_succ]
      generalize runWith (lazily streamOf) resolve depth source journal = result at hagreed ⊢
      generalize runWith (TokenArray.ofSource beyond) resolve depth source journal' = result'
        at hagreed ⊢
      refine ⟨hagreed.outcome_eq.resolve_left And.left, fun e he => ?_⟩
      cases hagreed with
      | matched => cases he
      | mismatched => cases he
      | stopped _ stop =>
          cases he
          exact stop.2 e rfl
      | spent lenient => exact lenient.elim

end Loading

/-- Parsing over any supply of tokens. -/
def parseWith {σ : Type} [TokenSupply σ] (supply : Source → σ) (resolve : String → Resolution)
    (depth : Nat) (source : Source) (journal : Journal) : Except ParseError Node :=
  reported source (outcome (loadWith supply resolve depth source journal))

section Metered

abbrev meteredLexer (source : Source) : Metered Lexer := { stream := Lexer.ofSource source }

/-- How often the lexer of a source is pulled while the source is read. -/
def pullCount (resolve : String → Resolution) : (depth : Nat) → Source → Journal → Nat
  | 0, _, _ => 0
  | depth + 1, source, journal =>
    (finalState (runWith (lazily meteredLexer) resolve depth source journal)).supply.stream.pulls

variable {resolve : String → Resolution} {depth : Nat} {source : Source} {journal : Journal}

theorem pulls_meteredLexer (source : Source) :
    Pulls (meteredLexer source) source.scan.1 source.scan.2 :=
  source.pulls_scan.metered 0

/-- A counted run agrees with the array of its tokens. -/
theorem meteredRun_agreed (resolve : String → Resolution) (beyond : Except LexError Token)
    (depth : Nat) (source : Source) (journal journal' : Journal) :
    Agreed (arrayCoupling (meteredLexer source) source beyond) (fun _ => True)
      ⟨lazily meteredLexer source, journal⟩ ⟨TokenArray.ofSource beyond source, journal'⟩
      (runWith (lazily meteredLexer) resolve depth source journal)
      (runWith (TokenArray.ofSource beyond) resolve depth source journal') :=
  run_agreed pulls_meteredLexer
    (fun source journal journal' =>
      (loadWith_eq_array resolve beyond pulls_meteredLexer depth source journal journal').1)
    (fun source journal =>
      (loadWith_eq_array resolve beyond pulls_meteredLexer depth source journal {}).2)
    source journal journal'

theorem mem_buffer_of_peek {τ : Type} [TokenStream τ] {s t : ParserState (Rewindable τ)}
    {token : Token} (h : peek s = .ok token t) : token ∈ t.supply.buffer := by
  simp only [Parser.peek, take, TokenSupply.peek, Rewindable.peek] at h
  split at h
  · rename_i hread
    cases h
    split at hread
    · rename_i hget
      cases hread
      exact Array.mem_of_getElem? hget
    · split at hread
      · cases hread
        simp
      · cases hread
  · cases h

theorem pulls_eq_of_after {m : Metered Lexer} {n : Nat}
    (h : m = TokenStream.after (meteredLexer source) n) : m.pulls = n := by
  rw [h]
  exact Metered.pulls_after _ n

theorem pullCount_le (resolve : String → Resolution) (depth : Nat) (source : Source)
    (journal : Journal) :
    pullCount resolve depth source journal ≤ source.pullLimit := by
  cases depth with
  | zero => exact Nat.zero_le _
  | succ depth =>
      have hagreed := meteredRun_agreed resolve (.error ⟨.unexpectedEnd, .startOf source⟩) depth
        source journal journal
      obtain ⟨n, hn, hstream⟩ := arrayCoupling_limit hagreed
      rwa [pullCount, pulls_eq_of_after hstream]

theorem size_eq_of_end_mem {τ : Type} [TokenStream τ] {r : Rewindable τ}
    (htape : r.OnTape source.scan.1 source.scan.2) {token : Token} (htoken : token ∈ r.buffer)
    (hkind : token.kind = .endOfStream) :
    source.tokenize = .ok source.scan.1 ∧ r.buffer.size = source.scan.1.length := by
  obtain ⟨later, hsplit, -⟩ := htape
  obtain ⟨before, after, hbuffer⟩ := List.append_of_mem (Array.mem_toList_iff.mpr htoken)
  have hscan : source.scan.1 = before ++ token :: (after ++ later) := by simp [hsplit, hbuffer]
  obtain ⟨htokenize, hnone⟩ := Source.tokenize_of_end hscan hkind
  obtain ⟨rfl, rfl⟩ := List.append_eq_nil_iff.mp hnone
  refine ⟨?_, by simp [hsplit]⟩
  rw [htokenize, hscan, List.append_nil]

theorem pullCount_of_ok {node : Node}
    (h : outcome (loadWith (lazily meteredLexer) resolve depth source journal) = .ok node) :
    ∃ tokens, source.tokenize = .ok tokens ∧
      pullCount resolve depth source journal = tokens.length := by
  cases depth with
  | zero => cases h
  | succ depth =>
      rw [outcome_loadWith_succ] at h
      obtain ⟨s, hrun⟩ := outcome_eq_ok_iff.mp h
      obtain ⟨_, _, last, _, -, -, hlast, hend⟩ := program_eq_ok hrun
      have hagreed := meteredRun_agreed resolve (.error ⟨.unexpectedEnd, .startOf source⟩) depth
        source journal journal
      rw [hrun] at hagreed
      rw [pullCount, hrun]
      generalize runWith (TokenArray.ofSource _) resolve depth source journal = result' at hagreed
      cases hagreed with
      | matched _ ready =>
          obtain ⟨htokenize, hsize⟩ := size_eq_of_end_mem ready.1.1.1
            (mem_buffer_of_peek hlast) hend
          exact ⟨_, htokenize, by rw [finalState, pulls_eq_of_after ready.2.1, hsize]⟩

/-- Up to the last pull that a source may take, all answers are tokens and
none is the end of the stream. -/
theorem kind_of_mem_take {token : Token}
    (h : token ∈ source.scan.1.take (source.pullLimit - 1)) :
    token.kind ≠ .endOfStream := by
  cases hfault : source.scan.2 with
  | some e => exact Source.kind_ne_end_of_scan (Prod.ext rfl hfault) token (List.mem_of_mem_take h)
  | none =>
      obtain ⟨others, last, htokens, -, hothers⟩ :=
        Source.tokenize_eq_append (Source.tokenize_eq_ok_iff.mpr (Prod.ext rfl hfault))
      rw [Source.pullLimit, hfault, show source.scan.1 = others ++ [last] from htokens] at h
      exact hothers token (by simpa using h)

theorem reads_before_last {n : Nat} (hn : n ≤ source.pullLimit) :
    ∀ answer ∈ ((Lexer.ofSource source).reads (n - 1)).1,
      ∃ token, answer = .ok token ∧ token.isEnd = false := by
  intro answer hanswer
  have hlimit : source.pullLimit ≤ source.scan.1.length + 1 := by
    unfold Source.pullLimit
    cases source.scan.2 with
    | none => simp
    | some e => simp
  rw [Lexer.reads_of_pulls source.pulls_scan (by omega)] at hanswer
  obtain ⟨token, htoken, rfl⟩ := List.mem_map.mp hanswer
  have hkind := kind_of_mem_take (List.take_subset_take_left _ (Nat.sub_le_sub_right hn 1) htoken)
  exact ⟨token, rfl, by simpa [Token.isEnd] using hkind⟩

end Metered

/-- Parsing token by token gives what parsing the array of all tokens gives,
where reading beyond the array raises the fault of the source. A source that is
parsed is tokenized, and its lexer was pulled once for each token; an error of
the lexer in the source is the error it is tokenized with; and in every run,
of the source or of an import, the lexer is pulled again only after tokens
other than the end of the stream. -/
theorem parse_eq_array (resolve : String → Resolution) (depth : Nat) (source : Source)
    (journal journal' : Journal) :
    (∀ beyond, (parse resolve depth source journal).1 =
      parseWith (TokenArray.ofSource beyond) resolve depth source journal') ∧
    (parse resolve depth source journal).1 =
      parseWith (lazily meteredLexer) resolve depth source journal' ∧
    (∀ program, (parse resolve depth source journal).1 = .ok program →
      ∃ tokens, source.tokenize = .ok tokens ∧
        pullCount resolve depth source journal' = tokens.length) ∧
    (∀ e, (parse resolve depth source journal).1 = .error (.lexical e) →
      e.location.source = source → source.tokenize = .error e) ∧
    ∀ answer ∈ ((Lexer.ofSource source).reads (pullCount resolve depth source journal' - 1)).1,
      ∃ token, answer = .ok token ∧ token.isEnd = false := by
  have harray (beyond : Except LexError Token) (before after : Journal) :=
    loadWith_eq_array resolve beyond Source.pulls_scan depth source before after
  have hmetered (before after : Journal) :
      outcome (load resolve depth source before) =
        outcome (loadWith (lazily meteredLexer) resolve depth source after) := by
    have hcounted := loadWith_eq_array resolve (.error ⟨.unexpectedEnd, .startOf source⟩)
      pulls_meteredLexer depth source after {}
    exact (harray _ before {}).1.trans hcounted.1.symm
  refine ⟨fun beyond => ?_, ?_, fun program h => ?_, fun e h hsource => ?_,
    reads_before_last (pullCount_le resolve depth source journal')⟩
  · rw [parse_fst]
    exact congrArg (reported source) (harray beyond _ journal').1
  · rw [parse_fst, hmetered _ journal']
    rfl
  · rw [parse_fst, reported_eq_ok, hmetered _ journal'] at h
    exact pullCount_of_ok h
  · rcases parse_eq_error h with hfatal | ⟨-, hdeep⟩
    · have htokenize := (harray (.error e) _ {}).2 e hfatal
      rwa [hsource] at htokenize
    · cases hdeep

end BuildScript
