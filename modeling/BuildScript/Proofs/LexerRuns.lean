import BuildScript.Proofs.LexicalFaults
import BuildScript.Proofs.Locations

namespace BuildScript.Lexer

open Scanner LexicalGrammar

/-- Answers that are given again by every later read: the end of the stream, and
a character that stays unread. -/
inductive Repeats : Except LexError Token → Prop where
  | ended (location : Location) : Repeats (.ok ⟨.endOfStream, location⟩)
  | unread {c : Char} (hc : c ≠ '/') (location : Location) :
      Repeats (.error ⟨.unexpectedCharacter c, location⟩)

/-- Answers after which there may be more to read: a token, and a slash on its
own. -/
inductive GoesOn : Except LexError Token → Prop where
  | token {token : Token} (hkind : token.kind ≠ .endOfStream) : GoesOn (.ok token)
  | slash (location : Location) : GoesOn (.error ⟨.unexpectedCharacter '/', location⟩)

inductive Leaves (lexer : Lexer) : Except LexError Token → Lexer → Prop where
  | settled {answer : Except LexError Token} {after : Lexer} (hanswer : Repeats answer)
      (hafter : after.next = (answer, after)) : Leaves lexer answer after
  | ranOut {location : Location} {after : Lexer} (hafter : after.cursor.rest = [])
      (hshorter : after.cursor.rest.length < lexer.cursor.rest.length) :
      Leaves lexer (.error ⟨.unexpectedEnd, location⟩) after
  | onward {answer : Except LexError Token} {after : Lexer} (hanswer : GoesOn answer)
      (hshorter : after.cursor.rest.length < lexer.cursor.rest.length) :
      Leaves lexer answer after

/-- What one read of a lexer does that has come somewhere in a source. -/
structure ReadsOn (source : Source) (lexer : Lexer) (answer : Except LexError Token)
    (after : Lexer) : Prop where
  offset_le : lexer.cursor.position.offset ≤ after.cursor.position.offset
  isValid : (⟨after.cursor.position.offset⟩ : String.Pos.Raw).IsValid source.text
  repeated : Repeats answer → ∀ m, after.reads m = (List.replicate m answer, after)
  ended : ∀ location, answer = .error ⟨.unexpectedEnd, location⟩ →
    after.cursor.position.offset = source.text.utf8ByteSize ∧
    ∀ m, after.reads m =
      (List.replicate m (.ok ⟨.endOfStream, ⟨source, after.cursor.position⟩⟩), after)
  offset_lt : GoesOn answer → lexer.cursor.position.offset < after.cursor.position.offset

variable {source : Source} {lexer after : Lexer} {answer : Except LexError Token}

theorem Repeats.not_goesOn (h : Repeats answer) : ¬ GoesOn answer := by
  intro hgoes
  cases h with
  | ended =>
      cases hgoes with
      | token hkind => exact hkind rfl
  | unread hc =>
      cases hgoes with
      | slash => exact hc rfl

theorem next_of_rest_eq_nil (h : lexer.cursor.rest = []) :
    lexer.next = (.ok ⟨.endOfStream, ⟨lexer.source, lexer.cursor.position⟩⟩, lexer) := by
  obtain ⟨source, ⟨rest, position⟩⟩ := lexer
  subst h
  exact next_of_last (.nothing []) source position

theorem unclosed_ne_nil {cs : List Char} (h : Unclosed cs) : cs ≠ [] := by
  cases h with
  | _ => simp

theorem leaves_of_next (h : lexer.next = (answer, after)) : lexer.Leaves answer after := by
  obtain ⟨source, ⟨cs, p⟩⟩ := lexer
  obtain ⟨before, taken, answer, hanswers⟩ := exists_answers cs
  obtain ⟨rest, hcs, hnext⟩ := hanswers.next_eq source p
  have hlength : cs.length = taken.length + rest.length := by rw [hcs, List.length_append]
  rw [hnext] at h
  cases h
  cases hanswers with
  | token hlayout hlexeme =>
      have hpos := List.length_pos_iff.mpr hlexeme.ne_nil
      refine .onward (.token hlexeme.kind_ne_end) ?_
      simp only [List.length_append] at hlength ⊢
      omega
  | last hlayout =>
      obtain rfl : rest = [] := List.append_right_eq_self.mp hcs.symm
      exact .settled (.ended _) (next_of_rest_eq_nil rfl)
  | @fault w cs before taken fault hlayout hobstacle =>
      cases hobstacle with
      | slash hopen =>
          refine .onward (.slash _) ?_
          simp only [List.length_append, List.length_singleton] at hlength ⊢
          omega
      | @foreign c rest' hc =>
          have hslash : c ≠ '/' := by
            rintro rfl
            exact hc.not_opening (by simp)
          rw [List.append_nil] at hcs
          obtain rfl : c :: rest' = rest := List.append_cancel_left hcs
          obtain ⟨_, hsame, hagain⟩ := (Obstacle.foreign hc).next_eq
            (.nothing (c :: rest')) source (p.advanceAll (w ++ []))
          obtain rfl : c :: rest' = _ := hsame
          exact .settled (.unread hslash _) hagain
      | unclosed hopen =>
          obtain rfl : rest = [] := List.append_right_eq_self.mp hcs.symm
          refine .ranOut rfl ?_
          have hpos := List.length_pos_iff.mpr (unclosed_ne_nil hopen)
          simp only [List.length_append, List.length_nil]
          omega

/-- A lexer that a read leaves as it was gives the same answer for ever. -/
theorem reads_of_next_self (h : lexer.next = (answer, lexer)) (m : Nat) :
    lexer.reads m = (List.replicate m answer, lexer) := by
  induction m with
  | zero => rfl
  | succ m ih =>
      rw [reads, h]
      simp only [ih, List.replicate_succ]

theorem exists_used (h : lexer.next = (answer, after)) :
    ∃ used, lexer.cursor.rest = used ++ after.cursor.rest ∧
      after.cursor.position = lexer.cursor.position.advanceAll used := by
  have hreached := (next_reached lexer).2
  rwa [h] at hreached

theorem offset_lt_of_length_lt (h : lexer.next = (answer, after))
    (hshorter : after.cursor.rest.length < lexer.cursor.rest.length) :
    lexer.cursor.position.offset < after.cursor.position.offset := by
  obtain ⟨used, hrest, hposition⟩ := exists_used h
  rw [hposition]
  apply offset_lt_advanceAll
  rintro rfl
  rw [hrest, List.nil_append] at hshorter
  exact Nat.lt_irrefl _ hshorter

theorem IsIn.position_eq (h : lexer.IsIn source) (hrest : lexer.cursor.rest = []) :
    lexer.cursor.position = Position.start.advanceAll source.text.toList := by
  obtain ⟨-, used, htext, hposition⟩ := h
  rw [hposition, htext, hrest, List.append_nil]

theorem IsIn.readsOn (h : lexer.IsIn source) (hnext : lexer.next = (answer, after)) :
    ReadsOn source lexer answer after := by
  have hleaves := leaves_of_next hnext
  have hafter := (next_isIn h).1
  rw [hnext] at hafter
  constructor
  case offset_le =>
    obtain ⟨used, -, hposition⟩ := exists_used hnext
    rw [hposition]
    exact offset_le_advanceAll _ used
  case isValid =>
    obtain ⟨earlier, current, rest, hpoints⟩ := (isCounted_of_reached hafter.2).isExact
    exact hpoints.isValid
  case repeated =>
    intro hrepeats m
    cases hleaves with
    | settled _ hagain => exact reads_of_next_self hagain m
    | ranOut => cases hrepeats
    | onward hgoes => exact absurd hgoes hrepeats.not_goesOn
  case ended =>
    rintro location rfl
    cases hleaves with
    | settled hrepeats => cases hrepeats
    | onward hgoes => cases hgoes
    | ranOut hrest =>
        constructor
        · rw [hafter.position_eq hrest, offset_start_advanceAll, String.ofList_toList]
        · have hend := next_of_rest_eq_nil hrest
          rw [hafter.1] at hend
          exact reads_of_next_self hend
  case offset_lt =>
    intro hgoes
    apply offset_lt_of_length_lt hnext
    cases hleaves with
    | settled hrepeats => exact absurd hgoes hrepeats.not_goesOn
    | ranOut => cases hgoes
    | onward _ hshorter => exact hshorter

/-- After as many reads as there are characters left, all answers are the same:
every other read takes a character. -/
theorem exists_settled_answer {n : Nat} (hn : lexer.cursor.rest.length ≤ n) :
    ∃ answer, ∀ k, (lexer.reads (n + k)).1 = (lexer.reads n).1 ++ List.replicate k answer := by
  induction n generalizing lexer with
  | zero =>
      have hend := next_of_rest_eq_nil (List.eq_nil_of_length_eq_zero (Nat.le_zero.mp hn))
      refine ⟨.ok ⟨.endOfStream, ⟨lexer.source, lexer.cursor.position⟩⟩, fun k => ?_⟩
      rw [Nat.zero_add, reads_of_next_self hend]
      rfl
  | succ n ih =>
      rcases hnext : lexer.next with ⟨answer, after⟩
      have hlater : ∃ last, ∀ k,
          (after.reads (n + k)).1 = (after.reads n).1 ++ List.replicate k last := by
        cases leaves_of_next hnext with
        | settled _ hagain =>
            refine ⟨answer, fun k => ?_⟩
            rw [reads_of_next_self hagain, reads_of_next_self hagain, List.replicate_add]
        | ranOut _ hshorter => exact ih (by omega)
        | onward _ hshorter => exact ih (by omega)
      obtain ⟨last, hlast⟩ := hlater
      refine ⟨last, fun k => ?_⟩
      rw [Nat.succ_add, reads, reads, hnext]
      simp only [hlast, List.cons_append]

/-- The reads up to the first answer that is not a token to go on with: the end
of the stream, or an error. -/
structure RunsTo (lexer : Lexer) (tokens : List Token) (answer : Except LexError Token) : Prop where
  reads_eq : (lexer.reads (tokens.length + 1)).1 = tokens.map .ok ++ [answer]
  kind_ne_end : ∀ token ∈ tokens, token.kind ≠ .endOfStream
  kind_eq_end : ∀ last, answer = .ok last → last.kind = .endOfStream

theorem RunsTo.now (hnext : lexer.next = (answer, after))
    (hend : ∀ last, answer = .ok last → last.kind = .endOfStream) : lexer.RunsTo [] answer := by
  refine ⟨?_, by simp, hend⟩
  rw [List.length_nil, reads, hnext]
  rfl

theorem RunsTo.cons {token : Token} {tokens : List Token} (hnext : lexer.next = (.ok token, after))
    (hkind : token.kind ≠ .endOfStream) (h : after.RunsTo tokens answer) :
    lexer.RunsTo (token :: tokens) answer := by
  refine ⟨?_, List.forall_mem_cons.mpr ⟨hkind, h.kind_ne_end⟩, h.kind_eq_end⟩
  rw [List.length_cons, reads, hnext]
  simp only [h.reads_eq, List.map_cons, List.cons_append]

/-- What collecting tokens comes to that stops with an answer. -/
def collected (tokens : List Token) : Except LexError Token → List Token × Option LexError
  | .ok last => (tokens ++ [last], none)
  | .error e => (tokens, some e)

/-- Collecting tokens stops after at most as many of them as there are
characters, and any greater bound on the reads gives the same. -/
theorem exists_runsTo (lexer : Lexer) :
    ∃ tokens answer, tokens.length ≤ lexer.cursor.rest.length ∧ lexer.RunsTo tokens answer ∧
      ∀ m > lexer.cursor.rest.length, lexer.readAll m = collected tokens answer := by
  induction hn : lexer.cursor.rest.length using Nat.strongRecOn generalizing lexer with
  | ind n ih =>
      rcases hnext : lexer.next with ⟨e | token, after⟩
      · refine ⟨[], .error e, Nat.zero_le _, .now hnext nofun, fun m hm => ?_⟩
        obtain ⟨m, rfl⟩ := Nat.exists_eq_succ_of_ne_zero (Nat.ne_zero_of_lt hm)
        rw [readAll, hnext]
        rfl
      · by_cases hend : token.isEnd = true
        · have hkind : token.kind = .endOfStream := by simpa [Token.isEnd] using hend
          refine ⟨[], .ok token, Nat.zero_le _, .now hnext ?_, fun m hm => ?_⟩
          · rintro last hlast
            cases hlast
            exact hkind
          · obtain ⟨m, rfl⟩ := Nat.exists_eq_succ_of_ne_zero (Nat.ne_zero_of_lt hm)
            rw [readAll, hnext]
            simp [hend, collected]
        · have hkind : token.kind ≠ .endOfStream := by simpa [Token.isEnd] using hend
          have hshorter := next_length hnext (by simpa using hend)
          obtain ⟨tokens, answer, hlength, hlater, hread⟩ := ih _ (by omega) after rfl
          refine ⟨token :: tokens, answer, by rw [List.length_cons]; omega,
            .cons hnext hkind hlater, fun m hm => ?_⟩
          obtain ⟨m, rfl⟩ := Nat.exists_eq_succ_of_ne_zero (Nat.ne_zero_of_lt hm)
          rw [readAll, hnext]
          simp only [hend, Bool.false_eq_true, if_false, hread m (by omega)]
          cases answer with
          | ok last => rfl
          | error e => rfl

end BuildScript.Lexer

namespace BuildScript

/-- However often the lexer of a source has been read, the next read goes on in
the text or has the answer that all later reads have. After one read for each
character the answers are the same for ever, and by then the source has been
tokenized: the tokens come first, and then the end of the stream or the error. -/
theorem reads_settle (source : Source) :
    (∀ k answer after, ((Lexer.ofSource source).reads k).2.next = (answer, after) →
      Lexer.ReadsOn source ((Lexer.ofSource source).reads k).2 answer after) ∧
    (∃ answer, ∀ k, ((Lexer.ofSource source).reads (source.text.toList.length + k)).1 =
      ((Lexer.ofSource source).reads source.text.toList.length).1 ++ List.replicate k answer) ∧
    ∃ tokens answer, tokens.length ≤ source.text.toList.length ∧
      (Lexer.ofSource source).RunsTo tokens answer ∧
      source.tokenize = answer.map fun last => tokens ++ [last] := by
  refine ⟨fun k answer after hnext => ?_, Lexer.exists_settled_answer (Nat.le_refl _), ?_⟩
  · exact (Lexer.reads_isIn k (Lexer.isIn_ofSource source)).1.readsOn hnext
  · obtain ⟨tokens, answer, hlength, hruns, hread⟩ := (Lexer.ofSource source).exists_runsTo
    have hscan : source.scan = Lexer.collected tokens answer := hread _ (Nat.lt_succ_self _)
    refine ⟨tokens, answer, hlength, hruns, ?_⟩
    rw [Source.tokenize, hscan]
    cases answer with
    | ok last => rfl
    | error e => rfl

end BuildScript
