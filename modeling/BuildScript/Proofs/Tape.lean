import BuildScript.Token.Rewindable
import BuildScript.Parsing.Program

namespace BuildScript

/-- A stream that is pulled again and again gives these tokens first, and then
the fault, if there is one. Without a fault nothing is said about what comes
after the tokens. -/
inductive Pulls {τ : Type} [TokenStream τ] : τ → List Token → Option LexError → Prop where
  | nothing (stream : τ) : Pulls stream [] none
  | fault {stream next : τ} {e : LexError} (h : TokenStream.pull stream = (.error e, next)) :
      Pulls stream [] (some e)
  | token {stream next : τ} {t : Token} {ts : List Token} {fault : Option LexError}
      (h : TokenStream.pull stream = (.ok t, next)) (hnext : Pulls next ts fault) :
      Pulls stream (t :: ts) fault

namespace Rewindable

variable {τ : Type} [TokenStream τ] {r : Rewindable τ} {tape : List Token}
  {fault : Option LexError}

/-- The buffer of a reader is the part of its tape that has been pulled. -/
def OnTape (tape : List Token) (fault : Option LexError) (r : Rewindable τ) : Prop :=
  ∃ later, tape = r.buffer.toList ++ later ∧ Pulls r.stream later fault

def At (tape : List Token) (fault : Option LexError) (ts : List Token) (r : Rewindable τ) :
    Prop :=
  r.OnTape tape fault ∧ r.cursor ≤ r.buffer.size ∧ tape.drop r.cursor = ts

theorem at_ofStream {stream : τ} (h : Pulls stream tape fault) :
    (ofStream stream).At tape fault tape :=
  ⟨⟨tape, rfl, h⟩, Nat.zero_le _, rfl⟩

theorem peek_at {t : Token} {ts : List Token} (h : r.At tape fault (t :: ts)) :
    ∃ r' : Rewindable τ, r.peek = (.ok t, r') ∧ r'.At tape fault (t :: ts) ∧
      r'.cursor = r.cursor ∧ r.buffer.size ≤ r'.buffer.size ∧ r.cursor < r'.buffer.size := by
  obtain ⟨⟨later, htape, hpulls⟩, hcursor, hdrop⟩ := h
  rcases Nat.lt_or_eq_of_le hcursor with hlt | heq
  · have hget : r.buffer[r.cursor]? = some t := by
      have hsome : tape[r.cursor]? = some t := by
        rw [← List.head?_drop, hdrop]
        rfl
      rw [htape, List.getElem?_append_left (by simpa using hlt)] at hsome
      simpa using hsome
    exact ⟨r, peek_of_buffered hget, ⟨⟨later, htape, hpulls⟩, hcursor, hdrop⟩, rfl, Nat.le_refl _,
      hlt⟩
  · have hlater : later = t :: ts := by
      rw [← hdrop, htape, heq]
      simp
    subst hlater
    cases hpulls with
    | token hpull hnext =>
        rename_i next
        have hnone : r.buffer[r.cursor]? = none := by simp [heq]
        refine ⟨⟨next, r.buffer.push t, r.cursor⟩, ?_, ⟨⟨ts, ?_, hnext⟩, ?_, hdrop⟩, rfl, ?_, ?_⟩
        · simp [peek, hnone, hpull]
        · simp [htape]
        · simpa using Nat.le_succ_of_le hcursor
        · simp
        · simpa using Nat.lt_succ_of_le hcursor

theorem next_at {t : Token} {ts : List Token} (h : r.At tape fault (t :: ts)) :
    ∃ r' : Rewindable τ, r.next = (.ok t, r') ∧ r'.At tape fault ts ∧
      r.buffer.size ≤ r'.buffer.size := by
  obtain ⟨r', hpeek, ⟨htape, -, hdrop⟩, hcursor, hsize, hlt⟩ := peek_at h
  refine ⟨{ r' with cursor := r'.cursor + 1 }, ?_, ⟨htape, ?_, ?_⟩, hsize⟩
  · simp [next, hpeek]
  · rw [hcursor]
    exact hlt
  · rw [← List.tail_drop, hdrop]
    rfl

theorem peek_at_nil {e : LexError} (h : r.At tape (some e) []) :
    ∃ r' : Rewindable τ, r.peek = (.error e, r') := by
  obtain ⟨⟨later, htape, hpulls⟩, hcursor, hdrop⟩ := h
  have hlength : tape.length ≤ r.cursor := List.drop_eq_nil_iff.mp hdrop
  rw [htape, List.length_append, Array.length_toList] at hlength
  have hlater : later = [] := List.eq_nil_of_length_eq_zero (by omega)
  subst hlater
  cases hpulls with
  | fault hpull =>
      rename_i next
      have hnone : r.buffer[r.cursor]? = none := by
        rw [Array.getElem?_eq_none_iff]
        omega
      exact ⟨{ r with stream := next }, by simp [peek, hnone, hpull]⟩

theorem next_at_nil {e : LexError} (h : r.At tape (some e) []) :
    ∃ r' : Rewindable τ, r.next = (.error e, r') := by
  obtain ⟨r', hpeek⟩ := peek_at_nil h
  exact ⟨r', by simp [next, hpeek]⟩

theorem OnTape.size_le (h : r.OnTape tape fault) : r.buffer.size ≤ tape.length := by
  obtain ⟨later, htape, -⟩ := h
  simp [htape]

/-- A reader somewhere on its tape. Unless a fault follows, the end of the
stream is still ahead of it. -/
def Standing (tape : List Token) (fault : Option LexError) (r : Rewindable τ) : Prop :=
  r.At tape fault (tape.drop r.cursor) ∧
    (fault = none → ∃ t ∈ tape.drop r.cursor, t.kind = .endOfStream)

/-- A reader that has pulled more tokens can be wound back. -/
theorem Standing.rewind {r' : Rewindable τ} (h : r.Standing tape fault)
    (htape : r'.OnTape tape fault) (hsize : r.buffer.size ≤ r'.buffer.size) :
    (r'.rewind r.mark).Standing tape fault :=
  ⟨⟨htape, Nat.le_trans h.1.2.1 hsize, rfl⟩, h.2⟩

/-- A reader that has seen the token it stands at. It may go on past the token,
unless that was the end of the stream. -/
structure Saw (tape : List Token) (fault : Option LexError) (r r' : Rewindable τ) (token : Token) :
    Prop where
  peek_eq : r.peek = (.ok token, r')
  getElem? : tape[r.cursor]? = some token
  cursor_eq : r'.cursor = r.cursor
  size_le : r.buffer.size ≤ r'.buffer.size
  standing : r'.Standing tape fault
  past : token.kind ≠ .endOfStream → ({ r' with cursor := r'.cursor + 1 }).Standing tape fault

theorem Standing.peek (h : r.Standing tape fault) :
    (∃ token r', Saw tape fault r r' token) ∨
      ∃ e, fault = some e ∧ tape.length ≤ r.cursor ∧
        ∃ r' : Rewindable τ, r.peek = (.error e, r') := by
  obtain ⟨hat, hend⟩ := h
  cases hdrop : tape.drop r.cursor with
  | nil =>
      rw [hdrop] at hat hend
      cases fault with
      | none => simp at hend
      | some e => exact .inr ⟨e, rfl, List.drop_eq_nil_iff.mp hdrop, peek_at_nil hat⟩
  | cons token rest =>
      rw [hdrop] at hat hend
      obtain ⟨r', hpeek, ⟨htape, hcursor', hdrop'⟩, hcursor, hsize, hlt⟩ := peek_at hat
      have hrest : tape.drop (r'.cursor + 1) = rest := by
        rw [← List.tail_drop, hdrop']
        rfl
      refine .inl ⟨token, r', hpeek, ?_, hcursor, hsize, ⟨⟨htape, hcursor', rfl⟩, ?_⟩,
        fun hkind => ⟨⟨htape, ?_, rfl⟩, fun hnone => ?_⟩⟩
      · rw [← List.head?_drop, hdrop]
        rfl
      · rw [hdrop']
        exact hend
      · rw [hcursor]
        exact hlt
      · obtain ⟨last, hlast, hlastKind⟩ := hend hnone
        rcases List.mem_cons.mp hlast with rfl | hlast
        · exact absurd hlastKind hkind
        · exact ⟨last, by rwa [hrest], hlastKind⟩

end Rewindable

namespace Lexer

open Scanner

theorem readToken_length {cs : List Char} {p : Position} {kind : TokenKind} {cursor : Cursor}
    (h : readToken cs p = (.ok kind, cursor)) (hkind : kind ≠ .endOfStream) :
    cursor.rest.length < cs.length := by
  rcases cs with _ | ⟨c, cs⟩
  · simp only [readToken, Prod.mk.injEq, Except.ok.injEq] at h
    exact absurd h.1.symm hkind
  · simp only [readToken] at h
    split at h
    · cases h
      simp
    · split at h
      · have hreached := (readString_reached cs (p.advance c)).length_le
        split at h
        · rename_i heq
          cases h
          rw [heq] at hreached
          simpa using Nat.lt_succ_of_le hreached
        · cases h
      · split at h
        · rename_i hletter
          cases h
          have hword : isWordChar c = true := by simp [isWordChar, hletter]
          have hlength := (List.dropWhile_suffix isWordChar (l := cs)).length_le
          simpa [readWord, List.dropWhile_cons_of_pos hword] using Nat.lt_succ_of_le hlength
        · cases h

theorem next_length {lexer lexer' : Lexer} {token : Token}
    (h : lexer.next = (.ok token, lexer')) (htoken : token.isEnd = false) :
    lexer'.cursor.rest.length < lexer.cursor.rest.length := by
  have hlayout := (skipLayout_reached lexer.cursor.rest lexer.cursor.position).length_le
  unfold next at h
  split at h
  · cases h
  · rename_i start heq
    rw [heq] at hlayout
    split at h
    · rename_i kind cursor hread
      cases h
      have hkind : kind ≠ .endOfStream := by simpa [Token.isEnd] using htoken
      exact Nat.lt_of_lt_of_le (readToken_length hread hkind) hlayout
    · cases h

/-- Enough reads bring the whole tape of a lexer to light: without a fault it
ends with the end of the stream and has it nowhere else. -/
theorem readAll_tape (n : Nat) (lexer : Lexer) (hn : lexer.cursor.rest.length < n) :
    Pulls lexer (readAll n lexer).1 (readAll n lexer).2 ∧
      (readAll n lexer).1.length ≤ lexer.cursor.rest.length + 1 ∧
      ((readAll n lexer).2 = none → ∃ tokens last, (readAll n lexer).1 = tokens ++ [last] ∧
        last.kind = .endOfStream ∧ ∀ token ∈ tokens, token.kind ≠ .endOfStream) := by
  induction n generalizing lexer with
  | zero => omega
  | succ n ih =>
      rw [readAll]
      cases hnext : lexer.next with
      | mk answer lexer' =>
          cases answer with
          | error e => exact ⟨.fault hnext, by simp, fun h => by cases h⟩
          | ok token =>
              by_cases hend : token.isEnd = true
              · simp only [hend, if_true]
                have hkind : token.kind = .endOfStream := by simpa [Token.isEnd] using hend
                exact ⟨.token hnext (.nothing _), by simp, fun _ =>
                  ⟨[], token, rfl, hkind, by simp⟩⟩
              · have hlength := next_length hnext (by simpa using hend)
                obtain ⟨hpulls, hcount, hlast⟩ := ih lexer' (by omega)
                simp only [hend, Bool.false_eq_true, if_false]
                refine ⟨.token hnext hpulls, by simp only [List.length_cons]; omega, ?_⟩
                intro hnone
                obtain ⟨tokens, last, htokens, hkind, hothers⟩ := hlast hnone
                refine ⟨token :: tokens, last, by simp [htokens], hkind, ?_⟩
                intro other hother
                rcases List.mem_cons.mp hother with rfl | hother
                · simpa [Token.isEnd] using hend
                · exact hothers other hother

theorem readAll_fault (n : Nat) (lexer : Lexer) {e : LexError} (h : (readAll n lexer).2 = some e) :
    ∀ token ∈ (readAll n lexer).1, token.kind ≠ .endOfStream := by
  induction n generalizing lexer with
  | zero => cases h
  | succ n ih =>
      rw [readAll] at h ⊢
      cases hnext : lexer.next with
      | mk answer lexer' =>
          rw [hnext] at h
          cases answer with
          | error e => simp
          | ok token =>
              by_cases hend : token.isEnd = true
              · simp [hend] at h
              · simp only [hend, Bool.false_eq_true, if_false] at h ⊢
                intro other hother
                rcases List.mem_cons.mp hother with rfl | hother
                · simpa [Token.isEnd] using hend
                · exact ih lexer' h other hother

theorem next_located (lexer : Lexer) :
    (∀ token, lexer.next.1 = .ok token → token.location.source = lexer.source) ∧
      ∀ e, lexer.next.1 = .error e → e.location.source = lexer.source := by
  unfold next
  split
  · simp
  · split
    · simp
    · simp

theorem readAll_located (n : Nat) (lexer : Lexer) :
    (∀ token ∈ (readAll n lexer).1, token.location.source = lexer.source) ∧
      ∀ e, (readAll n lexer).2 = some e → e.location.source = lexer.source := by
  induction n generalizing lexer with
  | zero => simp [readAll]
  | succ n ih =>
      have hlocated := next_located lexer
      have hsource := (next_reached lexer).1
      rw [readAll]
      cases hnext : lexer.next with
      | mk answer lexer' =>
          rw [hnext] at hlocated hsource
          cases answer with
          | error e =>
              refine ⟨by simp, fun e' he' => ?_⟩
              cases he'
              exact hlocated.2 e rfl
          | ok token =>
              have htoken := hlocated.1 token rfl
              by_cases hend : token.isEnd = true
              · simp [hend, htoken]
              · obtain ⟨htokens, hfault⟩ := ih lexer'
                rw [hsource] at htokens hfault
                simp only [hend, Bool.false_eq_true, if_false]
                exact ⟨List.forall_mem_cons.mpr ⟨htoken, htokens⟩, hfault⟩

theorem reads_of_pulls {lexer : Lexer} {tape : List Token} {fault : Option LexError}
    (h : Pulls lexer tape fault) {n : Nat} (hn : n ≤ tape.length) :
    (lexer.reads n).1 = (tape.take n).map .ok := by
  induction n generalizing lexer tape with
  | zero => simp [reads]
  | succ n ih =>
      cases h with
      | nothing => simp at hn
      | fault => simp at hn
      | token hpull hnext =>
          have hread : lexer.next = _ := hpull
          simp only [reads, hread, List.take_succ_cons, List.map_cons]
          rw [ih hnext (by simpa using hn)]

theorem reads_of_fault {lexer : Lexer} {tape : List Token} {e : LexError}
    (h : Pulls lexer tape (some e)) :
    (lexer.reads (tape.length + 1)).1 = tape.map .ok ++ [.error e] := by
  induction tape generalizing lexer with
  | nil =>
      cases h with
      | fault hpull =>
          have hread : lexer.next = _ := hpull
          simp [reads, hread]
  | cons token tape ih =>
      cases h with
      | token hpull hnext =>
          have hread : lexer.next = _ := hpull
          rw [List.length_cons, reads, hread]
          simp [ih hnext]

end Lexer

namespace Source

variable {source : Source} {tokens : List Token}

/-- The lexer of a source gives the tokens and the fault of its scan. -/
theorem pulls_scan (source : Source) :
    Pulls (Lexer.ofSource source) source.scan.1 source.scan.2 :=
  (Lexer.readAll_tape _ _ (Nat.lt_succ_self _)).1

theorem length_scan_lt (source : Source) : source.scan.1.length < source.budget :=
  Nat.lt_succ_of_le (Lexer.readAll_tape _ _ (Nat.lt_succ_self _)).2.1

theorem tokenize_eq_ok_iff : source.tokenize = .ok tokens ↔ source.scan = (tokens, none) := by
  unfold tokenize
  rcases source.scan with ⟨found, _ | e⟩
  · simp
  · simp

theorem location_of_mem_scan {token : Token} (h : token ∈ source.scan.1) :
    token.location.source = source :=
  (Lexer.readAll_located _ (Lexer.ofSource source)).1 token h

theorem tokenize_of_fault {e : LexError} (h : source.scan.2 = some e) :
    e.location.source = source ∧ source.tokenize = .error e := by
  refine ⟨(Lexer.readAll_located _ (Lexer.ofSource source)).2 e h, ?_⟩
  unfold tokenize
  rcases hscan : source.scan with ⟨found, fault⟩
  obtain rfl : fault = some e := by rw [← h, hscan]
  rfl

theorem kind_ne_end_of_scan {e : LexError} (h : source.scan = (tokens, some e)) :
    ∀ token ∈ tokens, token.kind ≠ .endOfStream := by
  have hfault := Lexer.readAll_fault (source.text.toList.length + 1) (Lexer.ofSource source)
    (congrArg Prod.snd h)
  rwa [show (Lexer.readAll _ _).1 = tokens from congrArg Prod.fst h] at hfault

theorem tokenize_eq_append (h : source.tokenize = .ok tokens) :
    ∃ others last, tokens = others ++ [last] ∧ last.kind = .endOfStream ∧
      ∀ token ∈ others, token.kind ≠ .endOfStream := by
  have hscan := tokenize_eq_ok_iff.mp h
  have hlast := (Lexer.readAll_tape _ (Lexer.ofSource source) (Nat.lt_succ_self _)).2.2
  have hnone : source.scan.2 = none := by rw [hscan]
  obtain ⟨others, last, htokens, hkind, hothers⟩ := hlast hnone
  refine ⟨others, last, ?_, hkind, hothers⟩
  rw [← htokens]
  exact (congrArg Prod.fst hscan).symm

/-- A source with a token that ends the stream is tokenized, and nothing comes
after that token. -/
theorem tokenize_of_end {before after : List Token} {last : Token}
    (h : source.scan.1 = before ++ last :: after) (hkind : last.kind = .endOfStream) :
    source.tokenize = .ok (before ++ [last]) ∧ after = [] := by
  cases hfault : source.scan.2 with
  | some e => exact absurd hkind (kind_ne_end_of_scan (Prod.ext rfl hfault) last (by simp [h]))
  | none =>
      have htokenize := tokenize_eq_ok_iff.mpr (Prod.ext h hfault)
      obtain rfl | ⟨init, final, rfl⟩ := List.eq_nil_or_concat after
      · exact ⟨htokenize, rfl⟩
      · -- The stream would go on after its end.
        obtain ⟨others, final', htokens, -, hothers⟩ := tokenize_eq_append htokenize
        rw [List.concat_eq_append, ← List.cons_append, ← List.append_assoc] at htokens
        have hinit := (List.append_inj' htokens rfl).1
        exact absurd hkind (hothers last (by simp [← hinit]))

end Source

end BuildScript
