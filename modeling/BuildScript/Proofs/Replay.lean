import BuildScript.Proofs.TokenArrays

namespace BuildScript

def fault? {ε α : Type} : Except ε α → Option ε
  | .ok _ => none
  | .error e => some e

section Pulling

variable {τ : Type} [TokenStream τ]

/-- What a stream answers to its first `n` pulls, errors included. -/
def TokenStream.answers (stream : τ) (n : Nat) : List (Except LexError Token) :=
  (List.range n).map fun i => (TokenStream.pull (TokenStream.after stream i)).1

/-- After `n` pulls a rest of the stream is left, and the answers were these
tokens and these faults, each in order. -/
structure TokenStream.PulledTo (stream : τ) (n : Nat) (rest : τ) (tokens : List Token)
    (faults : List LexError) : Prop where
  rest_eq : rest = TokenStream.after stream n
  tokens_eq : tokens = (TokenStream.answers stream n).filterMap Except.toOption
  faults_eq : faults = (TokenStream.answers stream n).filterMap fault?
  count : n = tokens.length + faults.length

namespace TokenStream.PulledTo

variable {stream rest rest' : τ} {n : Nat} {tokens : List Token} {faults : List LexError}

theorem refl (stream : τ) : PulledTo stream 0 stream [] [] := ⟨rfl, rfl, rfl, rfl⟩

theorem answers_succ (h : PulledTo stream n rest tokens faults) {answer : Except LexError Token}
    (hpull : pull rest = (answer, rest')) :
    rest' = after stream (n + 1) ∧ answers stream (n + 1) = answers stream n ++ [answer] := by
  rw [h.rest_eq] at hpull
  simp [answers, after, List.range_succ, hpull]

theorem token (h : PulledTo stream n rest tokens faults) {token : Token}
    (hpull : pull rest = (.ok token, rest')) :
    PulledTo stream (n + 1) rest' (tokens ++ [token]) faults := by
  obtain ⟨hrest, hanswers⟩ := h.answers_succ hpull
  refine ⟨hrest, ?_, ?_, ?_⟩
  · rw [hanswers, List.filterMap_append, ← h.tokens_eq]
    rfl
  · rw [hanswers, List.filterMap_append, ← h.faults_eq]
    simp [fault?]
  · rw [h.count, List.length_append, List.length_singleton]
    omega

theorem fault (h : PulledTo stream n rest tokens faults) {e : LexError}
    (hpull : pull rest = (.error e, rest')) :
    PulledTo stream (n + 1) rest' tokens (faults ++ [e]) := by
  obtain ⟨hrest, hanswers⟩ := h.answers_succ hpull
  refine ⟨hrest, ?_, ?_, ?_⟩
  · rw [hanswers, List.filterMap_append, ← h.tokens_eq]
    simp [Except.toOption]
  · rw [hanswers, List.filterMap_append, ← h.faults_eq]
    rfl
  · rw [h.count, List.length_append, List.length_singleton]
    omega

end TokenStream.PulledTo

end Pulling

namespace Rewindable

variable {τ : Type} [TokenStream τ] {r : Rewindable τ}

/-- A token that is in the buffer is read from there, and the stream is left
alone. -/
theorem read_buffered {token : Token} (h : r.buffer[r.cursor]? = some token) :
    r.peek = (.ok token, r) ∧ r.next = (.ok token, { r with cursor := r.cursor + 1 }) := by
  have hpeek := peek_of_buffered h
  exact ⟨hpeek, by simp [next, hpeek]⟩

/-- At the end of the buffer the stream is pulled once. -/
theorem read_pulled (hend : r.cursor = r.buffer.size) {token : Token} {rest : τ}
    (h : TokenStream.pull r.stream = (.ok token, rest)) :
    r.peek = (.ok token, ⟨rest, r.buffer.push token, r.cursor⟩) ∧
      r.next = (.ok token, ⟨rest, r.buffer.push token, r.cursor + 1⟩) := by
  have hnone : r.buffer[r.cursor]? = none := by simp [hend]
  have hpeek : r.peek = (.ok token, ⟨rest, r.buffer.push token, r.cursor⟩) := by
    simp [peek, hnone, h]
  exact ⟨hpeek, by simp [next, hpeek]⟩

/-- A pull that fails leaves the buffer and the cursor as they are. -/
theorem read_failed (hend : r.cursor = r.buffer.size) {e : LexError} {rest : τ}
    (h : TokenStream.pull r.stream = (.error e, rest)) :
    r.peek = (.error e, { r with stream := rest }) ∧
      r.next = (.error e, { r with stream := rest }) := by
  have hnone : r.buffer[r.cursor]? = none := by simp [hend]
  have hpeek : r.peek = (.error e, { r with stream := rest }) := by simp [peek, hnone, h]
  exact ⟨hpeek, by simp [next, hpeek]⟩

/-- A reader without the count of its pulls. -/
def unmetered {τ : Type} (r : Rewindable (Metered τ)) : Rewindable τ :=
  ⟨r.stream.stream, r.buffer, r.cursor⟩

def pulls {τ : Type} (r : Rewindable (Metered τ)) : Nat := r.stream.pulls

theorem pulls_of_lt {r : Rewindable (Metered τ)} (h : r.cursor < r.buffer.size) :
    r.peek.2.pulls = r.pulls ∧ r.next.2.pulls = r.pulls := by
  obtain ⟨hpeek, hnext⟩ := read_buffered (Array.getElem?_eq_getElem h)
  rw [hpeek, hnext]
  exact ⟨rfl, rfl⟩

theorem pulls_of_end {r : Rewindable (Metered τ)} (h : r.cursor = r.buffer.size) :
    r.peek.2.pulls = r.pulls + 1 ∧ r.next.2.pulls = r.pulls + 1 := by
  rcases hpull : TokenStream.pull r.stream.stream with ⟨e | token, rest⟩
  · obtain ⟨hpeek, hnext⟩ := read_failed h (Metered.pull_eq hpull r.stream.pulls)
    rw [hpeek, hnext]
    exact ⟨rfl, rfl⟩
  · obtain ⟨hpeek, hnext⟩ := read_pulled h (Metered.pull_eq hpull r.stream.pulls)
    rw [hpeek, hnext]
    exact ⟨rfl, rfl⟩

theorem peek_unmetered (r : Rewindable (Metered τ)) :
    r.unmetered.peek = (r.peek.1, r.peek.2.unmetered) := by
  simp only [peek, unmetered, TokenStream.pull]
  split
  · rfl
  · rcases TokenStream.pull r.stream.stream with ⟨_ | token, rest⟩
    · rfl
    · rfl

theorem next_unmetered (r : Rewindable (Metered τ)) :
    r.unmetered.next = (r.next.1, r.next.2.unmetered) := by
  simp only [next, peek_unmetered]
  rcases r.peek with ⟨_ | token, r'⟩
  · rfl
  · rfl

end Rewindable

/-- What one can do with a reader. Marks are numbered in the order they are
taken. -/
inductive ReaderAction where
  | next
  | peek
  | mark
  | rewind (number : Nat)

/-- A reader in use. Each mark that was taken is kept with the cursor it was
taken at, and each answer with the cursor it was read at. -/
structure Reading (τ : Type) where
  reader : Rewindable τ
  marks : List (Mark × Nat) := []
  answers : List (Nat × Except LexError Token) := []

namespace Reading

variable {τ : Type}

def start (stream : τ) : Reading τ := { reader := .ofStream stream }

def note (s : Reading τ) (read : Except LexError Token × Rewindable τ) : Reading τ :=
  { s with reader := read.2, answers := s.answers ++ [(s.reader.cursor, read.1)] }

/-- One can only go back to a mark that has been taken. -/
def step [TokenStream τ] (s : Reading τ) : ReaderAction → Reading τ
  | .next => s.note s.reader.next
  | .peek => s.note s.reader.peek
  | .mark => { s with marks := s.marks ++ [(s.reader.mark, s.reader.cursor)] }
  | .rewind number =>
    match s.marks[number]? with
    | some taken => { s with reader := s.reader.rewind taken.1 }
    | none => s

def run [TokenStream τ] (actions : List ReaderAction) (s : Reading τ) : Reading τ :=
  actions.foldl step s

def faults (s : Reading τ) : List LexError := s.answers.filterMap fun read => fault? read.2

/-- A reading whose buffer and faults are what its stream was pulled for. The
cursor and the marks are within the buffer, and what was read is still there. -/
structure Replays [TokenStream τ] (stream : τ) (s : Reading τ) : Prop where
  pulled : ∃ n, TokenStream.PulledTo stream n s.reader.stream s.reader.buffer.toList s.faults
  cursor_le : s.reader.cursor ≤ s.reader.buffer.size
  marks : ∀ taken ∈ s.marks, taken.1.index = taken.2 ∧ taken.2 ≤ s.reader.buffer.size
  answers : ∀ cursor token, (cursor, .ok token) ∈ s.answers →
    s.reader.buffer[cursor]? = some token

namespace Replays

variable [TokenStream τ] {stream : τ} {s : Reading τ}

theorem start (stream : τ) : Replays stream (Reading.start stream) :=
  ⟨⟨0, .refl stream⟩, Nat.le_refl 0, by simp [Reading.start], by simp [Reading.start]⟩

theorem move (h : Replays stream s) {cursor : Nat} (hcursor : cursor ≤ s.reader.buffer.size) :
    Replays stream { s with reader := { s.reader with cursor } } :=
  ⟨h.pulled, hcursor, h.marks, h.answers⟩

theorem mark (h : Replays stream s) : Replays stream (s.step .mark) := by
  refine ⟨h.pulled, h.cursor_le, fun taken htaken => ?_, h.answers⟩
  rcases List.mem_append.mp htaken with hearlier | hlast
  · exact h.marks taken hearlier
  · cases List.mem_singleton.mp hlast
    exact ⟨rfl, h.cursor_le⟩

theorem note_ok {reader : Rewindable τ} {token : Token} (h : Replays stream { s with reader })
    (hget : reader.buffer[s.reader.cursor]? = some token) :
    Replays stream (s.note (.ok token, reader)) := by
  have hfaults : (s.note (.ok token, reader)).faults = s.faults := by simp [faults, note, fault?]
  refine ⟨?_, h.cursor_le, h.marks, fun cursor other hother => ?_⟩
  · rw [hfaults]
    exact h.pulled
  · rcases List.mem_append.mp hother with hearlier | hlast
    · exact h.answers cursor other hearlier
    · cases List.mem_singleton.mp hlast
      exact hget

theorem note_error (h : Replays stream s) {e : LexError} {rest : τ}
    (hpull : TokenStream.pull s.reader.stream = (.error e, rest)) :
    Replays stream (s.note (.error e, { s.reader with stream := rest })) := by
  have hfaults : (s.note (.error e, { s.reader with stream := rest })).faults =
      s.faults ++ [e] := by
    simp [faults, note, fault?]
  refine ⟨?_, h.cursor_le, h.marks, fun cursor token htoken => ?_⟩
  · rw [hfaults]
    obtain ⟨n, hpulled⟩ := h.pulled
    exact ⟨n + 1, hpulled.fault hpull⟩
  · rcases List.mem_append.mp htoken with hearlier | hlast
    · exact h.answers cursor token hearlier
    · cases List.mem_singleton.mp hlast

theorem push (h : Replays stream s) {token : Token} {rest : τ}
    (hpull : TokenStream.pull s.reader.stream = (.ok token, rest)) :
    Replays stream
      { s with reader := ⟨rest, s.reader.buffer.push token, s.reader.cursor⟩ } := by
  have hsize : s.reader.buffer.size ≤ (s.reader.buffer.push token).size := by simp
  refine ⟨?_, Nat.le_trans h.cursor_le hsize, fun taken htaken => ?_, fun cursor other hother => ?_⟩
  · rw [Array.toList_push]
    obtain ⟨n, hpulled⟩ := h.pulled
    exact ⟨n + 1, hpulled.token hpull⟩
  · obtain ⟨hmark, hle⟩ := h.marks taken htaken
    exact ⟨hmark, Nat.le_trans hle hsize⟩
  · have hget := h.answers cursor other hother
    obtain ⟨hlt, -⟩ := Array.getElem?_eq_some_iff.mp hget
    rw [← hget, Array.getElem?_push_lt hlt, Array.getElem?_eq_getElem hlt]

theorem read (h : Replays stream s) :
    Replays stream (s.step .peek) ∧ Replays stream (s.step .next) := by
  rcases Nat.lt_or_eq_of_le h.cursor_le with hlt | hend
  · have hget := Array.getElem?_eq_getElem hlt
    obtain ⟨hpeek, hnext⟩ := Rewindable.read_buffered hget
    simp only [step, hpeek, hnext]
    exact ⟨h.note_ok hget, (h.move hlt).note_ok hget⟩
  · rcases hpull : TokenStream.pull s.reader.stream with ⟨_ | token, rest⟩
    · obtain ⟨hpeek, hnext⟩ := Rewindable.read_failed hend hpull
      simp only [step, hpeek, hnext]
      exact ⟨h.note_error hpull, h.note_error hpull⟩
    · obtain ⟨hpeek, hnext⟩ := Rewindable.read_pulled hend hpull
      have hpush := h.push hpull
      have hget : (s.reader.buffer.push token)[s.reader.cursor]? = some token := by simp [hend]
      have hlt : s.reader.cursor < (s.reader.buffer.push token).size := by simp [hend]
      simp only [step, hpeek, hnext]
      exact ⟨hpush.note_ok hget, (hpush.move hlt).note_ok hget⟩

theorem step (h : Replays stream s) (action : ReaderAction) : Replays stream (s.step action) := by
  cases action with
  | next => exact h.read.2
  | peek => exact h.read.1
  | mark => exact h.mark
  | rewind number =>
      simp only [Reading.step]
      split
      · rename_i taken htaken
        obtain ⟨hmark, hle⟩ := h.marks taken (List.mem_of_getElem? htaken)
        exact h.move (hmark ▸ hle)
      · exact h

theorem run (h : Replays stream s) (actions : List ReaderAction) :
    Replays stream (Reading.run actions s) := by
  induction actions generalizing s with
  | nil => exact h
  | cons action actions ih => exact ih (h.step action)

end Replays

def unmetered (s : Reading (Metered τ)) : Reading τ :=
  ⟨s.reader.unmetered, s.marks, s.answers⟩

variable [TokenStream τ]

/-- Counting the pulls changes nothing about a reading. -/
theorem step_unmetered (s : Reading (Metered τ)) (action : ReaderAction) :
    s.unmetered.step action = (s.step action).unmetered := by
  cases action with
  | next => simp only [step, unmetered, note, Rewindable.next_unmetered]; rfl
  | peek => simp only [step, unmetered, note, Rewindable.peek_unmetered]; rfl
  | mark => rfl
  | rewind number =>
      simp only [step, unmetered]
      cases s.marks[number]? with
      | none => rfl
      | some taken => rfl

theorem run_unmetered (actions : List ReaderAction) (s : Reading (Metered τ)) :
    run actions s.unmetered = (run actions s).unmetered := by
  induction actions generalizing s with
  | nil => rfl
  | cons action actions ih =>
      simp only [run, List.foldl_cons, step_unmetered]
      exact ih (s.step action)

def counted (stream : τ) (actions : List ReaderAction) : Reading (Metered τ) :=
  run actions (start { stream })

theorem run_eq_counted (stream : τ) (actions : List ReaderAction) :
    run actions (start stream) = (counted stream actions).unmetered :=
  run_unmetered actions (start { stream })

theorem counted_append (stream : τ) (actions : List ReaderAction) (action : ReaderAction) :
    counted stream (actions ++ [action]) = (counted stream actions).step action := by
  simp only [counted, run, List.foldl_append, List.foldl_cons, List.foldl_nil]

theorem pulledTo_counted (stream : τ) (actions : List ReaderAction) :
    TokenStream.PulledTo stream (counted stream actions).reader.pulls
      (run actions (start stream)).reader.stream (run actions (start stream)).reader.buffer.toList
      (run actions (start stream)).faults := by
  obtain ⟨n, hcounted⟩ := ((Replays.start ({ stream } : Metered τ)).run actions).pulled
  obtain ⟨m, hpulled⟩ := ((Replays.start stream).run actions).pulled
  have hpulls : (counted stream actions).reader.pulls = n := by
    rw [Rewindable.pulls, counted, hcounted.rest_eq, Metered.pulls_after]
  -- both have given the same tokens and the same faults
  have hsame : m = n := by
    rw [hpulled.count, hcounted.count, run_eq_counted]
    rfl
  rw [hpulls, ← hsame]
  exact hpulled

/-- However one reads on, looks ahead, takes marks and goes back to marks that
were taken: the cursor and the marks are within the buffer; the buffer has just
the tokens that the pulls so far have given, in order, and each pull that gave
none was an error that was met. What is in the buffer is read from there, at its
end the stream is pulled once, and a pull that fails changes nothing else. Marks
are equal if and only if they were taken at the same cursor, going back to one
is going back to its cursor, and what is read at a cursor is the same every
time. -/
theorem run_replays (stream : τ) (actions : List ReaderAction) :
    let s := run actions (start stream)
    let pulls := (counted stream actions).reader.pulls
    (counted stream actions).unmetered = s ∧
    s.reader.cursor ≤ s.reader.buffer.size ∧
    s.reader.stream = TokenStream.after stream pulls ∧
    s.reader.buffer.toList = (TokenStream.answers stream pulls).filterMap Except.toOption ∧
    s.faults = (TokenStream.answers stream pulls).filterMap fault? ∧
    pulls = s.reader.buffer.size + s.faults.length ∧
    (∀ _ : s.reader.cursor < s.reader.buffer.size,
      s.reader.peek = (.ok s.reader.buffer[s.reader.cursor], s.reader) ∧
      s.reader.next =
        (.ok s.reader.buffer[s.reader.cursor], { s.reader with cursor := s.reader.cursor + 1 }) ∧
      (counted stream (actions ++ [.peek])).reader.pulls = pulls ∧
      (counted stream (actions ++ [.next])).reader.pulls = pulls) ∧
    (s.reader.cursor = s.reader.buffer.size →
      (∀ token rest, TokenStream.pull s.reader.stream = (.ok token, rest) →
        s.reader.peek = (.ok token, ⟨rest, s.reader.buffer.push token, s.reader.cursor⟩) ∧
        s.reader.next = (.ok token, ⟨rest, s.reader.buffer.push token, s.reader.cursor + 1⟩)) ∧
      (∀ e rest, TokenStream.pull s.reader.stream = (.error e, rest) →
        s.reader.peek = (.error e, { s.reader with stream := rest }) ∧
        s.reader.next = (.error e, { s.reader with stream := rest })) ∧
      (counted stream (actions ++ [.peek])).reader.pulls = pulls + 1 ∧
      (counted stream (actions ++ [.next])).reader.pulls = pulls + 1) ∧
    (∀ taken ∈ s.marks, taken.1.index ≤ s.reader.buffer.size ∧
      (s.reader.rewind taken.1).cursor = taken.2 ∧
      ∀ other ∈ s.marks, taken.1 = other.1 ↔ taken.2 = other.2) ∧
    ∀ cursor token other, (cursor, .ok token) ∈ s.answers → (cursor, .ok other) ∈ s.answers →
      token = other := by
  intro s pulls
  have hs : s = (counted stream actions).unmetered := run_eq_counted stream actions
  have hreplays : Replays stream s := (Replays.start stream).run actions
  have hpulled : TokenStream.PulledTo stream pulls _ _ _ := pulledTo_counted stream actions
  refine ⟨hs.symm, hreplays.cursor_le, hpulled.rest_eq, hpulled.tokens_eq, hpulled.faults_eq,
    hpulled.count, fun hlt => ?_, fun hend => ⟨?_, ?_, ?_⟩, fun taken htaken => ?_, ?_⟩
  · obtain ⟨hpeek, hnext⟩ := Rewindable.read_buffered (Array.getElem?_eq_getElem hlt)
    rw [counted_append, counted_append]
    rw [hs] at hlt
    exact ⟨hpeek, hnext, Rewindable.pulls_of_lt hlt⟩
  · exact fun token rest hpull => Rewindable.read_pulled hend hpull
  · exact fun e rest hpull => Rewindable.read_failed hend hpull
  · rw [counted_append, counted_append]
    rw [hs] at hend
    exact Rewindable.pulls_of_end hend
  · obtain ⟨hmark, hle⟩ := hreplays.marks taken htaken
    refine ⟨hmark ▸ hle, hmark, fun other hother => ?_⟩
    rw [← hmark, ← (hreplays.marks other hother).1]
    exact ⟨congrArg Mark.index, fun hindex => congrArg Mark.mk hindex⟩
  · intro cursor token other htoken hother
    have hget := hreplays.answers cursor token htoken
    rw [hreplays.answers cursor other hother] at hget
    exact (Option.some.inj hget).symm

end Reading

end BuildScript
