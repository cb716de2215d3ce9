import Mathlib.Data.List.Induction
import BuildScript.Proofs.LexicalGrammar
import BuildScript.Proofs.PlacedLoading
import BuildScript.Proofs.ErrorPlaces

namespace BuildScript

open Scanner

namespace Location

/-- A location between characters of its text: the lines before its own, what
is before it in its own line, and all that comes after it. Offsets count bytes,
lines count newlines and columns count characters. -/
structure PointsAt (l : Location) (earlier current after : List Char) : Prop where
  text_eq : l.source.text.toList = earlier ++ (current ++ after)
  earlier_ends : earlier = [] ∨ ['\n'] <:+ earlier
  current_within : '\n' ∉ current
  offset_eq : l.position.offset = (String.ofList (earlier ++ current)).utf8ByteSize
  lineStart_eq : l.position.lineStart = (String.ofList earlier).utf8ByteSize
  line_eq : l.position.line = 1 + (earlier ++ current).count '\n'
  column_eq : l.position.column = 1 + current.length

/-- A location that is right about itself. -/
def IsExact (l : Location) : Prop :=
  ∃ earlier current after, l.PointsAt earlier current after

def IsCounted (l : Location) : Prop :=
  ∃ used after, l.source.text.toList = used ++ after ∧
    l.position = Position.start.advanceAll used

end Location

section Counting

/-- What has been counted over some characters: the last line of them begins
after their last newline. -/
theorem Position.exists_advanceAll_eq (used : List Char) :
    ∃ earlier current, used = earlier ++ current ∧ (earlier = [] ∨ ['\n'] <:+ earlier) ∧
      '\n' ∉ current ∧ Position.start.advanceAll used =
        ⟨(String.ofList (earlier ++ current)).utf8ByteSize, (String.ofList earlier).utf8ByteSize,
          1 + (earlier ++ current).count '\n', 1 + current.length⟩ := by
  induction used using List.reverseRecOn with
  | nil => exact ⟨[], [], rfl, .inl rfl, by simp, rfl⟩
  | append_singleton used c ih =>
      obtain ⟨earlier, current, rfl, hends, hwithin, heq⟩ := ih
      have hadvance : Position.start.advanceAll (earlier ++ current ++ [c]) =
          (Position.start.advanceAll (earlier ++ current)).advance c :=
        Position.advanceAll_append ..
      have hsize : (String.ofList (earlier ++ current ++ [c])).utf8ByteSize =
          (String.ofList (earlier ++ current)).utf8ByteSize + c.utf8Size := by
        simp [Nat.add_assoc]
      have hcount : (earlier ++ current ++ [c]).count '\n' =
          (earlier ++ current).count '\n' + if c = '\n' then 1 else 0 := by
        simp [List.count_singleton, Nat.add_assoc]
      rw [hadvance, heq, Position.advance]
      by_cases hc : c = '\n'
      · refine ⟨earlier ++ current ++ [c], [], by simp, .inr ⟨_, by rw [hc]⟩, by simp, ?_⟩
        rw [List.append_nil, hsize, hcount, if_pos hc, if_pos hc]
        rfl
      · refine ⟨earlier, current ++ [c], by simp, hends, by simp [hwithin, Ne.symm hc], ?_⟩
        rw [← List.append_assoc, hsize, hcount, if_neg hc, if_neg hc, List.length_append]
        rfl

theorem Location.IsCounted.isExact {l : Location} (h : l.IsCounted) : l.IsExact := by
  obtain ⟨used, after, htext, hposition⟩ := h
  obtain ⟨earlier, current, rfl, hends, hwithin, heq⟩ := Position.exists_advanceAll_eq used
  rw [heq] at hposition
  exact ⟨earlier, current, after, by rw [htext, List.append_assoc], hends, hwithin,
    congrArg Position.offset hposition, congrArg Position.lineStart hposition,
    congrArg Position.line hposition, congrArg Position.column hposition⟩

theorem Location.isCounted_startOf (source : Source) : (startOf source).IsCounted :=
  ⟨[], _, rfl, rfl⟩

theorem dropBytes_append (cs ds : List Char) :
    dropBytes (String.ofList cs).utf8ByteSize (cs ++ ds) = ds := by
  induction cs with
  | nil => simp [dropBytes]
  | cons c cs ih =>
      have hpos := c.utf8Size_pos
      obtain ⟨n, hn⟩ : ∃ n, (String.ofList (c :: cs)).utf8ByteSize = n + 1 :=
        Nat.exists_eq_add_one.mpr (by simp; omega)
      have hsize : n + 1 - c.utf8Size = (String.ofList cs).utf8ByteSize := by
        rw [← hn, String.ofList_cons]
        simp
      rw [hn, List.cons_append, dropBytes, hsize, ih]

end Counting

namespace Location.PointsAt

variable {l : Location} {earlier current after : List Char}

theorem isValid (h : l.PointsAt earlier current after) :
    (⟨l.position.offset⟩ : String.Pos.Raw).IsValid l.source.text := by
  refine String.Pos.Raw.isValid_iff_exists_append.mpr
    ⟨String.ofList (earlier ++ current), String.ofList after, ?_, ?_⟩
  · rw [← String.ofList_append, List.append_assoc, ← h.text_eq, String.ofList_toList]
  · exact congrArg String.Pos.Raw.mk h.offset_eq

theorem exists_lineText_eq (h : l.PointsAt earlier current after) :
    ∃ tail below, after = tail ++ below ∧ '\n' ∉ current ++ tail ∧
      (below = [] ∨ ['\n'] <+: below) ∧ l.lineText = String.ofList (current ++ tail) := by
  refine ⟨after.takeWhile (· != '\n'), after.dropWhile (· != '\n'),
    List.takeWhile_append_dropWhile.symm, ?_, ?_, ?_⟩
  · rw [List.mem_append, not_or]
    refine ⟨h.current_within, fun hmem => ?_⟩
    simpa using List.all_eq_true.mp List.all_takeWhile _ hmem
  · cases hbelow : after.dropWhile (· != '\n') with
    | nil => exact .inl rfl
    | cons c cs =>
        have hhead := List.head?_dropWhile_not (· != '\n') after
        rw [hbelow] at hhead
        obtain rfl : c = '\n' := by simpa using hhead
        exact .inr ⟨cs, rfl⟩
  · have hcurrent : ∀ c ∈ current, (c != '\n') = true := by
      rintro c hc
      simpa using fun heq : c = '\n' => h.current_within (heq ▸ hc)
    rw [lineText, h.text_eq, h.lineStart_eq, dropBytes_append,
      List.takeWhile_append_of_pos hcurrent]

theorem annotate_eq (h : l.PointsAt earlier current after) (message : String) :
    l.annotate message = l.lineText ++ "\n" ++
      String.ofList (List.replicate current.length ' ') ++ "^-- " ++ message := by
  rw [annotate, h.column_eq, Nat.add_sub_cancel_left]

end Location.PointsAt

section Lexing

private theorem skip_blamed :
    (∀ cs p fault q cursor, skipLayout cs p = (some (fault, q), cursor) →
      ∃ rest, Cursor.Reached cs p ⟨rest, q⟩) ∧
    (∀ cs p fault q cursor, skipLine cs p = (some (fault, q), cursor) →
      ∃ rest, Cursor.Reached cs p ⟨rest, q⟩) ∧
    ∀ cs p fault q cursor, skipBlock cs p = (some (fault, q), cursor) →
      ∃ rest, Cursor.Reached cs p ⟨rest, q⟩ := by
  apply skipLayout.mutual_induct
    (fun cs p => ∀ fault q cursor, skipLayout cs p = (some (fault, q), cursor) →
      ∃ rest, Cursor.Reached cs p ⟨rest, q⟩)
    (fun cs p => ∀ fault q cursor, skipLine cs p = (some (fault, q), cursor) →
      ∃ rest, Cursor.Reached cs p ⟨rest, q⟩)
    (fun cs p => ∀ fault q cursor, skipBlock cs p = (some (fault, q), cursor) →
      ∃ rest, Cursor.Reached cs p ⟨rest, q⟩)
  case case1 =>
    intro p fault q cursor h
    rw [skipLayout] at h
    cases h
  case case2 =>
    intro cs p ih fault q cursor h
    rw [skipLayout] at h
    obtain ⟨rest, hrest⟩ := ih fault q cursor h
    exact ⟨rest, hrest.cons.cons⟩
  case case3 =>
    intro c cs p _ hc ih fault q cursor h
    rw [skipLayout_blank hc] at h
    obtain ⟨rest, hrest⟩ := ih fault q cursor h
    exact ⟨rest, hrest.cons⟩
  case case4 =>
    intro cs p _ _ ih fault q cursor h
    rw [skipLayout_hash] at h
    obtain ⟨rest, hrest⟩ := ih fault q cursor h
    exact ⟨rest, hrest.cons⟩
  case case5 =>
    intro cs p hslash hc hhash fault q cursor h
    rw [skipLayout, if_neg hc, if_neg hhash, if_pos rfl] at h
    · cases h
      exact ⟨_, .refl _ _⟩
    · exact hslash
  case case6 =>
    intro c cs p _ hc hhash hslash fault q cursor h
    rw [skipLayout_other (by simpa using hc) hhash hslash] at h
    cases h
  case case7 =>
    intro p fault q cursor h
    rw [skipLine] at h
    cases h
  case case8 =>
    intro cs p ih fault q cursor h
    rw [skipLine, if_pos rfl] at h
    obtain ⟨rest, hrest⟩ := ih fault q cursor h
    exact ⟨rest, hrest.cons⟩
  case case9 =>
    intro c cs p hc ih fault q cursor h
    rw [skipLine, if_neg hc] at h
    obtain ⟨rest, hrest⟩ := ih fault q cursor h
    exact ⟨rest, hrest.cons⟩
  case case10 =>
    intro p fault q cursor h
    rw [skipBlock] at h
    cases h
    exact ⟨_, .refl _ _⟩
  case case11 =>
    intro cs p ih fault q cursor h
    rw [skipBlock] at h
    obtain ⟨rest, hrest⟩ := ih fault q cursor h
    exact ⟨rest, hrest.cons.cons⟩
  case case12 =>
    intro c cs p hc ih fault q cursor h
    rw [skipBlock_other hc] at h
    obtain ⟨rest, hrest⟩ := ih fault q cursor h
    exact ⟨rest, hrest.cons⟩

namespace Lexer

theorem readToken_blamed {cs : List Char} {p q : Position} {fault : LexFault} {cursor : Cursor}
    (h : readToken cs p = (.error (fault, q), cursor)) :
    ∃ rest, Cursor.Reached cs p ⟨rest, q⟩ := by
  have hreached := readToken_reached cs p
  rw [h] at hreached
  rcases cs with _ | ⟨c, cs⟩
  · cases h
  · simp only [readToken] at h
    split at h
    · cases h
    · split at h
      · split at h
        · cases h
        · cases h
          exact ⟨_, hreached⟩
      · split at h
        · cases h
        · cases h
          exact ⟨_, .refl _ _⟩

def place : Except LexError Token → Location
  | .ok token => token.location
  | .error e => e.location

def IsIn (source : Source) (lexer : Lexer) : Prop :=
  lexer.source = source ∧ Cursor.Reached source.text.toList .start lexer.cursor

variable {source : Source} {lexer : Lexer}

theorem isIn_ofSource (source : Source) : (ofSource source).IsIn source :=
  ⟨rfl, .refl _ _⟩

theorem isCounted_of_reached {rest : List Char} {p : Position}
    (h : Cursor.Reached source.text.toList .start ⟨rest, p⟩) :
    (⟨source, p⟩ : Location).IsCounted := by
  obtain ⟨used, htext, hp⟩ := h
  exact ⟨used, rest, htext, hp⟩

/-- One read goes on in the source, and its answer is at a place that was
counted up. -/
theorem next_isIn (h : lexer.IsIn source) :
    lexer.next.2.IsIn source ∧ (place lexer.next.1).source = source ∧
      (place lexer.next.1).IsCounted := by
  obtain ⟨rfl, hreached⟩ := h
  obtain ⟨hsource, hnext⟩ := next_reached lexer
  refine ⟨⟨hsource, hreached.trans hnext⟩, ?_⟩
  have hlayout := skipLayout_reached lexer.cursor.rest lexer.cursor.position
  unfold next
  split
  · rename_i fault p cursor hskip
    obtain ⟨rest, hrest⟩ := skip_blamed.1 _ _ _ _ _ hskip
    exact ⟨rfl, isCounted_of_reached (hreached.trans hrest)⟩
  · rename_i start hskip
    rw [hskip] at hlayout
    have hstart := hreached.trans hlayout
    split
    · exact ⟨rfl, isCounted_of_reached hstart⟩
    · rename_i fault p cursor hread
      obtain ⟨rest, hrest⟩ := readToken_blamed hread
      exact ⟨rfl, isCounted_of_reached (hstart.trans hrest)⟩

theorem reads_isIn (n : Nat) (h : lexer.IsIn source) :
    (reads n lexer).2.IsIn source ∧ ∀ answer ∈ (reads n lexer).1,
      (place answer).source = source ∧ (place answer).IsCounted := by
  induction n generalizing lexer with
  | zero => exact ⟨h, by simp [reads]⟩
  | succ n ih =>
      obtain ⟨hnext, hanswer⟩ := next_isIn h
      obtain ⟨hlast, hanswers⟩ := ih hnext
      exact ⟨hlast, List.forall_mem_cons.mpr ⟨hanswer, hanswers⟩⟩

theorem readAll_mem_reads (n : Nat) (lexer : Lexer) :
    (∀ token ∈ (readAll n lexer).1, .ok token ∈ (reads n lexer).1) ∧
      ∀ e ∈ (readAll n lexer).2, .error e ∈ (reads n lexer).1 := by
  induction n generalizing lexer with
  | zero => simp [readAll]
  | succ n ih =>
      rw [readAll, reads]
      rcases hnext : lexer.next with ⟨_ | token, lexer'⟩
      · simp
      · obtain ⟨htokens, hfault⟩ := ih lexer'
        by_cases hend : token.isEnd = true
        · simp [hend]
        · simp only [hend, Bool.false_eq_true, if_false]
          exact ⟨fun other hother => by
            rcases List.mem_cons.mp hother with rfl | hother
            · exact List.mem_cons_self
            · exact List.mem_cons_of_mem _ (htokens other hother),
            fun e he => List.mem_cons_of_mem _ (hfault e he)⟩

end Lexer

namespace Source

variable (source : Source)

theorem isCounted_of_mem_scan : ∀ token ∈ source.scan.1, token.location.IsCounted :=
  fun token h => ((Lexer.reads_isIn _ (Lexer.isIn_ofSource source)).2 _
    ((Lexer.readAll_mem_reads _ _).1 token h)).2

theorem isCounted_of_scan_fault : ∀ e ∈ source.scan.2, e.location.IsCounted :=
  fun e h => ((Lexer.reads_isIn _ (Lexer.isIn_ofSource source)).2 _
    ((Lexer.readAll_mem_reads _ _).2 e h)).2

end Source

end Lexing

section Programs

variable {resolve : String → Resolution} {depth : Nat} {source : Source} {journal : Journal}

theorem parse_everywhere_exact {program : Node}
    (h : (parse resolve depth source journal).1 = .ok program) :
    program.Everywhere (·.location.IsExact) := by
  have hload := outcome_eq_ok_iff.mpr (parse_eq_ok_iff.mp h)
  exact load_everywhere (P := Location.IsExact)
    (fun source token htoken => (source.isCounted_of_mem_scan token htoken).isExact) hload

theorem parse_error_exact {e : ParseError}
    (h : (parse resolve depth source journal).1 = .error e) : e.location.IsExact := by
  rcases parse_eq_error h with hload | ⟨-, rfl⟩
  · exact load_error_located (P := Location.IsExact)
      (fun source token htoken => (source.isCounted_of_mem_scan token htoken).isExact)
      (fun source e he => (source.isCounted_of_scan_fault e he).isExact) hload
  · exact (Location.isCounted_startOf source).isExact

end Programs

/-- Locations are exact, and annotations show the right line and point at the
right character. -/
theorem locations_exact :
    (∀ (source : Source) (n : Nat), ∀ answer ∈ ((Lexer.ofSource source).reads n).1,
      (Lexer.place answer).source = source ∧ (Lexer.place answer).IsExact) ∧
    (∀ (resolve : String → Resolution) (depth : Nat) (source : Source) (journal : Journal),
      (∀ e, (parse resolve depth source journal).1 = .error e → e.location.IsExact) ∧
      ∀ program, (parse resolve depth source journal).1 = .ok program →
        program.Everywhere (·.location.IsExact) ∧
        ∀ {φ : Type} [Host φ] (scope : Scope) (m : Machine φ),
          ∀ e ∈ (interpret program scope m).errors, e.location.IsExact) ∧
    ∀ (l : Location) (earlier current after : List Char), l.PointsAt earlier current after →
      (⟨l.position.offset⟩ : String.Pos.Raw).IsValid l.source.text ∧
      ∃ tail below, after = tail ++ below ∧ '\n' ∉ current ++ tail ∧
        (below = [] ∨ ['\n'] <+: below) ∧ l.lineText = String.ofList (current ++ tail) ∧
        (∀ message, l.annotate message = String.ofList (current ++ tail) ++ "\n" ++
          String.ofList (List.replicate current.length ' ') ++ "^-- " ++ message) ∧
        ∀ c ∈ after.head?, c ≠ '\n' → (current ++ tail)[current.length]? = some c := by
  refine ⟨fun source n answer hanswer => ?_, fun resolve depth source journal => ?_,
    fun l earlier current after h => ?_⟩
  · obtain ⟨hsource, hcounted⟩ :=
      (Lexer.reads_isIn n (Lexer.isIn_ofSource source)).2 answer hanswer
    exact ⟨hsource, hcounted.isExact⟩
  · refine ⟨fun e => parse_error_exact, fun program hparse => ?_⟩
    have hprogram := parse_everywhere_exact hparse
    exact ⟨hprogram, fun scope m => interpret_errors_at hprogram scope m⟩
  · obtain ⟨tail, below, rfl, hline, hbelow, htext⟩ := h.exists_lineText_eq
    refine ⟨h.isValid, tail, below, rfl, hline, hbelow, htext,
      fun message => by rw [h.annotate_eq, htext], ?_⟩
    rintro c hc hnewline
    cases tail with
    | nil =>
        rcases hbelow with rfl | ⟨cs, rfl⟩
        · cases hc
        · cases hc
          exact absurd rfl hnewline
    | cons d tail =>
        cases hc
        simp

/-- A slash after characters of more than one byte and a string over two
lines. -/
theorem locations_exact_slash :
    let source : Source := .ofText "# é\nx = \"→\nä\" /"
    let l : Location := ⟨source, ⟨18, 14, 3, 4⟩⟩
    .error ⟨.unexpectedCharacter '/', l⟩ ∈ ((Lexer.ofSource source).reads 4).1 ∧ l.IsExact ∧
      l.annotate "here" = "ä\" /\n   ^-- here" := by
  intro source l
  have hread : .error ⟨.unexpectedCharacter '/', l⟩ ∈ ((Lexer.ofSource source).reads 4).1 := by
    decide +kernel
  exact ⟨hread, (locations_exact.1 source 4 _ hread).2, by decide +kernel⟩

end BuildScript
