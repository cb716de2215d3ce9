import BuildScript.Proofs.Lexemes
import BuildScript.Text.Quoted

namespace BuildScript

open Scanner

namespace TokenKind

/-- The characters a token is written with. The end of the stream is written
with none. -/
def spelling : TokenKind → String
  | identifier name => name
  | string text => Quoted.quote text
  | forKeyword => "for"
  | inKeyword => "in"
  | dot => "."
  | bracketOpen => "["
  | bracketClose => "]"
  | parenOpen => "("
  | parenClose => ")"
  | assign => "="
  | endOfStream => ""

/-- Tokens that can be written: identifiers are names, and the end of the
stream is not written. -/
def IsWritable : TokenKind → Prop
  | identifier name => IsName name
  | endOfStream => False
  | _ => True

/-- Tokens that are made of letters, which more letters would make longer. -/
def isWord : TokenKind → Bool
  | identifier _ => true
  | forKeyword => true
  | inKeyword => true
  | _ => false

theorem ofWord_toList {name : String} (h : IsName name) :
    ofWord name.toList = .identifier name := by
  have hfor : name.toList ≠ ['f', 'o', 'r'] := fun heq =>
    h.2.1 (by rw [← String.ofList_toList (s := name), heq])
  have hin : name.toList ≠ ['i', 'n'] := fun heq =>
    h.2.2 (by rw [← String.ofList_toList (s := name), heq])
  rw [ofWord, if_neg hfor, if_neg hin, String.ofList_toList]

end TokenKind

namespace Scanner

/-- A string literal is read back, whatever its contents. -/
theorem readString_encode (text rest : List Char) (p : Position) :
    ∃ q, readString (Quoted.encode text ++ '"' :: rest) p = (some text, ⟨rest, q⟩) := by
  induction text generalizing p with
  | nil =>
      refine ⟨p.advance '"', ?_⟩
      rw [Quoted.encode, List.nil_append, readString, if_pos rfl] <;> simp
  | cons c text ih =>
      rw [Quoted.encode]
      by_cases hc : Quoted.isSpecial c = true
      · obtain ⟨q, hq⟩ := ih ((p.advance '\\').advance c)
        refine ⟨q, ?_⟩
        rw [if_pos hc, List.cons_append, List.cons_append, readString, hq]
        rfl
      · obtain ⟨q, hq⟩ := ih (p.advance c)
        obtain ⟨hquote, hslash⟩ : c ≠ '"' ∧ c ≠ '\\' := by simpa [Quoted.isSpecial] using hc
        refine ⟨q, ?_⟩
        rw [if_neg hc, List.cons_append, readString, if_neg hquote, hq]
        · rfl
        · exact fun h => absurd h hslash
        · exact fun _ _ h => absurd h hslash

theorem isBlank_of_isWordChar {c : Char} (hc : isWordChar c = true) : isBlank c = false := by
  have ha : 'a'.toNat = 97 := rfl
  have hA : 'A'.toNat = 65 := rfl
  have hzero : '0'.toNat = 48 := rfl
  have hspace : ' '.toNat = 32 := rfl
  have hunderscore : '_'.toNat = 95 := rfl
  simp only [isWordChar, isLetter, Bool.or_eq_true, Bool.and_eq_true, decide_eq_true_eq,
    beq_iff_eq] at hc
  apply Bool.eq_false_iff.mpr
  intro hblank
  simp only [isBlank, Bool.or_eq_true, Bool.and_eq_true, decide_eq_true_eq, beq_iff_eq] at hblank
  have hlow : c.toNat = 32 ∨ c.toNat ≤ 13 := by
    rcases hblank with rfl | hblank
    · exact .inl hspace
    · exact .inr hblank.2
  rcases hc with (hletter | hdigit) | rfl
  · omega
  · omega
  · omega

theorem skipLayout_wordChar {c : Char} (hc : isWordChar c = true) (cs : List Char) (p : Position) :
    skipLayout (c :: cs) p = (none, ⟨c :: cs, p⟩) := by
  apply skipLayout_other (isBlank_of_isWordChar hc)
  · rintro rfl
    cases hc
  · rintro rfl
    cases hc

end Scanner

theorem reads_of_readToken {cs rest : List Char} {kind : TokenKind}
    (hskip : ∀ p, skipLayout cs p = (none, ⟨cs, p⟩))
    (hread : ∀ p, ∃ q, Lexer.readToken cs p = (.ok kind, ⟨rest, q⟩)) : Reads cs kind rest := by
  intro source p
  obtain ⟨q, hq⟩ := hread p
  exact ⟨⟨source, p⟩, q, next_of_eq (hskip p) hq source⟩

theorem readToken_word {c : Char} {cs rest : List Char} (hc : isLetter c = true)
    (hcs : ∀ d ∈ cs, isWordChar d = true) (hrest : Breaks rest) (p : Position) :
    Lexer.readToken (c :: cs ++ rest) p =
      (.ok (.ofWord (c :: cs)), ⟨rest, p.advanceAll (c :: cs)⟩) := by
  have hall : ∀ d ∈ c :: cs, isWordChar d = true := by
    refine List.forall_mem_cons.mpr ⟨?_, hcs⟩
    rw [isWordChar, hc]
    rfl
  obtain ⟨htake, hdrop⟩ := takeWhile_append_of_breaks hrest []
  have hnone : TokenKind.ofChar? c = none := by
    unfold TokenKind.ofChar?
    split
    any_goals cases hc
    rfl
  have hquote : c ≠ '"' := by
    rintro rfl
    cases hc
  rw [List.cons_append, Lexer.readToken, hnone]
  simp only [if_neg hquote, hc, if_true]
  rw [readWord, ← List.cons_append, List.takeWhile_append_of_pos hall,
    List.dropWhile_append_of_pos hall, ← List.nil_append rest, htake, hdrop]
  simp

theorem reads_word {word rest : List Char} {c : Char} {cs : List Char} (hword : word = c :: cs)
    (hc : isLetter c = true) (hcs : ∀ d ∈ cs, isWordChar d = true) (hrest : Breaks rest) :
    Reads (word ++ rest) (.ofWord word) rest := by
  subst hword
  have hchar : isWordChar c = true := by
    rw [isWordChar, hc]
    rfl
  refine reads_of_readToken (fun p => ?_) fun p => ⟨_, readToken_word hc hcs hrest p⟩
  exact skipLayout_wordChar hchar (cs ++ rest) p

theorem reads_mark {c : Char} {kind : TokenKind} (hkind : TokenKind.ofChar? c = some kind)
    (hblank : isBlank c = false) (hhash : c ≠ '#') (hslash : c ≠ '/') (rest : List Char) :
    Reads (c :: rest) kind rest := by
  refine reads_of_readToken (fun p => skipLayout_other hblank hhash hslash rest p) fun p => ?_
  refine ⟨p.advance c, ?_⟩
  rw [Lexer.readToken, hkind]

theorem reads_quote (text : String) (rest : List Char) :
    Reads ((Quoted.quote text).toList ++ rest) (.string text) rest := by
  rw [Quoted.quote, String.toList_ofList, List.cons_append, List.cons_append, List.append_assoc,
    List.singleton_append]
  refine reads_of_readToken (fun p => skipLayout_other rfl (by decide) (by decide) _ p)
    fun p => ?_
  obtain ⟨q, hq⟩ := readString_encode text.toList rest (p.advance '"')
  refine ⟨q, ?_⟩
  rw [Lexer.readToken, show TokenKind.ofChar? '"' = none from rfl]
  simp only [if_true, hq, String.ofList_toList]

/-- A token is read from its spelling, unless what follows makes a word
longer. -/
theorem reads_spelling {kind : TokenKind} (hkind : kind.IsWritable) {rest : List Char}
    (hrest : kind.isWord = true → Breaks rest) :
    Reads (kind.spelling.toList ++ rest) kind rest := by
  cases kind with
  | identifier name =>
      obtain ⟨c, cs, hname, hc, hcs⟩ := hkind.1
      have hreads := reads_word hname hc hcs (hrest rfl)
      rwa [TokenKind.ofWord_toList hkind] at hreads
  | string text => exact reads_quote text rest
  | forKeyword =>
      have hfor : "for".toList = 'f' :: ['o', 'r'] := rfl
      exact reads_word hfor rfl (List.all_eq_true.mp rfl) (hrest rfl)
  | inKeyword =>
      have hin : "in".toList = 'i' :: ['n'] := rfl
      exact reads_word hin rfl (List.all_eq_true.mp rfl) (hrest rfl)
  | endOfStream => exact hkind.elim
  | dot => exact reads_mark rfl rfl (by decide) (by decide) rest
  | bracketOpen => exact reads_mark rfl rfl (by decide) (by decide) rest
  | bracketClose => exact reads_mark rfl rfl (by decide) (by decide) rest
  | parenOpen => exact reads_mark rfl rfl (by decide) (by decide) rest
  | parenClose => exact reads_mark rfl rfl (by decide) (by decide) rest
  | assign => exact reads_mark rfl rfl (by decide) (by decide) rest

instance (name : String) : Decidable (IsName name) :=
  decidable_of_iff ((name.toList.head?.any isLetter = true ∧
      name.toList.tail.all isWordChar = true) ∧ name ≠ "for" ∧ name ≠ "in") <| by
    refine and_congr_left fun _ => ?_
    cases name.toList with
    | nil => simp
    | cons c cs =>
        simp only [List.head?_cons, Option.any_some, List.tail_cons, List.all_eq_true]
        exact ⟨fun h => ⟨c, cs, rfl, h⟩, fun ⟨_, _, heq, h⟩ => by cases heq; exact h⟩

theorem Breaks.append {cs ds : List Char} (hcs : Breaks cs) (hds : Breaks ds) :
    Breaks (cs ++ ds) := by
  cases cs with
  | nil => exact hds
  | cons c cs => exact hcs

theorem breaks_blank {c : Char} (hc : isBlank c = true) (cs : List Char) : Breaks (c :: cs) := by
  rintro d hd
  obtain rfl : c = d := by simpa using hd
  apply Bool.eq_false_iff.mpr
  intro hword
  rw [isBlank_of_isWordChar hword] at hc
  cases hc

namespace Lexes

theorem nil : Lexes [] [.endOfStream] := by
  have hnext : Lexer.next ⟨.ofText "", ⟨[], .start⟩⟩ = _ := rfl
  obtain ⟨hreads, hnewline⟩ := reads_end hnext rfl
  exact .last hreads hnewline

theorem spelled {kind : TokenKind} {rest : List Char} {kinds : List TokenKind}
    (hkind : kind.IsWritable) (hrest : kind.isWord = true → Breaks rest) (h : Lexes rest kinds) :
    Lexes (kind.spelling.toList ++ rest) (kind :: kinds) := by
  refine .token ?_ (fun ds hds => ?_) h
  · rintro rfl
    exact hkind
  · rw [List.append_assoc]
    exact reads_spelling hkind fun hword => (hrest hword).append hds

theorem blank {c : Char} {cs : List Char} {kinds : List TokenKind} (hc : isBlank c = true)
    (h : Lexes cs kinds) : Lexes (c :: cs) kinds := by
  refine h.of_next_eq fun es source q => ⟨q.advance c, ?_⟩
  simp only [Lexer.next, List.cons_append, skipLayout_blank hc]

end Lexes

def spell (kinds : List TokenKind) : String := " ".intercalate (kinds.map TokenKind.spelling)

/-- Whatever tokens are written, the lexer reads them back. -/
theorem lexes_spell {kinds : List TokenKind} (h : ∀ kind ∈ kinds, kind.IsWritable) :
    Lexes (spell kinds).toList (kinds ++ [.endOfStream]) := by
  induction kinds with
  | nil => exact .nil
  | cons kind kinds ih =>
      obtain ⟨hkind, hkinds⟩ := List.forall_mem_cons.mp h
      cases kinds with
      | nil =>
          have hlast := Lexes.spelled hkind (fun _ => breaks_nil) Lexes.nil
          rwa [List.append_nil] at hlast
      | cons next kinds =>
          have hspell : (spell (kind :: next :: kinds)).toList =
              kind.spelling.toList ++ ' ' :: (spell (next :: kinds)).toList := by
            simp only [spell, List.map_cons, String.intercalate_cons_cons, String.toList_append]
            rw [List.append_assoc]
            rfl
          rw [hspell]
          exact .spelled hkind (fun _ => breaks_blank rfl _) (.blank rfl (ih hkinds))

end BuildScript
