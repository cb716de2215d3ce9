import BuildScript.Proofs.Tape

namespace BuildScript

namespace Scanner

/-- Passing over layout does not depend on where it begins. What stands behind
a character that is no layout does not matter, and at the end of the
characters a newline lets the layout go on. -/
def Passes (skip : List Char → Position → Option (LexFault × Position) × Cursor)
    (cs : List Char) (p : Position) : Prop :=
  ∀ rest p', skip cs p = (none, ⟨rest, p'⟩) →
    (rest ≠ [] → ∀ ds q, ∃ q', skip (cs ++ ds) q = (none, ⟨rest ++ ds, q'⟩)) ∧
    (rest = [] → (∀ q, ∃ q', skip cs q = (none, ⟨[], q'⟩)) ∧
      ∀ ds q, ∃ q', skip (cs ++ '\n' :: ds) q = skipLayout ds q')

theorem Passes.of_eq {skip skip' : List Char → Position → Option (LexFault × Position) × Cursor}
    {cs : List Char} {p : Position} (read : List Char) (step : Position → Position)
    (h : Passes skip' cs (step p)) (heq : skip (read ++ cs) p = skip' cs (step p))
    (happend : ∀ ds q, (∃ rest p', skip' cs (step p) = (none, ⟨rest, p'⟩)) →
      skip (read ++ (cs ++ ds)) q = skip' (cs ++ ds) (step q)) :
    Passes skip (read ++ cs) p := by
  intro rest p' hskip
  rw [heq] at hskip
  obtain ⟨hnonempty, hempty⟩ := h rest p' hskip
  refine ⟨fun hrest ds q => ?_, fun hrest => ⟨fun q => ?_, fun ds q => ?_⟩⟩
  · rw [List.append_assoc, happend ds q ⟨rest, p', hskip⟩]
    exact hnonempty hrest ds (step q)
  · have hsame := happend [] q ⟨rest, p', hskip⟩
    rw [List.append_nil] at hsame
    rw [hsame]
    exact (hempty hrest).1 (step q)
  · rw [List.append_assoc, happend _ q ⟨rest, p', hskip⟩]
    exact (hempty hrest).2 ds (step q)

theorem skipLayout_blank {c : Char} (hc : isBlank c = true) (cs : List Char) (p : Position) :
    skipLayout (c :: cs) p = skipLayout cs (p.advance c) := by
  rw [skipLayout, if_pos hc]
  rintro cs' rfl
  cases hc

theorem skipLayout_hash (cs : List Char) (p : Position) :
    skipLayout ('#' :: cs) p = skipLine cs (p.advance '#') := by
  rw [skipLayout, if_neg (by decide), if_pos rfl]
  simp

theorem skipLayout_other {c : Char} (hc : isBlank c = false) (hhash : c ≠ '#') (hslash : c ≠ '/')
    (cs : List Char) (p : Position) : skipLayout (c :: cs) p = (none, ⟨c :: cs, p⟩) := by
  rw [skipLayout, if_neg (by simp [hc]), if_neg hhash, if_neg hslash]
  exact fun _ h => absurd h hslash

theorem skipBlock_other {c : Char} {cs : List Char}
    (h : ∀ cs', c = '*' → cs = '/' :: cs' → False) (p : Position) :
    skipBlock (c :: cs) p = skipBlock cs (p.advance c) := by
  rw [skipBlock]
  exact h

private theorem passes :
    (∀ cs p, Passes skipLayout cs p) ∧ (∀ cs p, Passes skipLine cs p) ∧
      ∀ cs p, Passes skipBlock cs p := by
  apply skipLayout.mutual_induct (Passes skipLayout) (Passes skipLine) (Passes skipBlock)
  case case1 =>
    intro p rest p' h
    simp only [skipLayout, Prod.mk.injEq, Cursor.mk.injEq, true_and] at h
    obtain ⟨rfl, -⟩ := h
    refine ⟨fun h => absurd rfl h, fun _ => ⟨fun q => ⟨q, by rw [skipLayout]⟩, fun ds q => ?_⟩⟩
    exact ⟨q.advance '\n', skipLayout_blank (by decide) ds q⟩
  case case2 =>
    intro cs p ih
    refine ih.of_eq ['/', '*'] (fun q => (q.advance '/').advance '*') (skipLayout.eq_2 p cs) ?_
    exact fun ds q _ => skipLayout.eq_2 q (cs ++ ds)
  case case3 =>
    intro c cs p _ hc ih
    exact ih.of_eq [c] (·.advance c) (skipLayout_blank hc cs p)
      fun ds q _ => skipLayout_blank hc (cs ++ ds) q
  case case4 =>
    intro cs p _ _ ih
    exact ih.of_eq ['#'] (·.advance '#') (skipLayout_hash cs p)
      fun ds q _ => skipLayout_hash (cs ++ ds) q
  case case5 =>
    intro cs p h hc hc' rest p' hskip
    rw [skipLayout, if_neg hc, if_neg hc', if_pos rfl] at hskip
    · cases hskip
    · exact h
  case case6 =>
    intro c cs p _ hc hhash hslash rest p' hskip
    rw [skipLayout_other (by simpa using hc) hhash hslash] at hskip
    cases hskip
    refine ⟨fun _ ds q => ⟨q, ?_⟩, fun h => by cases h⟩
    exact skipLayout_other (by simpa using hc) hhash hslash (cs ++ ds) q
  case case7 =>
    intro p rest p' h
    simp only [skipLine, Prod.mk.injEq, Cursor.mk.injEq, true_and] at h
    obtain ⟨rfl, -⟩ := h
    refine ⟨fun h => absurd rfl h, fun _ => ⟨fun q => ⟨q, by rw [skipLine]⟩, fun ds q => ?_⟩⟩
    exact ⟨q.advance '\n', by rw [List.nil_append, skipLine, if_pos rfl]⟩
  case case8 =>
    intro cs p ih
    refine ih.of_eq ['\n'] (·.advance '\n') ?_ ?_
    · rw [List.singleton_append, skipLine, if_pos rfl]
    · intro ds q _
      rw [List.singleton_append, skipLine, if_pos rfl]
  case case9 =>
    intro c cs p hc ih
    refine ih.of_eq [c] (·.advance c) ?_ ?_
    · rw [List.singleton_append, skipLine, if_neg hc]
    · intro ds q _
      rw [List.singleton_append, skipLine, if_neg hc]
  case case10 =>
    intro p rest p' h
    rw [skipBlock] at h
    cases h
  case case11 =>
    intro cs p ih
    exact ih.of_eq ['*', '/'] (fun q => (q.advance '*').advance '/') (skipBlock.eq_2 p cs)
      fun ds q _ => skipBlock.eq_2 q (cs ++ ds)
  case case12 =>
    intro c cs p h ih
    refine ih.of_eq [c] (·.advance c) (skipBlock_other h p) ?_
    rintro ds q ⟨rest, p', hskip⟩
    refine skipBlock_other ?_ q
    intro cs' hc hcs
    -- a comment that ends has a character after this one
    cases cs with
    | nil =>
        rw [skipBlock] at hskip
        cases hskip
    | cons d cs => exact h cs hc (by rw [(List.cons.inj hcs).1])

theorem readString_append {cs text : List Char} {p : Position} {cursor : Cursor}
    (h : readString cs p = (some text, cursor)) (ds : List Char) (q : Position) :
    ∃ q', readString (cs ++ ds) q = (some text, ⟨cursor.rest ++ ds, q'⟩) := by
  fun_induction readString cs p generalizing text cursor q with
  | case1 p => cases h
  | case2 p => cases h
  | case3 c cs p found cursor' hread ih =>
      obtain ⟨htext, rfl⟩ := Prod.mk.inj h
      obtain ⟨text, rfl, rfl⟩ := Option.map_eq_some_iff.mp htext
      obtain ⟨q', hq'⟩ := ih hread ((q.advance '\\').advance c)
      refine ⟨q', ?_⟩
      rw [List.cons_append, List.cons_append, readString, hq']
      rfl
  | case4 cs p =>
      cases h
      exact ⟨_, by rw [List.cons_append, readString, if_pos rfl] <;> simp⟩
  | case5 c cs p hlast hescape hquote found cursor' hread ih =>
      obtain ⟨htext, rfl⟩ := Prod.mk.inj h
      obtain ⟨text, rfl, rfl⟩ := Option.map_eq_some_iff.mp htext
      obtain ⟨q', hq'⟩ := ih hread (q.advance c)
      have hslash : c ≠ '\\' := by
        rintro rfl
        cases cs with
        | nil => exact hlast rfl rfl
        | cons d cs => exact hescape d cs rfl rfl
      refine ⟨q', ?_⟩
      rw [List.cons_append, readString, if_neg hquote, hq']
      · rfl
      · exact fun h => absurd h hslash
      · exact fun _ _ h => absurd h hslash

end Scanner

open Scanner

def Breaks (ds : List Char) : Prop := ∀ c ∈ ds.head?, isWordChar c = false

theorem breaks_nil : Breaks [] := by simp [Breaks]

theorem breaks_newline (ds : List Char) : Breaks ('\n' :: ds) := by
  rintro c hc
  obtain rfl : '\n' = c := by simpa using hc
  decide

theorem takeWhile_append_of_breaks {ds : List Char} (h : Breaks ds) (cs : List Char) :
    (cs ++ ds).takeWhile isWordChar = cs.takeWhile isWordChar ∧
      (cs ++ ds).dropWhile isWordChar = cs.dropWhile isWordChar ++ ds := by
  induction cs with
  | nil =>
      cases ds with
      | nil => simp
      | cons d ds => simp [h d rfl]
  | cons c cs ih =>
      by_cases hc : isWordChar c = true
      · simp [hc, ih]
      · simp [hc]

theorem readToken_append {cs ds : List Char} {p : Position} {kind : TokenKind} {cursor : Cursor}
    (h : Lexer.readToken cs p = (.ok kind, cursor)) (hcs : cs ≠ []) (hds : Breaks ds)
    (q : Position) :
    ∃ q', Lexer.readToken (cs ++ ds) q = (.ok kind, ⟨cursor.rest ++ ds, q'⟩) := by
  rcases cs with _ | ⟨c, cs⟩
  · exact absurd rfl hcs
  · simp only [List.cons_append, Lexer.readToken] at h ⊢
    split at h
    · cases h
      exact ⟨_, rfl⟩
    · split at h
      · split at h
        · rename_i hread
          cases h
          obtain ⟨q', hq'⟩ := readString_append hread ds (q.advance c)
          exact ⟨q', by rw [if_pos ‹_›, hq']⟩
        · cases h
      · split at h
        · cases h
          have hword := takeWhile_append_of_breaks hds (c :: cs)
          simp only [List.cons_append] at hword
          refine ⟨q.advanceAll ((c :: cs).takeWhile isWordChar), ?_⟩
          rw [if_neg ‹_›, if_pos ‹_›, readWord, hword.1, hword.2]
          rfl
        · cases h

def Reads (cs : List Char) (kind : TokenKind) (rest : List Char) : Prop :=
  ∀ source p, ∃ location p',
    Lexer.next ⟨source, ⟨cs, p⟩⟩ = (.ok ⟨kind, location⟩, ⟨source, ⟨rest, p'⟩⟩)

theorem next_eq_ok {lexer lexer' : Lexer} {token : Token}
    (h : lexer.next = (.ok token, lexer')) :
    ∃ start, skipLayout lexer.cursor.rest lexer.cursor.position = (none, start) ∧
      Lexer.readToken start.rest start.position = (.ok token.kind, lexer'.cursor) := by
  unfold Lexer.next at h
  split at h
  · cases h
  · rename_i start hskip
    split at h
    · rename_i hread
      cases h
      exact ⟨start, hskip, hread⟩
    · cases h

theorem next_of_eq {cs : List Char} {p : Position} {start cursor : Cursor} {kind : TokenKind}
    (hskip : skipLayout cs p = (none, start))
    (hread : Lexer.readToken start.rest start.position = (.ok kind, cursor)) (source : Source) :
    Lexer.next ⟨source, ⟨cs, p⟩⟩ = (.ok ⟨kind, ⟨source, start.position⟩⟩, ⟨source, cursor⟩) := by
  simp only [Lexer.next, hskip, hread]

theorem readToken_end {cs : List Char} {p : Position} {cursor : Cursor}
    (h : Lexer.readToken cs p = (.ok .endOfStream, cursor)) : cs = [] := by
  rcases cs with _ | ⟨c, cs⟩
  · rfl
  · simp only [Lexer.readToken] at h
    split at h
    · rename_i kind hkind
      cases h
      unfold TokenKind.ofChar? at hkind
      split at hkind <;> cases hkind
    · split at h
      · split at h <;> cases h
      · split at h
        · simp only [Prod.mk.injEq, Except.ok.injEq] at h
          have hword := h.1
          unfold TokenKind.ofWord at hword
          split at hword
          · cases hword
          · split at hword <;> cases hword
        · cases h

/-- A token that was read somewhere is read anywhere, also when characters
follow that break words. -/
theorem reads_append {lexer lexer' : Lexer} {token : Token}
    (h : lexer.next = (.ok token, lexer')) (htoken : token.kind ≠ .endOfStream) {ds : List Char}
    (hds : Breaks ds) : Reads (lexer.cursor.rest ++ ds) token.kind (lexer'.cursor.rest ++ ds) := by
  intro source q
  obtain ⟨start, hskip, hread⟩ := next_eq_ok h
  have hstart : start.rest ≠ [] := by
    intro hnil
    rw [hnil, Lexer.readToken] at hread
    exact htoken (Except.ok.inj (Prod.mk.inj hread).1).symm
  obtain ⟨q₁, hskip'⟩ := (passes.1 _ _ _ _ hskip).1 hstart ds q
  obtain ⟨q₂, hread'⟩ := readToken_append hread hstart hds q₁
  exact ⟨_, q₂, next_of_eq hskip' hread' source⟩

theorem reads_end {lexer lexer' : Lexer} {token : Token}
    (h : lexer.next = (.ok token, lexer')) (htoken : token.kind = .endOfStream) :
    Reads lexer.cursor.rest .endOfStream [] ∧
      ∀ ds source q, ∃ q', Lexer.next ⟨source, ⟨lexer.cursor.rest ++ '\n' :: ds, q⟩⟩ =
        Lexer.next ⟨source, ⟨ds, q'⟩⟩ := by
  obtain ⟨start, hskip, hread⟩ := next_eq_ok h
  rw [htoken] at hread
  obtain ⟨hempty, hnewline⟩ := (passes.1 _ _ _ _ hskip).2 (readToken_end hread)
  refine ⟨fun source q => ?_, fun ds source q => ?_⟩
  · obtain ⟨q', hskip'⟩ := hempty q
    exact ⟨_, q', next_of_eq hskip' rfl source⟩
  · obtain ⟨q', hskip'⟩ := hnewline ds q
    refine ⟨q', ?_⟩
    simp only [Lexer.next, hskip']

/-- The kinds of the tokens that characters are read as. -/
inductive Lexes : List Char → List TokenKind → Prop where
  | last {cs : List Char} (reads : Reads cs .endOfStream [])
      (newline : ∀ ds source q, ∃ q', Lexer.next ⟨source, ⟨cs ++ '\n' :: ds, q⟩⟩ =
        Lexer.next ⟨source, ⟨ds, q'⟩⟩) :
      Lexes cs [.endOfStream]
  | token {cs rest : List Char} {kind : TokenKind} {kinds : List TokenKind}
      (hkind : kind ≠ .endOfStream)
      (reads : ∀ ds, Breaks ds → Reads (cs ++ ds) kind (rest ++ ds)) (later : Lexes rest kinds) :
      Lexes cs (kind :: kinds)

theorem lexes_of_readAll {n : Nat} {lexer : Lexer} (hn : lexer.cursor.rest.length < n)
    (h : (Lexer.readAll n lexer).2 = none) :
    Lexes lexer.cursor.rest ((Lexer.readAll n lexer).1.map Token.kind) := by
  induction n generalizing lexer with
  | zero => omega
  | succ n ih =>
      rw [Lexer.readAll] at h ⊢
      cases hnext : lexer.next with
      | mk answer lexer' =>
          rw [hnext] at h
          cases answer with
          | error e => cases h
          | ok token =>
              by_cases hend : token.isEnd = true
              · have hkind : token.kind = .endOfStream := by simpa [Token.isEnd] using hend
                obtain ⟨hreads, hnewline⟩ := reads_end hnext hkind
                simp only [hend, if_true, List.map_cons, List.map_nil, hkind]
                exact .last hreads hnewline
              · have hkind : token.kind ≠ .endOfStream := by simpa [Token.isEnd] using hend
                have hlength := Lexer.next_length hnext (by simpa using hend)
                simp only [hend, Bool.false_eq_true, if_false] at h ⊢
                exact .token hkind (fun ds => reads_append hnext hkind)
                  (ih (by omega) h)

theorem Lexes.readAll {cs : List Char} {kinds : List TokenKind} (h : Lexes cs kinds)
    (source : Source) (p : Position) {n : Nat} (hn : cs.length < n) :
    ∃ tokens, Lexer.readAll n ⟨source, ⟨cs, p⟩⟩ = (tokens, none) ∧
      tokens.map Token.kind = kinds := by
  induction h generalizing p n with
  | @last cs hreads _ =>
      obtain ⟨n, rfl⟩ := Nat.exists_eq_succ_of_ne_zero (Nat.ne_zero_of_lt hn)
      obtain ⟨location, p', hnext⟩ := hreads source p
      refine ⟨[⟨.endOfStream, location⟩], ?_, rfl⟩
      rw [Lexer.readAll, hnext]
      rfl
  | @token cs rest kind kinds hkind hreads _ ih =>
      obtain ⟨n, rfl⟩ := Nat.exists_eq_succ_of_ne_zero (Nat.ne_zero_of_lt hn)
      obtain ⟨location, p', hnext⟩ := hreads [] breaks_nil source p
      simp only [List.append_nil] at hnext
      have hend : Token.isEnd ⟨kind, location⟩ = false := by simpa [Token.isEnd] using hkind
      have hlength := Lexer.next_length hnext hend
      obtain ⟨tokens, htokens, hkinds⟩ := ih p' (n := n) (by simp only at hlength; omega)
      refine ⟨⟨kind, location⟩ :: tokens, ?_, by simp [hkinds]⟩
      rw [Lexer.readAll, hnext]
      simp only [hend, Bool.false_eq_true, if_false, htokens]

theorem Lexes.of_next_eq {cs ds : List Char} {kinds : List TokenKind} (h : Lexes ds kinds)
    (heq : ∀ es source q, ∃ q',
      Lexer.next ⟨source, ⟨cs ++ es, q⟩⟩ = Lexer.next ⟨source, ⟨ds ++ es, q'⟩⟩) :
    Lexes cs kinds := by
  cases h with
  | last hreads hnewline =>
      refine .last (fun source q => ?_) fun es source q => ?_
      · obtain ⟨q', hnext⟩ := heq [] source q
        simp only [List.append_nil] at hnext
        rw [hnext]
        exact hreads source q'
      · obtain ⟨q', hnext⟩ := heq ('\n' :: es) source q
        rw [hnext]
        exact hnewline es source q'
  | token hkind hreads hlater =>
      refine .token hkind (fun es hes source q => ?_) hlater
      obtain ⟨q', hnext⟩ := heq es source q
      rw [hnext]
      exact hreads es hes source q'

theorem Lexes.append_newline {cs ds : List Char} {kinds kinds' : List TokenKind}
    (h : Lexes cs kinds) (h' : Lexes ds kinds') :
    ∃ before, kinds = before ++ [.endOfStream] ∧ Lexes (cs ++ '\n' :: ds) (before ++ kinds') := by
  induction h with
  | last _ hnewline =>
      refine ⟨[], rfl, h'.of_next_eq fun es source q => ?_⟩
      rw [List.append_assoc, List.cons_append]
      exact hnewline (ds ++ es) source q
  | @token cs rest kind kinds hkind hreads _ ih =>
      obtain ⟨before, rfl, hlater⟩ := ih
      refine ⟨kind :: before, rfl, .token hkind (fun es _ => ?_) hlater⟩
      rw [List.append_assoc, List.append_assoc, List.cons_append]
      exact hreads ('\n' :: (ds ++ es)) (breaks_newline _)

namespace Source

variable {source : Source} {tokens : List Token}

theorem lexes_of_tokenize (h : source.tokenize = .ok tokens) :
    Lexes source.text.toList (tokens.map Token.kind) := by
  have hscan := tokenize_eq_ok_iff.mp h
  have hlexes : Lexes (Lexer.ofSource source).cursor.rest _ :=
    lexes_of_readAll (Nat.lt_succ_self source.text.toList.length) (congrArg Prod.snd hscan)
  rwa [show (Lexer.readAll _ _).1 = tokens from congrArg Prod.fst hscan] at hlexes

theorem tokenize_of_lexes {kinds : List TokenKind} (h : Lexes source.text.toList kinds) :
    ∃ tokens, source.tokenize = .ok tokens ∧ tokens.map Token.kind = kinds := by
  obtain ⟨tokens, hread, hkinds⟩ := h.readAll source .start (Nat.lt_succ_self _)
  exact ⟨tokens, tokenize_eq_ok_iff.mpr hread, hkinds⟩

/-- The kinds of two texts with a newline between them: those of the first up
to its end, and then those of the second. -/
theorem tokenize_newline {first second whole : Source} {tokens tokens' : List Token}
    (htext : whole.text = first.text ++ "\n" ++ second.text)
    (h : first.tokenize = .ok tokens) (h' : second.tokenize = .ok tokens') :
    ∃ before all, tokens.map Token.kind = before ++ [.endOfStream] ∧
      whole.tokenize = .ok all ∧ all.map Token.kind = before ++ tokens'.map Token.kind := by
  obtain ⟨before, hbefore, hlexes⟩ :=
    (lexes_of_tokenize h).append_newline (lexes_of_tokenize h')
  have hchars : whole.text.toList = first.text.toList ++ '\n' :: second.text.toList := by
    rw [htext]
    simp
  rw [← hchars] at hlexes
  obtain ⟨all, hall, hkinds⟩ := tokenize_of_lexes hlexes
  exact ⟨before, all, hbefore, hall, hkinds⟩

end Source

/-- The names of the language: a letter and then letters, digits and
underscores, but not one of the two reserved words. -/
def IsName (name : String) : Prop :=
  (∃ c cs, name.toList = c :: cs ∧ isLetter c = true ∧ ∀ d ∈ cs, isWordChar d = true) ∧
    name ≠ "for" ∧ name ≠ "in"

theorem isName_of_ofWord {c : Char} {cs : List Char} {name : String} (hc : isLetter c = true)
    (hcs : ∀ d ∈ cs, isWordChar d = true) (h : TokenKind.ofWord (c :: cs) = .identifier name) :
    IsName name := by
  unfold TokenKind.ofWord at h
  split at h
  · cases h
  · rename_i hfor
    split at h
    · cases h
    · rename_i hin
      cases h
      refine ⟨⟨c, cs, by simp, hc, hcs⟩, ?_, ?_⟩
      · intro heq
        exact hfor (by simpa using congrArg String.toList heq)
      · intro heq
        exact hin (by simpa using congrArg String.toList heq)

theorem isName_of_readToken {cs : List Char} {p : Position} {name : String} {cursor : Cursor}
    (h : Lexer.readToken cs p = (.ok (.identifier name), cursor)) : IsName name := by
  rcases cs with _ | ⟨c, cs⟩
  · cases h
  · simp only [Lexer.readToken] at h
    split at h
    · rename_i kind hkind
      cases h
      unfold TokenKind.ofChar? at hkind
      split at hkind <;> cases hkind
    · split at h
      · split at h <;> cases h
      · split at h
        · rename_i hletter
          have hword := Except.ok.inj (Prod.mk.inj h).1
          have hc : isWordChar c = true := by simp [isWordChar, hletter]
          rw [readWord, List.takeWhile_cons_of_pos hc] at hword
          exact isName_of_ofWord hletter (List.all_eq_true.mp List.all_takeWhile) hword
        · cases h

theorem isName_of_pulls {lexer : Lexer} {tokens : List Token} {fault : Option LexError}
    (h : Pulls lexer tokens fault) {token : Token} (htoken : token ∈ tokens) {name : String}
    (hname : token.kind = .identifier name) : IsName name := by
  induction h with
  | nothing => cases htoken
  | fault => cases htoken
  | @token lexer lexer' first others fault hpull _ ih =>
      rcases List.mem_cons.mp htoken with rfl | htoken
      · obtain ⟨start, -, hread⟩ := next_eq_ok hpull
        rw [hname] at hread
        exact isName_of_readToken hread
      · exact ih htoken

theorem Source.isName_of_tokenize {source : Source} {tokens : List Token}
    (h : source.tokenize = .ok tokens) {token : Token} (htoken : token ∈ tokens) {name : String}
    (hname : token.kind = .identifier name) : IsName name := by
  have hpulls := source.pulls_scan
  rw [tokenize_eq_ok_iff.mp h] at hpulls
  exact isName_of_pulls hpulls htoken hname

end BuildScript
