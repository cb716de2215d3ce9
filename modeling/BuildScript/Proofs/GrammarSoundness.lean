import BuildScript.Proofs.ParserTriple
import BuildScript.Proofs.Derivation

namespace BuildScript.Grammar

open BuildScript.Parser BuildScript.Derivation

variable {τ : Type} [TokenStream τ] {α δ : Type}

/-- The tokens up to `rest` have the given kinds. -/
def Spans (kinds : List TokenKind) (ts rest : List Token) : Prop :=
  ts.map Token.kind = kinds ++ rest.map Token.kind

theorem Spans.nil (ts : List Token) : Spans [] ts ts := rfl

theorem Spans.cons {t : Token} {ts rest : List Token} {kind : TokenKind} {kinds : List TokenKind}
    (hkind : t.kind = kind) (h : Spans kinds ts rest) : Spans (kind :: kinds) (t :: ts) rest := by
  rw [Spans, List.map_cons, hkind, h]
  rfl

theorem Spans.append {ts mid rest : List Token} {kinds kinds' : List TokenKind}
    (h : Spans kinds ts mid) (h' : Spans kinds' mid rest) : Spans (kinds ++ kinds') ts rest := by
  rw [Spans, h, h', List.append_assoc]

def Sound (p : Parser (Rewindable τ) α) (yield : δ → List TokenKind) : Prop :=
  ∀ fault ts, Triple p fault ts (fun _ rest => ∃ d, Spans (yield d) ts rest) True fun _ => True

theorem Sound.of_yield {ε : Type} {p : Parser (Rewindable τ) α} {yield : δ → List TokenKind}
    {yield' : ε → List TokenKind} (h : Sound p yield) (embed : δ → ε)
    (hembed : ∀ d, yield' (embed d) = yield d) : Sound p yield' := by
  intro fault ts
  refine (h fault ts).mono ?_ id fun _ => id
  rintro a rest ⟨d, hd⟩
  exact ⟨embed d, by rwa [hembed]⟩

/-- A repetition matches the yields of some trees, one after the other. There
is no way for it not to match. -/
theorem many_spans {p : Parser (Rewindable τ) α} {yield : δ → List TokenKind}
    (hp : Sound p yield) (budget : Nat) (fault : Option LexError) (ts : List Token) :
    Triple (many p budget) fault ts (fun _ rest => ∃ ds : List δ, Spans (ds.flatMap yield) ts rest)
      False fun _ => True := by
  induction budget generalizing ts with
  | zero => exact Triple.throw_exhausted trivial
  | succ budget ih =>
      refine Triple.optional_bind (hp fault ts) ?_ fun _ => Triple.pure ⟨[], Spans.nil ts⟩
      rintro a mid ⟨d, hd⟩
      refine Triple.bind (ih mid) ?_
      rintro as rest ⟨ds, hds⟩
      exact Triple.pure ⟨d :: ds, hd.append hds⟩

theorem many_sound {p : Parser (Rewindable τ) α} {yield : δ → List TokenKind}
    (hp : Sound p yield) (budget : Nat) :
    Sound (many p budget) fun ds : List δ => ds.flatMap yield :=
  fun fault ts => (many_spans hp budget fault ts).mono (fun _ _ => id) False.elim fun _ => id

theorem binder_sound :
    Sound (binder : Parser (Rewindable τ) Node) fun name => [TokenKind.identifier name] := by
  intro fault ts
  refine Triple.read accepts_identifier ?_
  rintro t rest ⟨name, location⟩ rfl hname
  exact Triple.pure ⟨name, .cons (kind_of_name? hname) (.nil rest)⟩

theorem stringLiteral_sound :
    Sound (stringLiteral : Parser (Rewindable τ) Node) fun text => [TokenKind.string text] := by
  intro fault ts
  refine Triple.read accepts_stringToken ?_
  rintro t rest ⟨text, location⟩ rfl htext
  exact Triple.pure ⟨text, .cons (kind_of_contents? htext) (.nil rest)⟩

theorem attributes_sound (owner : Node) (budget : Nat) :
    Sound (attributes owner budget : Parser (Rewindable τ) Node) attributeKinds := by
  induction budget generalizing owner with
  | zero => exact fun fault ts => Triple.throw_exhausted trivial
  | succ budget ih =>
      intro fault ts
      refine Triple.optional_bind (Triple.one (accepts_expect rfl (by decide)) fun _ _ _ => trivial)
        ?_ fun _ => Triple.pure ⟨[], Spans.nil ts⟩
      rintro _ mid ⟨dot, rfl, hdot⟩
      refine Triple.read accepts_identifier ?_
      rintro t rest ⟨name, location⟩ rfl hname
      refine (ih _ fault rest).mono ?_ id fun _ => id
      rintro node rest' ⟨names, hnames⟩
      exact ⟨name :: names, .cons (kind_of_ofKind? hdot) (.cons (kind_of_name? hname) hnames)⟩

theorem object_sound (budget : Nat) :
    Sound (object budget : Parser (Rewindable τ) Node) Path.kinds := by
  intro fault ts
  refine Triple.read accepts_identifier ?_
  rintro t rest ⟨name, location⟩ rfl hname
  refine (attributes_sound _ budget fault rest).mono ?_ id fun _ => id
  rintro node rest' ⟨names, hnames⟩
  exact ⟨⟨name, names⟩, .cons (kind_of_name? hname) hnames⟩

theorem expect_pure_sound {kind : TokenKind} {a : α} {fault : Option LexError} {ts : List Token}
    {R : α → List Token → Prop} (h : kind.payload = none) (hend : kind ≠ .endOfStream)
    (hR : ∀ t rest, ts = t :: rest → t.kind = kind → R a rest) :
    Triple (do let _ ← expect kind; return a : Parser (Rewindable τ) α) fault ts R True
      fun _ => True := by
  refine Triple.read (accepts_expect h hend) ?_
  rintro t rest _ rfl ht
  exact Triple.pure (hR t rest rfl (kind_of_ofKind? ht))

theorem parenthesized_sound (budget : Nat) :
    Sound (parenthesized budget : Parser (Rewindable τ) Node)
      fun path => (Value.parenthesized path).kinds := by
  intro fault ts
  refine Triple.read (accepts_expect rfl (by decide)) ?_
  rintro t mid _ rfl ht
  refine Triple.bind (object_sound budget fault mid) ?_
  rintro node rest ⟨path, hpath⟩
  refine expect_pure_sound rfl (by decide) ?_
  rintro u rest' rfl hu
  exact ⟨path, .cons (kind_of_ofKind? ht) (hpath.append (.cons hu (.nil rest')))⟩

variable {value : Parser (Rewindable τ) Node}

theorem list_sound (hvalue : Sound value Value.kinds) (budget : Nat) :
    Sound (list value budget) fun entries => (Value.list entries).kinds := by
  intro fault ts
  refine Triple.here_bind (fun location => ?_) fun _ _ _ => trivial
  refine Triple.read (accepts_expect rfl (by decide)) ?_
  rintro t mid _ rfl ht
  have hmany := (many_sound hvalue budget).of_yield id entryKinds_eq_flatMap
  refine Triple.bind (hmany fault mid) ?_
  rintro nodes rest ⟨entries, hentries⟩
  refine expect_pure_sound rfl (by decide) ?_
  rintro u rest' rfl hu
  exact ⟨entries, .cons (kind_of_ofKind? ht) (hentries.append (.cons hu (.nil rest')))⟩

theorem listFor_sound (hvalue : Sound value Value.kinds) :
    Sound (listFor value) fun parts : Value × String × Value =>
      (Value.listFor parts.1 parts.2.1 parts.2.2).kinds := by
  intro fault ts
  refine Triple.here_bind (fun location => ?_) fun _ _ _ => trivial
  refine Triple.read (accepts_expect rfl (by decide)) ?_
  rintro opening ts₁ _ rfl hopening
  refine Triple.bind (hvalue fault ts₁) ?_
  rintro bodyNode _ ⟨body, hbody⟩
  refine Triple.read (accepts_expect rfl (by decide)) ?_
  rintro forToken ts₂ _ rfl hfor
  refine Triple.bind (binder_sound fault ts₂) ?_
  rintro elementNode _ ⟨element, helement⟩
  refine Triple.read (accepts_expect rfl (by decide)) ?_
  rintro inToken ts₃ _ rfl hin
  refine Triple.bind (hvalue fault ts₃) ?_
  rintro sourceNode _ ⟨source, hsource⟩
  refine expect_pure_sound rfl (by decide) ?_
  rintro closing rest rfl hclosing
  have hend := hsource.append (.cons hclosing (.nil rest))
  have helementEnd := helement.append (.cons (kind_of_ofKind? hin) hend)
  exact ⟨⟨body, element, source⟩, .cons (kind_of_ofKind? hopening)
    (hbody.append (.cons (kind_of_ofKind? hfor) helementEnd))⟩

theorem argument_sound (hvalue : Sound value Value.kinds) :
    Sound (argument value) Argument.kinds := by
  intro fault ts
  refine Triple.firstOf_all ?_
  intro q hq
  simp only [List.mem_cons, List.not_mem_nil, or_false] at hq
  rcases hq with rfl | rfl
  · refine Triple.read accepts_identifier ?_
    rintro t mid ⟨name, location⟩ rfl hname
    refine Triple.read (accepts_expect rfl (by decide)) ?_
    rintro u rest _ rfl hu
    refine Triple.bind (hvalue fault rest) ?_
    rintro node rest' ⟨d, hd⟩
    exact Triple.pure ⟨.keyword name d,
      .cons (kind_of_name? hname) (.cons (kind_of_ofKind? hu) hd)⟩
  · refine (hvalue fault ts).mono ?_ id fun _ => id
    rintro node rest ⟨d, hd⟩
    exact ⟨.positional d, hd⟩

theorem call_sound (hvalue : Sound value Value.kinds) (budget : Nat) :
    Sound (call value budget) fun parts : Path × List Argument =>
      callKinds parts.1 parts.2 := by
  intro fault ts
  refine Triple.here_bind (fun location => ?_) fun _ _ _ => trivial
  refine Triple.bind (object_sound budget fault ts) ?_
  rintro calleeNode mid ⟨callee, hcallee⟩
  refine Triple.read (accepts_expect rfl (by decide)) ?_
  rintro t mid' _ rfl ht
  have hmany := (many_sound (argument_sound hvalue) budget).of_yield id argumentKinds_eq_flatMap
  refine Triple.bind (hmany fault mid') ?_
  rintro nodes rest ⟨arguments, harguments⟩
  refine expect_pure_sound rfl (by decide) ?_
  rintro u rest' rfl hu
  exact ⟨⟨callee, arguments⟩, hcallee.append
    (.cons (kind_of_ofKind? ht) (harguments.append (.cons hu (.nil rest'))))⟩

/-- A way to splice trees in that reads no tokens of the program itself. -/
def ReadsNothing (splice : String → Location → Parser (Rewindable τ) Node) : Prop :=
  ∀ specifier location fault ts, Triple (splice specifier location) fault ts
    (fun _ rest => rest = ts) True fun _ => True

variable {splice : String → Location → Parser (Rewindable τ) Node}

theorem inclusion_sound (hsplice : ReadsNothing splice) :
    Sound (inclusion splice) fun specifier => (Value.inclusion specifier).kinds := by
  intro fault ts
  refine Triple.read (accepts_expectIdentifier "import") ?_
  rintro t ts location rfl ht
  refine Triple.read (accepts_expect rfl (by decide)) ?_
  rintro opening ts _ rfl hopening
  refine Triple.read accepts_stringToken ?_
  rintro u ts ⟨specifier, _⟩ rfl hu
  refine Triple.read (accepts_expect rfl (by decide)) ?_
  rintro closing ts _ rfl hclosing
  refine (hsplice specifier location fault ts).mono ?_ id fun _ => id
  rintro node rest rfl
  exact ⟨specifier, .cons (kind_of_placeOf? ht) (.cons (kind_of_ofKind? hopening)
    (.cons (kind_of_contents? hu) (.cons (kind_of_ofKind? hclosing) (.nil rest))))⟩

theorem value_sound (hsplice : ReadsNothing splice) (budget : Nat) :
    Sound (Grammar.value splice budget) Value.kinds := by
  induction budget with
  | zero => exact fun fault ts => Triple.throw_exhausted trivial
  | succ budget ih =>
      intro fault ts
      refine Triple.firstOf_all ?_
      intro q hq
      simp only [List.mem_cons, List.not_mem_nil, or_false] at hq
      rcases hq with rfl | rfl | rfl | rfl | rfl | rfl | rfl
      · exact (inclusion_sound hsplice).of_yield .inclusion (fun _ => rfl) fault ts
      · exact (call_sound ih _).of_yield (fun parts => .call parts.1 parts.2) (fun _ => rfl)
          fault ts
      · exact (object_sound _).of_yield .object (fun _ => rfl) fault ts
      · exact (parenthesized_sound _).of_yield .parenthesized (fun _ => rfl) fault ts
      · exact (list_sound ih _).of_yield .list (fun _ => rfl) fault ts
      · exact (listFor_sound ih).of_yield (fun parts => .listFor parts.1 parts.2.1 parts.2.2)
          (fun _ => rfl) fault ts
      · exact stringLiteral_sound.of_yield .string (fun _ => rfl) fault ts

theorem statement_sound (hvalue : Sound value Value.kinds) (budget : Nat) :
    Sound (statement value budget) Statement.kinds := by
  intro fault ts
  refine Triple.firstOf_all ?_
  intro q hq
  simp only [List.mem_cons, List.not_mem_nil, or_false] at hq
  rcases hq with rfl | rfl
  · refine Triple.here_bind (fun location => ?_) fun _ _ _ => trivial
    refine Triple.bind (binder_sound fault ts) ?_
    rintro targetNode mid ⟨target, htarget⟩
    refine Triple.read (accepts_expect rfl (by decide)) ?_
    rintro t rest _ rfl ht
    refine Triple.bind (hvalue fault rest) ?_
    rintro node rest' ⟨d, hd⟩
    exact Triple.pure ⟨.assignment target d, htarget.append (.cons (kind_of_ofKind? ht) hd)⟩
  · exact (call_sound hvalue budget).of_yield (fun parts => .call parts.1 parts.2) (fun _ => rfl)
      fault ts

/-- A program that is read has a derivation whose yield ends where its tokens
do. One that is not read is stopped. -/
theorem program_sound (hvalue : Sound value Value.kinds) (budget : Nat)
    (fault : Option LexError) (ts : List Token) :
    Triple (program value budget) fault ts
      (fun _ rest => ∃ statements last others, rest = last :: others ∧
        last.kind = .endOfStream ∧ Spans (statementKinds statements) ts rest)
      False fun _ => True := by
  refine Triple.here_bind (fun location => ?_) fun _ _ _ => trivial
  refine Triple.bind (many_spans (statement_sound hvalue budget) budget fault ts) ?_
  rintro nodes rest ⟨statements, hstatements⟩
  refine Triple.bind (Q := fun t rest' => rest' = rest ∧ ∃ others, rest = t :: others)
    (Triple.peek (fun t others h => ⟨rfl, others, h⟩) fun _ _ _ => trivial) ?_
  rintro t _ ⟨rfl, others, hrest⟩
  by_cases hend : t.isEnd = true
  · rw [if_pos hend]
    have hkind : t.kind = .endOfStream := by simpa [Token.isEnd] using hend
    exact Triple.pure ⟨statements, t, others, hrest, hkind, hstatements⟩
  · rw [if_neg hend]
    exact Triple.throw_fatal trivial

end BuildScript.Grammar
