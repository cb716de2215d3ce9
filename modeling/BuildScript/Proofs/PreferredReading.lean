import BuildScript.Proofs.GrammarCompleteness
import BuildScript.Proofs.Placement

/-!
Whatever the rules of the grammar match, they read as its preferred derivation,
and put the tree on the tokens that were read. This holds whether or not what
comes after can be read, so it tells about the first part of a text that is
wrong further on.

A rule that does not match says something about the tokens to come too: an
object does not match only where no path stands, and a call does not match a
path with another path in parentheses after it. That is why an object on its own
is never followed by parentheses that would have made it a call. Where a rule
stops altogether, there is one place to blame.
-/

namespace BuildScript.Parser

variable {τ : Type} [TokenStream τ] {α β : Type} {p : Parser (Rewindable τ) α}
  {fault : Option LexError} {ts : List Token} {Q Q' : α → List Token → Prop}
  {R : β → List Token → Prop} {mismatched mismatched' : Prop} {stopped stopped' : Failure → Prop}

namespace Triple

theorem and (h : Triple p fault ts Q mismatched stopped)
    (h' : Triple p fault ts Q' mismatched' stopped') :
    Triple p fault ts (fun a rest => Q a rest ∧ Q' a rest) (mismatched ∧ mismatched')
      fun failure => stopped failure ∧ stopped' failure := by
  intro tape s hs
  have hended := h tape s hs
  have hended' := h' tape s hs
  cases hp : p s with
  | ok a s' =>
      rw [hp] at hended hended'
      obtain ⟨rest, hrest, hsize, ha⟩ := hended
      obtain ⟨rest', hrest', -, ha'⟩ := hended'
      obtain rfl : rest = rest' := hrest.1.2.2.symm.trans hrest'.1.2.2
      exact ⟨rest, hrest, hsize, ha, ha'⟩
  | error failure s' =>
      rw [hp] at hended hended'
      cases failure with
      | mismatch token => exact ⟨hended.1, hended.2.1, hended.2.2, hended'.2.2⟩
      | fatal e => exact ⟨hended, hended'⟩
      | exhausted => exact ⟨hended, hended'⟩

/-- One token is read. It fits, or it shows that nothing matches. -/
theorem read_on {f : Token → Option α} {g : α → Parser (Rewindable τ) β} (hp : Accepts p f)
    (hfault : ∀ e, fault = some e → stopped (.fatal (.lexical e)))
    (hg : ∀ t rest a, ts = t :: rest → f t = some a →
      Triple (g a) fault rest R mismatched stopped)
    (hmismatched : ∀ t rest, ts = t :: rest → f t = none → mismatched) :
    Triple (p >>= g) fault ts R mismatched stopped := by
  refine bind ((one hp fun e he _ => hfault e he).mono (fun _ _ => id) ?_ fun _ => id) ?_
  · rintro ⟨t, rest, hts, hnone⟩
    exact hmismatched t rest hts hnone
  · rintro a rest ⟨t, hts, ha⟩
    exact hg t rest a hts ha

theorem here_at {g : Location → Parser (Rewindable τ) β}
    (hfault : ∀ e, fault = some e → stopped (.fatal (.lexical e)))
    (h : ∀ t rest, ts = t :: rest → Triple (g t.location) fault ts R mismatched stopped) :
    Triple (here >>= g) fault ts R mismatched stopped := by
  refine bind (Q := fun location left => left = ts ∧ ∃ t rest, ts = t :: rest ∧
    location = t.location) ?_ ?_
  · refine bind (Q := fun t left => left = ts ∧ ∃ rest, ts = t :: rest)
      (peek (fun t rest hts => ⟨rfl, rest, hts⟩) fun e he _ => hfault e he) ?_
    rintro t _ ⟨rfl, rest, hts⟩
    exact pure ⟨rfl, t, rest, hts, rfl⟩
  · rintro _ _ ⟨rfl, t, rest, hts, rfl⟩
    exact h t rest hts

end Triple

theorem eq_of_name? {t : Token} {name : String} {location : Location}
    (h : name? t = some (name, location)) : t.kind = .identifier name ∧ location = t.location := by
  have hkind := kind_of_name? h
  rw [name?_of_eq hkind] at h
  exact ⟨hkind, (Prod.mk.inj (Option.some.inj h)).2.symm⟩

theorem eq_of_contents? {t : Token} {text : String} {location : Location}
    (h : contents? t = some (text, location)) :
    t.kind = .string text ∧ location = t.location := by
  have hkind := kind_of_contents? h
  rw [contents?_of_eq hkind] at h
  exact ⟨hkind, (Prod.mk.inj (Option.some.inj h)).2.symm⟩

theorem eq_of_placeOf? {t : Token} {name : String} {location : Location}
    (h : placeOf? name t = some location) : t.kind = .identifier name ∧ location = t.location := by
  have hkind := kind_of_placeOf? h
  rw [placeOf?_of_eq hkind] at h
  exact ⟨hkind, (Option.some.inj h).symm⟩

inductive Chain (Q : α → List Token → List Token → Prop) : List α → List Token → List Token → Prop
    where
  | nil (ts : List Token) : Chain Q [] ts ts
  | cons {a : α} {as : List α} {ts mid rest : List Token} (first : Q a ts mid)
      (others : Chain Q as mid rest) : Chain Q (a :: as) ts rest

/-- A repetition ends where an item does not match. What holds before an item
holds again before the next one. -/
theorem Triple.many {before : List Token → Prop} {item : α → List Token → List Token → Prop}
    {ended : List Token → Prop} (hexhausted : stopped .exhausted)
    (hp : ∀ ts, before ts →
      Triple p fault ts (fun a rest => item a ts rest ∧ before rest) (ended ts) stopped)
    (budget : Nat) (hts : before ts) :
    Triple (Parser.many p budget) fault ts
      (fun as rest => Chain item as ts rest ∧ before rest ∧ ended rest) False stopped := by
  induction budget generalizing ts with
  | zero => exact .throw_exhausted hexhausted
  | succ budget ih =>
      refine .optional_bind (hp ts hts) ?_ fun hended => .pure ⟨.nil ts, hts, hended⟩
      rintro a mid ⟨ha, hmid⟩
      refine .bind (ih hmid) ?_
      rintro as rest ⟨hchain, hrest, hended⟩
      exact .pure ⟨.cons ha hchain, hrest, hended⟩

end BuildScript.Parser

namespace BuildScript.Derivation

theorem attributeKinds_append_cons_inj {names names' : List String} {kind kind' : TokenKind}
    {kinds kinds' : List TokenKind} (hkind : kind ≠ .dot) (hkind' : kind' ≠ .dot)
    (h : attributeKinds names ++ kind :: kinds = attributeKinds names' ++ kind' :: kinds') :
    names = names' ∧ kind = kind' ∧ kinds = kinds' := by
  induction names generalizing names' with
  | nil =>
      cases names' with
      | nil => simpa [attributeKinds] using h
      | cons name' names' => exact absurd (List.cons.inj h).1 hkind
  | cons name names ih =>
      cases names' with
      | nil => exact absurd (List.cons.inj h).1.symm hkind'
      | cons name' names' =>
          obtain ⟨rfl, hrest⟩ : name = name' ∧ attributeKinds names ++ kind :: kinds =
              attributeKinds names' ++ kind' :: kinds' := by
            simpa [attributeKinds] using h
          obtain ⟨rfl, hends⟩ := ih hrest
          exact ⟨rfl, hends⟩

/-- A path ends where no dot follows. -/
theorem Path.kinds_append_cons_inj {path path' : Path} {kind kind' : TokenKind}
    {kinds kinds' : List TokenKind} (hkind : kind ≠ .dot) (hkind' : kind' ≠ .dot)
    (h : path.kinds ++ kind :: kinds = path'.kinds ++ kind' :: kinds') :
    path = path' ∧ kind = kind' ∧ kinds = kinds' := by
  rcases path with ⟨name, names⟩
  rcases path' with ⟨name', names'⟩
  obtain ⟨hname, hrest⟩ := List.cons.inj h
  obtain ⟨rfl, hends⟩ := attributeKinds_append_cons_inj hkind hkind' hrest
  obtain rfl : name = name' := by simpa using hname
  exact ⟨rfl, hends⟩

/-- An argument that a path in parentheses begins with is the whole path. -/
theorem Argument.append_eq_close {argument : Argument} {inner : Path}
    {kinds kinds' : List TokenKind}
    (hbare : argument.isBare = true → ∃ kind more, kinds = kind :: more ∧ kind ≠ .dot)
    (h : argument.kinds ++ kinds = inner.kinds ++ .parenClose :: kinds') :
    kinds = .parenClose :: kinds' := by
  cases argument with
  | keyword name value => rcases inner with ⟨first, _ | ⟨second, others⟩⟩ <;>
      simp [Argument.kinds, Path.kinds, attributeKinds] at h
  | positional value =>
      cases value with
      | object path =>
          obtain ⟨kind, more, rfl, hkind⟩ := hbare rfl
          obtain ⟨-, rfl, rfl⟩ := Path.kinds_append_cons_inj hkind (by decide) h
          rfl
      | call callee arguments =>
          have hcall : callee.kinds ++ .parenOpen :: (argumentKinds arguments ++
              .parenClose :: kinds) = inner.kinds ++ .parenClose :: kinds' := by
            simpa [Argument.kinds, Value.kinds] using h
          obtain ⟨-, hkind, -⟩ := Path.kinds_append_cons_inj (by decide) (by decide) hcall
          cases hkind
      | inclusion specifier => rcases inner with ⟨first, _ | ⟨second, others⟩⟩ <;>
          simp [Argument.kinds, Value.kinds, Path.kinds, attributeKinds] at h
      | _ => simp [Argument.kinds, Value.kinds, Path.kinds] at h

end BuildScript.Derivation

namespace BuildScript.Grammar

open BuildScript.Parser BuildScript.Derivation

variable {τ : Type} [TokenStream τ]

/-- A whole path is to come, and something after it that does not continue
it. -/
def PathAhead (ts : List Token) : Prop :=
  ∃ (path : Path) (kind : TokenKind), kind ≠ .dot ∧ path.kinds ++ [kind] <+: ts.map Token.kind

/-- A path is to come, and another one in parentheses after it. -/
def CallAhead (ts : List Token) : Prop :=
  ∃ callee inner : Path, callee.kinds ++ (Value.parenthesized inner).kinds <+: ts.map Token.kind

def InclusionAhead (ts : List Token) : Prop :=
  ∃ specifier, (Value.inclusion specifier).kinds <+: ts.map Token.kind

/-- What comes after an object that is no callee: nothing that would have made
it longer or the callee of a call. -/
def Settled (rest : List Token) : Prop :=
  NextKind (· ≠ .dot) rest ∧
    ∀ path : Path, ¬ (Value.parenthesized path).kinds <+: rest.map Token.kind

section Reading

variable (tokens : List Token) (fault : Option LexError)
  (included : String → Location → Node → Prop) (halts : String → Location → Failure → Prop)

/-- What stops the reading of some tokens: a budget that is used up, the fault
that follows them, or an inclusion among them, at the place of its first
word. -/
inductive Blamed : Failure → Prop where
  | exhausted : Blamed .exhausted
  | lexical {e : LexError} (hfault : fault = some e) : Blamed (.fatal (.lexical e))
  | inclusion {specifier : String} {before rest : List Token} {word opening text closing : Token}
      {failure : Failure} (htokens : tokens = before ++ word :: opening :: text :: closing :: rest)
      (hword : word.kind = .identifier "import") (hopening : opening.kind = .parenOpen)
      (htext : text.kind = .string specifier) (hclosing : closing.kind = .parenClose)
      (hhalts : halts specifier word.location failure) : Blamed failure

/-- A way to splice trees in that reads no tokens and never does not match. -/
def SplicesAs (splice : String → Location → Parser (Rewindable τ) Node) : Prop :=
  ∀ specifier location ts, Triple (splice specifier location) fault ts
    (fun node rest => rest = ts ∧ included specifier location node) False
    (halts specifier location)

def ValueTaken (node : Node) (ts rest : List Token) : Prop :=
  ∃ (used : List Token) (value : Value), ts = used ++ rest ∧
    value.Placed included node used ∧ value.Preferred ∧ (value.isBare = true → Settled rest)

def ArgumentTaken (node : Node) (ts rest : List Token) : Prop :=
  ∃ (used : List Token) (argument : Argument), ts = used ++ rest ∧
    argument.Placed included node used ∧ argument.Preferred ∧
    (argument.isBare = true → Settled rest)

def StatementTaken (node : Node) (ts rest : List Token) : Prop :=
  ∃ (used : List Token) (statement : Statement), ts = used ++ rest ∧
    statement.Placed included node used ∧ statement.Preferred

def ReadsValues (value : Parser (Rewindable τ) Node) : Prop :=
  ∀ ts, ts <:+ tokens → Triple value fault ts (fun node rest => ValueTaken included node ts rest)
    (¬ PathAhead ts) (Blamed tokens fault halts)

end Reading

section Objects

variable {tokens : List Token} {fault : Option LexError}
  {halts : String → Location → Failure → Prop}

theorem blamed_fault (e : LexError) (he : fault = some e) :
    Blamed tokens fault halts (.fatal (.lexical e)) :=
  .lexical he

theorem attributes_read (owner : Node) (budget : Nat) (ts : List Token) :
    Triple (attributes owner budget : Parser (Rewindable τ) Node) fault ts
      (fun node rest => ∃ used names, ts = used ++ rest ∧ AttributesPlaced owner names node used ∧
        NextKind (· ≠ .dot) rest)
      (∀ names kind, kind ≠ .dot → ¬ attributeKinds names ++ [kind] <+: ts.map Token.kind)
      (Blamed tokens fault halts) := by
  induction budget generalizing owner ts with
  | zero => exact Triple.throw_exhausted .exhausted
  | succ budget ih =>
      refine Triple.optional_bind
        (Triple.one (accepts_expect rfl (by decide)) fun e he _ => blamed_fault e he) ?_ ?_
      · rintro _ mid ⟨dot, rfl, hdot⟩
        have hdot := kind_of_ofKind? hdot
        refine Triple.read_on accepts_identifier blamed_fault ?_ ?_
        · rintro word rest ⟨name, location⟩ rfl hname
          obtain ⟨hword, rfl⟩ := eq_of_name? hname
          refine (ih _ rest).mono ?_ ?_ fun _ => id
          · rintro node rest' ⟨used, names, rfl, hplaced, hrest'⟩
            exact ⟨dot :: word :: used, name :: names, rfl,
              ⟨dot, word, used, rfl, hdot, hword, hplaced⟩, hrest'⟩
          · rintro hnone names kind hkind hahead
            cases names with
            | nil =>
                obtain ⟨heq, -⟩ := List.cons_prefix_cons.mp hahead
                exact hkind (heq.trans hdot)
            | cons name' names =>
                refine hnone names kind hkind ?_
                have hrest : .identifier name' :: (attributeKinds names ++ [kind]) <+:
                    word.kind :: rest.map Token.kind := (List.cons_prefix_cons.mp hahead).2
                exact (List.cons_prefix_cons.mp hrest).2
        · rintro word rest rfl hword names kind hkind hahead
          cases names with
          | nil =>
              obtain ⟨heq, -⟩ := List.cons_prefix_cons.mp hahead
              exact hkind (heq.trans hdot)
          | cons name names =>
              have hrest : .identifier name :: (attributeKinds names ++ [kind]) <+:
                  word.kind :: rest.map Token.kind := (List.cons_prefix_cons.mp hahead).2
              rw [name?_of_eq (List.cons_prefix_cons.mp hrest).1.symm] at hword
              cases hword
      · rintro ⟨t, rest, rfl, ht⟩
        refine Triple.pure ⟨[], [], rfl, ⟨rfl, rfl⟩, t, rest, rfl, fun hdot => ?_⟩
        rw [ofKind?_of_eq hdot] at ht
        cases ht

theorem object_read (budget : Nat) (ts : List Token) :
    Triple (object budget : Parser (Rewindable τ) Node) fault ts
      (fun node rest => ∃ used path, ts = used ++ rest ∧ Path.Placed path node used ∧
        NextKind (· ≠ .dot) rest)
      (¬ PathAhead ts) (Blamed tokens fault halts) := by
  refine Triple.read_on accepts_identifier blamed_fault ?_ ?_
  · rintro word rest ⟨name, location⟩ rfl hname
    obtain ⟨hword, rfl⟩ := eq_of_name? hname
    refine (attributes_read _ budget rest).mono ?_ ?_ fun _ => id
    · rintro node rest' ⟨used, names, rfl, hplaced, hrest'⟩
      exact ⟨word :: used, ⟨name, names⟩, rfl, ⟨word, used, rfl, hword, hplaced⟩,
        hrest'⟩
    · rintro hnone ⟨path, kind, hkind, hahead⟩
      exact hnone path.attributes kind hkind (List.cons_prefix_cons.mp hahead).2
  · rintro word rest rfl hword ⟨path, kind, -, hahead⟩
    rw [name?_of_eq (List.cons_prefix_cons.mp hahead).1.symm] at hword
    cases hword

theorem parenthesized_read {included : String → Location → Node → Prop} (budget : Nat)
    (ts : List Token) :
    Triple (parenthesized budget : Parser (Rewindable τ) Node) fault ts
      (fun node rest => ValueTaken included node ts rest) True (Blamed tokens fault halts) := by
  refine Triple.read_on (accepts_expect rfl (by decide)) blamed_fault ?_ fun _ _ _ _ => trivial
  rintro opening inner _ rfl hopening
  refine Triple.bind ((object_read budget inner).mono (fun _ _ => id) (fun _ => trivial)
    fun _ => id) ?_
  rintro node _ ⟨used, path, rfl, hplaced, -⟩
  refine Triple.read_on (accepts_expect rfl (by decide)) blamed_fault ?_ fun _ _ _ _ => trivial
  rintro closing rest _ rfl hclosing
  refine Triple.pure ⟨opening :: (used ++ [closing]), .parenthesized path, by simp, ?_, trivial,
    fun h => nomatch h⟩
  exact ⟨opening, used, closing, rfl, kind_of_ofKind? hopening, hplaced, kind_of_ofKind? hclosing⟩

theorem stringLiteral_read {included : String → Location → Node → Prop} (ts : List Token) :
    Triple (stringLiteral : Parser (Rewindable τ) Node) fault ts
      (fun node rest => ValueTaken included node ts rest) True (Blamed tokens fault halts) := by
  refine Triple.read_on accepts_stringToken blamed_fault ?_ fun _ _ _ _ => trivial
  rintro token rest ⟨text, location⟩ rfl htext
  obtain ⟨hkind, rfl⟩ := eq_of_contents? htext
  exact Triple.pure ⟨[token], .string text, rfl, ⟨token, rfl, hkind, rfl⟩, trivial,
    fun h => nomatch h⟩

end Objects

section Values

variable {tokens : List Token} {fault : Option LexError}
  {included : String → Location → Node → Prop} {halts : String → Location → Failure → Prop}
  {splice : String → Location → Parser (Rewindable τ) Node} {value : Parser (Rewindable τ) Node}

theorem inclusion_read (hsplice : SplicesAs fault included halts splice) {ts : List Token}
    (hts : ts <:+ tokens) :
    Triple (inclusion splice) fault ts (fun node rest => ValueTaken included node ts rest)
      (¬ InclusionAhead ts) (Blamed tokens fault halts) := by
  refine Triple.read_on (accepts_expectIdentifier "import") blamed_fault ?_ ?_
  · rintro word ts location rfl hplace
    obtain ⟨hword, rfl⟩ := eq_of_placeOf? hplace
    refine Triple.read_on (accepts_expect rfl (by decide)) blamed_fault ?_ ?_
    · rintro opening ts _ rfl hopening
      have hopening := kind_of_ofKind? hopening
      refine Triple.read_on accepts_stringToken blamed_fault ?_ ?_
      · rintro text ts ⟨specifier, location⟩ rfl hcontents
        obtain ⟨htext, rfl⟩ := eq_of_contents? hcontents
        refine Triple.read_on (accepts_expect rfl (by decide)) blamed_fault ?_ ?_
        · rintro closing ts _ rfl hclosing
          have hclosing := kind_of_ofKind? hclosing
          obtain ⟨before, rfl⟩ := hts
          refine (hsplice specifier word.location ts).mono ?_ False.elim fun failure hhalts => ?_
          · rintro node rest ⟨rfl, hincluded⟩
            refine ⟨[word, opening, text, closing], .inclusion specifier, rfl, ?_, trivial,
              fun h => nomatch h⟩
            exact ⟨word, opening, text, closing, rfl, hword, hopening, htext, hclosing, hincluded⟩
          · exact .inclusion rfl hword hopening htext hclosing hhalts
        · rintro closing rest rfl hclosing ⟨specifier', hahead⟩
          simp only [Value.kinds, List.map_cons, List.cons_prefix_cons] at hahead
          rw [ofKind?_of_eq hahead.2.2.2.1.symm] at hclosing
          cases hclosing
      · rintro text rest rfl htext ⟨specifier, hahead⟩
        simp only [Value.kinds, List.map_cons, List.cons_prefix_cons] at hahead
        rw [contents?_of_eq hahead.2.2.1.symm] at htext
        cases htext
    · rintro opening rest rfl hopening ⟨specifier, hahead⟩
      simp only [Value.kinds, List.map_cons, List.cons_prefix_cons] at hahead
      rw [ofKind?_of_eq hahead.2.1.symm] at hopening
      cases hopening
  · rintro word rest rfl hword ⟨specifier, hahead⟩
    simp only [Value.kinds, List.map_cons, List.cons_prefix_cons] at hahead
    rw [placeOf?_of_eq hahead.1.symm] at hword
    cases hword

theorem entries_of_chain {nodes : List Node} {ts rest : List Token}
    (h : Chain (ValueTaken included) nodes ts rest) :
    ∃ used values, ts = used ++ rest ∧ EntriesPlaced included values nodes used ∧
      PreferredEntries values := by
  induction h with
  | nil ts => exact ⟨[], [], rfl, ⟨rfl, rfl⟩, trivial⟩
  | @cons node nodes ts mid rest hfirst _ ih =>
      obtain ⟨first, value, rfl, hplaced, hpreferred, hbare⟩ := hfirst
      obtain ⟨used, values, rfl, hplaceds, hpreferreds⟩ := ih
      refine ⟨first ++ used, value :: values, by simp, ⟨node, first, nodes, used, rfl, rfl, hplaced,
        hplaceds⟩, hpreferred, hpreferreds, fun h next hnext => ?_⟩
      by_contra hparen
      obtain ⟨path, rfl⟩ := Value.eq_parenthesized (by simpa using hparen)
      obtain ⟨values, rfl⟩ := List.head?_eq_some_iff.mp hnext
      refine (hbare h).2 path ?_
      rw [List.map_append, hplaceds.map_kind, entryKinds, List.append_assoc]
      exact List.prefix_append _ _

theorem arguments_of_chain {nodes : List Node} {ts rest : List Token}
    (h : Chain (ArgumentTaken included) nodes ts rest) :
    ∃ used arguments, ts = used ++ rest ∧ ArgumentsPlaced included arguments nodes used ∧
      PreferredArguments arguments := by
  induction h with
  | nil ts => exact ⟨[], [], rfl, ⟨rfl, rfl⟩, trivial⟩
  | @cons node nodes ts mid rest hfirst _ ih =>
      obtain ⟨first, argument, rfl, hplaced, hpreferred, hbare⟩ := hfirst
      obtain ⟨used, arguments, rfl, hplaceds, hpreferreds⟩ := ih
      refine ⟨first ++ used, argument :: arguments, by simp, ⟨node, first, nodes, used, rfl, rfl,
        hplaced, hplaceds⟩, hpreferred, hpreferreds, fun h next hnext => ?_⟩
      by_contra hparen
      obtain ⟨path, rfl⟩ := Argument.eq_parenthesized (by simpa using hparen)
      obtain ⟨arguments, rfl⟩ := List.head?_eq_some_iff.mp hnext
      refine (hbare h).2 path ?_
      rw [List.map_append, hplaceds.map_kind, argumentKinds, List.append_assoc]
      exact List.prefix_append _ _

theorem ValueTaken.suffix {node : Node} {ts rest : List Token}
    (h : ValueTaken included node ts rest) (hts : ts <:+ tokens) : rest <:+ tokens := by
  obtain ⟨used, _, rfl, -⟩ := h
  exact (List.suffix_append used rest).trans hts

theorem ArgumentTaken.suffix {node : Node} {ts rest : List Token}
    (h : ArgumentTaken included node ts rest) (hts : ts <:+ tokens) : rest <:+ tokens := by
  obtain ⟨used, _, rfl, -⟩ := h
  exact (List.suffix_append used rest).trans hts

theorem StatementTaken.suffix {node : Node} {ts rest : List Token}
    (h : StatementTaken included node ts rest) (hts : ts <:+ tokens) : rest <:+ tokens := by
  obtain ⟨used, _, rfl, -⟩ := h
  exact (List.suffix_append used rest).trans hts

theorem list_read (hvalue : ReadsValues tokens fault included halts value) (budget : Nat)
    {ts : List Token} (hts : ts <:+ tokens) :
    Triple (list value budget) fault ts (fun node rest => ValueTaken included node ts rest) True
      (Blamed tokens fault halts) := by
  refine Triple.here_at blamed_fault ?_
  rintro opening inner rfl
  refine Triple.read_on (accepts_expect rfl (by decide)) blamed_fault ?_ fun _ _ _ _ => trivial
  rintro opening' _ _ heq hopening
  obtain ⟨rfl, rfl⟩ := List.cons.inj heq
  have hitem : ∀ ts, ts <:+ tokens → Triple value fault ts (fun node rest =>
      ValueTaken included node ts rest ∧ rest <:+ tokens) True (Blamed tokens fault halts) :=
    fun ts hts => (hvalue ts hts).mono (fun _ _ h => ⟨h, h.suffix hts⟩) (fun _ => trivial)
      fun _ => id
  have hinner := (List.suffix_cons opening inner).trans hts
  refine Triple.bind ((Triple.many .exhausted hitem budget hinner).mono (fun _ _ => id)
    False.elim fun _ => id) ?_
  rintro nodes mid ⟨hchain, -, -⟩
  obtain ⟨used, values, rfl, hplaced, hpreferred⟩ := entries_of_chain hchain
  refine Triple.read_on (accepts_expect rfl (by decide)) blamed_fault ?_ fun _ _ _ _ => trivial
  rintro closing rest _ rfl hclosing
  refine Triple.pure ⟨opening :: (used ++ [closing]), .list values, by simp, ?_, hpreferred,
    fun h => nomatch h⟩
  exact ⟨opening, used, closing, nodes, rfl, kind_of_ofKind? hopening, hplaced,
    kind_of_ofKind? hclosing, rfl⟩

theorem listFor_read (hvalue : ReadsValues tokens fault included halts value)
    {ts : List Token} (hts : ts <:+ tokens) :
    Triple (listFor value) fault ts (fun node rest => ValueTaken included node ts rest) True
      (Blamed tokens fault halts) := by
  have hread : ∀ ts, ts <:+ tokens → Triple value fault ts (fun node rest =>
      ValueTaken included node ts rest) True (Blamed tokens fault halts) :=
    fun ts hts => (hvalue ts hts).mono (fun _ _ => id) (fun _ => trivial) fun _ => id
  refine Triple.here_at blamed_fault ?_
  rintro opening inner rfl
  refine Triple.read_on (accepts_expect rfl (by decide)) blamed_fault ?_ fun _ _ _ _ => trivial
  rintro opening' _ _ heq hopening
  obtain ⟨rfl, rfl⟩ := List.cons.inj heq
  have hinner := (List.suffix_cons opening inner).trans hts
  refine Triple.bind (hread inner hinner) ?_
  rintro bodyNode mid hbody
  have hmid := hbody.suffix hinner
  obtain ⟨bodyUsed, body, rfl, hbodyPlaced, hbodyPreferred, -⟩ := hbody
  refine Triple.read_on (accepts_expect rfl (by decide)) blamed_fault ?_ fun _ _ _ _ => trivial
  rintro forToken mid _ rfl hfor
  refine Triple.bind (Q := fun node rest => ∃ word element, mid = word :: rest ∧
    word.kind = .identifier element ∧ node = ⟨.binder, word.location, some element, []⟩)
    (Triple.read_on accepts_identifier blamed_fault ?_ fun _ _ _ _ => trivial) ?_
  · rintro word rest ⟨element, location⟩ rfl hname
    obtain ⟨hword, rfl⟩ := eq_of_name? hname
    exact Triple.pure ⟨word, element, rfl, hword, rfl⟩
  rintro _ mid ⟨word, element, rfl, hword, rfl⟩
  refine Triple.read_on (accepts_expect rfl (by decide)) blamed_fault ?_ fun _ _ _ _ => trivial
  rintro inToken mid _ rfl hin
  have hsourceStart : mid <:+ tokens :=
    (((List.suffix_cons inToken mid).trans (List.suffix_cons word _)).trans
      (List.suffix_cons forToken _)).trans hmid
  refine Triple.bind (hread mid hsourceStart) ?_
  rintro sourceNode rest ⟨sourceUsed, source, rfl, hsourcePlaced, hsourcePreferred, -⟩
  refine Triple.read_on (accepts_expect rfl (by decide)) blamed_fault ?_ fun _ _ _ _ => trivial
  rintro closing rest _ rfl hclosing
  refine Triple.pure ⟨opening :: (bodyUsed ++ forToken :: word :: inToken ::
    (sourceUsed ++ [closing])), .listFor body element source, by simp, ?_,
    ⟨hbodyPreferred, hsourcePreferred⟩, fun h => nomatch h⟩
  exact ⟨opening, bodyUsed, forToken, word, inToken, sourceUsed, closing, bodyNode, sourceNode, rfl,
    kind_of_ofKind? hopening, hbodyPlaced, kind_of_ofKind? hfor, hword, kind_of_ofKind? hin,
    hsourcePlaced, kind_of_ofKind? hclosing, rfl⟩

theorem argument_read (hvalue : ReadsValues tokens fault included halts value)
    {ts : List Token} (hts : ts <:+ tokens) :
    Triple (argument value) fault ts (fun node rest => ArgumentTaken included node ts rest)
      (¬ PathAhead ts) (Blamed tokens fault halts) := by
  refine Triple.orElse (?_ : Triple _ fault ts _ True _) fun _ _ =>
    Triple.orElse (?_ : Triple _ fault ts _ (¬ PathAhead ts) _) fun h _ => Triple.throw_mismatch h
  · refine Triple.read_on accepts_identifier blamed_fault ?_ fun _ _ _ _ => trivial
    rintro word ts ⟨name, location⟩ rfl hname
    obtain ⟨hword, rfl⟩ := eq_of_name? hname
    refine Triple.read_on (accepts_expect rfl (by decide)) blamed_fault ?_ fun _ _ _ _ => trivial
    rintro equals ts _ rfl hequals
    have hvalueStart : ts <:+ tokens :=
      ((List.suffix_cons equals ts).trans (List.suffix_cons word _)).trans hts
    refine Triple.bind ((hvalue ts hvalueStart).mono (fun _ _ => id) (fun _ => trivial)
      fun _ => id) ?_
    rintro node rest ⟨used, derived, rfl, hplaced, hpreferred, hbare⟩
    refine Triple.pure ⟨word :: equals :: used, .keyword name derived, rfl, ?_, hpreferred, hbare⟩
    exact ⟨word, equals, used, node, rfl, hword, kind_of_ofKind? hequals, hplaced, rfl⟩
  · refine (hvalue ts hts).mono ?_ id fun _ => id
    rintro node rest ⟨used, derived, hused, hplaced, hpreferred, hbare⟩
    exact ⟨used, .positional derived, hused, hplaced, hpreferred, hbare⟩

theorem arguments_read_path (hvalue : ReadsValues tokens fault included halts value)
    (budget : Nat) {ts : List Token} (hts : ts <:+ tokens) {inner : Path}
    (hinner : inner.kinds ++ [.parenClose] <+: ts.map Token.kind) :
    Triple (many (argument value) budget) fault ts
      (fun _ rest => NextKind (· = .parenClose) rest) False (Blamed tokens fault halts) := by
  have hnothing : ∀ budget rest, rest <:+ tokens → NextKind (· = .parenClose) rest →
      Triple (many (argument value) budget) fault rest
        (fun _ rest => NextKind (· = .parenClose) rest) False (Blamed tokens fault halts) := by
    intro budget rest hrest hclose
    cases budget with
    | zero => exact Triple.throw_exhausted .exhausted
    | succ budget =>
        refine Triple.optional_bind (argument_read hvalue hrest) ?_ fun _ => Triple.pure hclose
        rintro node rest' ⟨used, derived, hused, hplaced, -⟩
        obtain ⟨kind, kinds, hkinds, hopens, -⟩ := derived.kinds_eq_cons
        obtain ⟨closing, others, rfl, hclosing⟩ := hclose
        have hmap := congrArg (List.map Token.kind) hused
        rw [List.map_append, hplaced.map_kind, hkinds] at hmap
        obtain rfl : closing.kind = kind := (List.cons.inj hmap).1
        rw [hclosing] at hopens
        cases hopens
  cases budget with
  | zero => exact Triple.throw_exhausted .exhausted
  | succ budget =>
      refine Triple.optional_bind (argument_read hvalue hts) ?_
        fun hnone => hnone.elim ⟨inner, _, by decide, hinner⟩
      rintro node rest htaken
      have hrest := htaken.suffix hts
      obtain ⟨used, derived, rfl, hplaced, -, hbare⟩ := htaken
      obtain ⟨more, hmore⟩ := hinner
      rw [List.map_append, hplaced.map_kind, List.append_assoc] at hmore
      have hclose : rest.map Token.kind = .parenClose :: more := by
        refine Argument.append_eq_close (fun h => ?_) hmore.symm
        obtain ⟨t, others, rfl, ht⟩ := (hbare h).1
        exact ⟨t.kind, others.map Token.kind, rfl, ht⟩
      obtain ⟨closing, others, rfl, hclosing, -⟩ := List.map_eq_cons_iff.mp hclose
      have hclose : NextKind (· = .parenClose) (closing :: others) :=
        ⟨closing, others, rfl, hclosing⟩
      refine Triple.bind (hnothing budget _ hrest hclose) ?_
      rintro nodes rest' hclose'
      exact Triple.pure hclose'

theorem call_certain (hvalue : ReadsValues tokens fault included halts value) (budget : Nat)
    {ts : List Token} (hts : ts <:+ tokens) (hahead : CallAhead ts) :
    Triple (call value budget) fault ts (fun _ _ => True) False (Blamed tokens fault halts) := by
  obtain ⟨callee, inner, more, hmore⟩ := hahead
  have hkinds : callee.kinds ++ .parenOpen :: (inner.kinds ++ .parenClose :: more) =
      ts.map Token.kind := by
    simpa [Value.kinds] using hmore
  refine Triple.here_at blamed_fault fun _ _ _ => ?_
  refine Triple.bind ((object_read budget ts).mono (fun _ _ => id) (fun hnone => ?_)
    fun _ => id) ?_
  · refine hnone ⟨callee, .parenOpen, by decide, ?_⟩
    rw [← hkinds]
    exact ⟨inner.kinds ++ .parenClose :: more, by simp⟩
  rintro object mid ⟨used, path, rfl, hplaced, t, others, rfl, ht⟩
  rw [List.map_append, hplaced.map_kind, List.map_cons] at hkinds
  obtain ⟨-, hopening, hinner⟩ := Path.kinds_append_cons_inj (by decide) ht hkinds
  refine Triple.read_on (accepts_expect rfl (by decide)) blamed_fault ?_ ?_
  · rintro opening rest _ heq -
    obtain ⟨rfl, rfl⟩ := List.cons.inj heq
    have hrest : others <:+ tokens :=
      ((List.suffix_cons t others).trans (List.suffix_append used _)).trans hts
    have hinside : inner.kinds ++ [.parenClose] <+: others.map Token.kind :=
      ⟨more, by rw [← hinner]; simp⟩
    refine Triple.bind (arguments_read_path hvalue budget hrest hinside) ?_
    rintro nodes _ ⟨closing, rest, rfl, hclosing⟩
    refine Triple.read_on (accepts_expect rfl (by decide)) blamed_fault
      (fun _ _ _ _ _ => Triple.pure trivial) ?_
    rintro closing' rest' heq hnone
    obtain ⟨rfl, -⟩ := List.cons.inj heq
    rw [ofKind?_of_eq hclosing] at hnone
    cases hnone
  · rintro opening rest heq hnone
    obtain ⟨rfl, -⟩ := List.cons.inj heq
    rw [ofKind?_of_eq hopening.symm] at hnone
    cases hnone

/-- A call that is read. Whether it might be an inclusion is not looked at. -/
def CallTaken (included : String → Location → Node → Prop) (node : Node) (ts rest : List Token) :
    Prop :=
  ∃ used callee arguments, ts = used ++ rest ∧
    (Value.call callee arguments).Placed included node used ∧ PreferredArguments arguments

theorem call_read (hvalue : ReadsValues tokens fault included halts value) (budget : Nat)
    {ts : List Token} (hts : ts <:+ tokens) :
    Triple (call value budget) fault ts (fun node rest => CallTaken included node ts rest)
      (¬ CallAhead ts) (Blamed tokens fault halts) := by
  have hread : Triple (call value budget) fault ts
      (fun node rest => CallTaken included node ts rest) True (Blamed tokens fault halts) := by
    refine Triple.here_at blamed_fault ?_
    rintro first others hfirst
    refine Triple.bind ((object_read budget ts).mono (fun _ _ => id) (fun _ => trivial)
      fun _ => id) ?_
    rintro object mid ⟨used, callee, rfl, hcallee, -⟩
    refine Triple.read_on (accepts_expect rfl (by decide)) blamed_fault ?_ fun _ _ _ _ => trivial
    rintro opening mid _ rfl hopening
    have hmid : mid <:+ tokens :=
      ((List.suffix_cons opening mid).trans (List.suffix_append used _)).trans hts
    have hitem : ∀ ts, ts <:+ tokens → Triple (argument value) fault ts (fun node rest =>
        ArgumentTaken included node ts rest ∧ rest <:+ tokens) True (Blamed tokens fault halts) :=
      fun ts hts => (argument_read hvalue hts).mono (fun _ _ h => ⟨h, h.suffix hts⟩)
        (fun _ => trivial) fun _ => id
    refine Triple.bind ((Triple.many .exhausted hitem budget hmid).mono (fun _ _ => id) False.elim
      fun _ => id) ?_
    rintro nodes rest ⟨hchain, -, -⟩
    obtain ⟨inner, arguments, rfl, harguments, hpreferred⟩ := arguments_of_chain hchain
    refine Triple.read_on (accepts_expect rfl (by decide)) blamed_fault ?_ fun _ _ _ _ => trivial
    rintro closing rest _ rfl hclosing
    refine Triple.pure ⟨used ++ opening :: (inner ++ [closing]), callee, arguments, by simp, ?_,
      hpreferred⟩
    refine ⟨used, opening, inner, closing, object, nodes, rfl, hcallee, kind_of_ofKind? hopening,
      harguments, kind_of_ofKind? hclosing, first, ?_, rfl⟩
    obtain ⟨word, names, rfl, -⟩ := hcallee
    simpa using (List.cons.inj hfirst).1
  by_cases hahead : CallAhead ts
  · exact (hread.and (call_certain hvalue budget hts hahead)).mono (fun _ _ h => h.1)
      (fun h => h.2.elim) fun _ h => h.1
  · exact hread.mono (fun _ _ => id) (fun _ => hahead) fun _ => id

theorem value_read (hsplice : SplicesAs fault included halts splice) (budget : Nat) :
    ReadsValues tokens fault included halts (Grammar.value splice budget) := by
  induction budget with
  | zero => exact fun ts _ => Triple.throw_exhausted .exhausted
  | succ budget ih =>
      intro ts hts
      refine Triple.orElse (inclusion_read hsplice hts) fun hinclusion _ => ?_
      refine Triple.orElse (?_ : Triple _ fault ts _ (¬ CallAhead ts) _) fun hcall _ => ?_
      · refine (call_read ih (budget + 1) hts).mono ?_ id fun _ => id
        rintro node rest ⟨used, callee, arguments, rfl, hplaced, hpreferred⟩
        refine ⟨used, .call callee arguments, rfl, hplaced, ⟨?_, hpreferred⟩, fun h => nomatch h⟩
        cases hspecifier : inclusion? (callKinds callee arguments) with
        | none => rfl
        | some specifier =>
            refine absurd ⟨specifier, ?_⟩ hinclusion
            have hkinds : used.map Token.kind = callKinds callee arguments := hplaced.map_kind
            rw [List.map_append, hkinds, inclusion?_eq_some hspecifier]
            exact List.prefix_append _ _
      refine Triple.orElse (?_ : Triple _ fault ts _ (¬ PathAhead ts) _) fun hpath _ => ?_
      · refine (object_read (budget + 1) ts).mono ?_ id fun _ => id
        rintro node rest ⟨used, path, rfl, hplaced, hrest⟩
        refine ⟨used, .object path, rfl, hplaced, trivial, fun _ => ⟨hrest, fun inner hinner => ?_⟩⟩
        refine hcall ⟨path, inner, ?_⟩
        rw [List.map_append, hplaced.map_kind]
        exact List.prefix_append_right_inj path.kinds |>.mpr hinner
      refine Triple.mono (Triple.firstOf_all (?_ : ∀ q ∈ _, Triple q fault ts _ True _))
        (fun _ _ => id) (fun _ => hpath) fun _ => id
      intro q hq
      simp only [List.mem_cons, List.not_mem_nil, or_false] at hq
      rcases hq with rfl | rfl | rfl | rfl
      · exact parenthesized_read (budget + 1) ts
      · exact list_read ih (budget + 1) hts
      · exact listFor_read ih hts
      · exact stringLiteral_read ts

theorem statement_read (hvalue : ReadsValues tokens fault included halts value) (budget : Nat)
    {ts : List Token} (hts : ts <:+ tokens) :
    Triple (statement value budget) fault ts
      (fun node rest => StatementTaken included node ts rest) True (Blamed tokens fault halts) := by
  refine Triple.firstOf_all ?_
  intro q hq
  simp only [List.mem_cons, List.not_mem_nil, or_false] at hq
  rcases hq with rfl | rfl
  · refine Triple.here_at blamed_fault ?_
    rintro word ts rfl
    refine Triple.bind (Q := fun node rest => rest = ts ∧ ∃ target,
      word.kind = .identifier target ∧ node = ⟨.binder, word.location, some target, []⟩)
      (Triple.read_on accepts_identifier blamed_fault ?_ fun _ _ _ _ => trivial) ?_
    · rintro word' rest ⟨target, location⟩ heq hname
      obtain ⟨rfl, rfl⟩ := List.cons.inj heq
      obtain ⟨hword, rfl⟩ := eq_of_name? hname
      exact Triple.pure ⟨rfl, target, hword, rfl⟩
    rintro _ _ ⟨rfl, target, hword, rfl⟩
    refine Triple.read_on (accepts_expect rfl (by decide)) blamed_fault ?_ fun _ _ _ _ => trivial
    rintro equals ts _ rfl hequals
    have hvalueStart : ts <:+ tokens :=
      ((List.suffix_cons equals ts).trans (List.suffix_cons word _)).trans hts
    refine Triple.bind ((hvalue ts hvalueStart).mono (fun _ _ => id) (fun _ => trivial)
      fun _ => id) ?_
    rintro node rest ⟨used, derived, rfl, hplaced, hpreferred, -⟩
    refine Triple.pure ⟨word :: equals :: used, .assignment target derived, rfl, ?_, hpreferred⟩
    exact ⟨word, equals, used, node, rfl, hword, kind_of_ofKind? hequals, hplaced, rfl⟩
  · refine (call_read hvalue budget hts).mono ?_ (fun _ => trivial) fun _ => id
    rintro node rest ⟨used, callee, arguments, rfl, hplaced, hpreferred⟩
    exact ⟨used, .call callee arguments, rfl, hplaced, hpreferred⟩

theorem statements_of_chain {nodes : List Node} {ts rest : List Token}
    (h : Chain (StatementTaken included) nodes ts rest) :
    ∃ used statements, ts = used ++ rest ∧ StatementsPlaced included statements nodes used ∧
      ∀ statement ∈ statements, statement.Preferred := by
  induction h with
  | nil ts => exact ⟨[], [], rfl, ⟨rfl, rfl⟩, by simp⟩
  | @cons node nodes ts mid rest hfirst _ ih =>
      obtain ⟨first, statement, rfl, hplaced, hpreferred⟩ := hfirst
      obtain ⟨used, statements, rfl, hplaceds, hpreferreds⟩ := ih
      exact ⟨first ++ used, statement :: statements, by simp,
        ⟨node, first, nodes, used, rfl, rfl, hplaced, hplaceds⟩,
        List.forall_mem_cons.mpr ⟨hpreferred, hpreferreds⟩⟩

/-- The statements of a program are read up to where none matches. -/
theorem statements_read (hvalue : ReadsValues tokens fault included halts value)
    (budget count : Nat) {ts : List Token} (hts : ts <:+ tokens) :
    Triple (many (statement value budget) count) fault ts
      (fun nodes rest => ∃ used statements, ts = used ++ rest ∧
        StatementsPlaced included statements nodes used ∧
        ∀ statement ∈ statements, statement.Preferred)
      False (Blamed tokens fault halts) := by
  have hitem : ∀ ts, ts <:+ tokens → Triple (statement value budget) fault ts (fun node rest =>
      StatementTaken included node ts rest ∧ rest <:+ tokens) True (Blamed tokens fault halts) :=
    fun ts hts => (statement_read hvalue budget hts).mono (fun _ _ h => ⟨h, h.suffix hts⟩) id
      fun _ => id
  exact (Triple.many .exhausted hitem count hts).mono
    (fun _ _ h => statements_of_chain h.1) id fun _ => id

end Values

end BuildScript.Grammar
