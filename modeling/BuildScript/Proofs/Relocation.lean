import BuildScript.Proofs.Acceptance

namespace BuildScript

namespace Node

mutual

/-- The same tree, wherever the nodes are located. -/
def Matches : Node → Node → Prop
  | ⟨kind, _, text?, children⟩, ⟨kind', _, text?', children'⟩ =>
      kind = kind' ∧ text? = text?' ∧ MatchesAll children children'

def MatchesAll : List Node → List Node → Prop
  | [], [] => True
  | m :: ms, n :: ns => m.Matches n ∧ MatchesAll ms ns
  | _, _ => False

end

mutual

def decidableMatches : (m n : Node) → Decidable (m.Matches n)
  | ⟨kind, _, text?, children⟩, ⟨kind', _, text?', children'⟩ =>
      haveI := decidableMatchesAll children children'
      inferInstanceAs (Decidable (kind = kind' ∧ text? = text?' ∧ MatchesAll children children'))

def decidableMatchesAll : (ms ns : List Node) → Decidable (MatchesAll ms ns)
  | [], [] => .isTrue trivial
  | m :: ms, n :: ns =>
      haveI := decidableMatches m n
      haveI := decidableMatchesAll ms ns
      inferInstanceAs (Decidable (m.Matches n ∧ MatchesAll ms ns))
  | [], _ :: _ => .isFalse id
  | _ :: _, [] => .isFalse id

end

instance : DecidableRel Matches := decidableMatches

instance : DecidableRel MatchesAll := decidableMatchesAll

mutual

theorem Matches.refl : ∀ n : Node, n.Matches n
  | ⟨_, _, _, children⟩ => ⟨rfl, rfl, MatchesAll.refl children⟩

theorem MatchesAll.refl : ∀ ns : List Node, MatchesAll ns ns
  | [] => trivial
  | n :: ns => ⟨Matches.refl n, MatchesAll.refl ns⟩

end

mutual

theorem Matches.symm : ∀ {m n : Node}, m.Matches n → n.Matches m
  | ⟨_, _, _, _⟩, ⟨_, _, _, _⟩, ⟨hkind, htext, hchildren⟩ =>
      ⟨hkind.symm, htext.symm, MatchesAll.symm hchildren⟩

theorem MatchesAll.symm : ∀ {ms ns : List Node}, MatchesAll ms ns → MatchesAll ns ms
  | [], [], _ => trivial
  | _ :: _, _ :: _, ⟨hfirst, hothers⟩ => ⟨Matches.symm hfirst, MatchesAll.symm hothers⟩

end

theorem matchesAll_iff {ms ns : List Node} : MatchesAll ms ns ↔ List.Forall₂ Matches ms ns := by
  induction ms generalizing ns with
  | nil =>
      cases ns with
      | nil => simp [MatchesAll]
      | cons n ns => simp [MatchesAll]
  | cons m ms ih =>
      cases ns with
      | nil => simp [MatchesAll]
      | cons n ns => simp [MatchesAll, ih]

theorem MatchesAll.exists_left {ms ns : List Node} (h : MatchesAll ms ns) :
    ∀ n ∈ ns, ∃ m ∈ ms, m.Matches n := by
  induction matchesAll_iff.mp h with
  | nil => exact fun _ hn => by cases hn
  | cons hfirst hothers ih =>
      refine List.forall_mem_cons.mpr ⟨⟨_, List.mem_cons_self, hfirst⟩, fun n hn => ?_⟩
      obtain ⟨m, hm, hmatches⟩ := ih (matchesAll_iff.mpr hothers) n hn
      exact ⟨m, List.mem_cons_of_mem _ hm, hmatches⟩

theorem Matches.text_eq {m n : Node} (h : m.Matches n) : m.text = n.text := by
  rcases m with ⟨_, _, _, _⟩
  rcases n with ⟨_, _, _, _⟩
  rw [Node.text, Node.text, h.2.1]

end Node

namespace Derivation

open Node

variable {included included' : String → Node → Prop}

theorem AttributesHaveTree.matches {names : List String} {owner owner' node node' : Node}
    (howner : owner.Matches owner') (h : AttributesHaveTree owner names node)
    (h' : AttributesHaveTree owner' names node') : node.Matches node' := by
  induction names generalizing owner owner' with
  | nil =>
      obtain rfl : node = owner := h
      obtain rfl : node' = owner' := h'
      exact howner
  | cons name names ih =>
      obtain ⟨location, h⟩ := h
      obtain ⟨location', h'⟩ := h'
      refine ih ?_ h h'
      exact ⟨rfl, rfl, howner, trivial⟩

theorem Path.HasTree.matches {path : Path} {node node' : Node} (h : path.HasTree node)
    (h' : path.HasTree node') : node.Matches node' := by
  obtain ⟨location, h⟩ := h
  obtain ⟨location', h'⟩ := h'
  refine AttributesHaveTree.matches ?_ h h'
  exact ⟨rfl, rfl, trivial⟩

mutual

/-- A derivation of a value has one tree, if each specifier has one. -/
theorem Value.HasTree.matches
    (hincluded : ∀ s m n, included s m → included' s n → m.Matches n) :
    ∀ {value : Value} {node node' : Node}, value.HasTree included node →
      value.HasTree included' node' → node.Matches node'
  | .inclusion specifier, node, node', h, h' => hincluded specifier node node' h h'
  | .call _ _, _, _, ⟨_, _, _, hnode, hcallee, harguments⟩,
      ⟨_, _, _, hnode', hcallee', harguments'⟩ => by
      subst hnode hnode'
      exact ⟨rfl, rfl, hcallee.matches hcallee', harguments.matches hincluded harguments'⟩
  | .object _, _, _, h, h' => Path.HasTree.matches h h'
  | .parenthesized _, _, _, h, h' => Path.HasTree.matches h h'
  | .list _, _, _, ⟨_, _, hnode, hentries⟩, ⟨_, _, hnode', hentries'⟩ => by
      subst hnode hnode'
      exact ⟨rfl, rfl, hentries.matches hincluded hentries'⟩
  | .listFor _ _ _, _, _, ⟨_, _, _, _, hnode, hbody, hsource⟩,
      ⟨_, _, _, _, hnode', hbody', hsource'⟩ => by
      subst hnode hnode'
      exact ⟨rfl, rfl, hbody.matches hincluded hbody', ⟨rfl, rfl, trivial⟩,
        hsource.matches hincluded hsource', trivial⟩
  | .string _, _, _, ⟨_, hnode⟩, ⟨_, hnode'⟩ => by
      subst hnode hnode'
      exact ⟨rfl, rfl, trivial⟩

theorem EntriesHaveTrees.matches
    (hincluded : ∀ s m n, included s m → included' s n → m.Matches n) :
    ∀ {values : List Value} {nodes nodes' : List Node}, EntriesHaveTrees included values nodes →
      EntriesHaveTrees included' values nodes' → MatchesAll nodes nodes'
  | [], _, _, h, h' => by
      subst h h'
      trivial
  | _ :: _, _, _, ⟨_, _, hnodes, hvalue, hvalues⟩, ⟨_, _, hnodes', hvalue', hvalues'⟩ => by
      subst hnodes hnodes'
      exact ⟨hvalue.matches hincluded hvalue', hvalues.matches hincluded hvalues'⟩

theorem Argument.HasTree.matches
    (hincluded : ∀ s m n, included s m → included' s n → m.Matches n) :
    ∀ {argument : Argument} {node node' : Node}, argument.HasTree included node →
      argument.HasTree included' node' → node.Matches node'
  | .keyword _ _, _, _, ⟨_, _, hnode, hvalue⟩, ⟨_, _, hnode', hvalue'⟩ => by
      subst hnode hnode'
      exact ⟨rfl, rfl, hvalue.matches hincluded hvalue', trivial⟩
  | .positional value, node, node', h, h' =>
      Value.HasTree.matches hincluded (show value.HasTree included node from h)
        (show value.HasTree included' node' from h')

theorem ArgumentsHaveTrees.matches
    (hincluded : ∀ s m n, included s m → included' s n → m.Matches n) :
    ∀ {arguments : List Argument} {nodes nodes' : List Node},
      ArgumentsHaveTrees included arguments nodes →
      ArgumentsHaveTrees included' arguments nodes' → MatchesAll nodes nodes'
  | [], _, _, h, h' => by
      subst h h'
      trivial
  | _ :: _, _, _, ⟨_, _, hnodes, hargument, harguments⟩,
      ⟨_, _, hnodes', hargument', harguments'⟩ => by
      subst hnodes hnodes'
      exact ⟨hargument.matches hincluded hargument', harguments.matches hincluded harguments'⟩

end

theorem Statement.HasTree.matches
    (hincluded : ∀ s m n, included s m → included' s n → m.Matches n) {statement : Statement}
    {node node' : Node} (h : statement.HasTree included node)
    (h' : statement.HasTree included' node') : node.Matches node' := by
  cases statement with
  | assignment target value =>
      obtain ⟨_, _, _, rfl, hvalue⟩ := h
      obtain ⟨_, _, _, rfl, hvalue'⟩ := h'
      exact ⟨rfl, rfl, ⟨rfl, rfl, trivial⟩, hvalue.matches hincluded hvalue', trivial⟩
  | call callee arguments =>
      obtain ⟨_, _, _, rfl, hcallee, harguments⟩ := h
      obtain ⟨_, _, _, rfl, hcallee', harguments'⟩ := h'
      exact ⟨rfl, rfl, hcallee.matches hcallee', harguments.matches hincluded harguments'⟩

theorem statementTrees_match
    (hincluded : ∀ s m n, included s m → included' s n → m.Matches n)
    {statements : List Statement} {nodes nodes' : List Node}
    (h : List.Forall₂ (Statement.HasTree included) statements nodes)
    (h' : List.Forall₂ (Statement.HasTree included') statements nodes') :
    MatchesAll nodes nodes' := by
  induction h generalizing nodes' with
  | nil =>
      cases h'
      trivial
  | cons hfirst _ ih =>
      cases h' with
      | cons hfirst' hothers' => exact ⟨hfirst.matches hincluded hfirst', ih hothers'⟩

end Derivation

open BuildScript.Derivation

variable {resolve : String → Resolution} {source : Source}

/-- Loading follows the derivation it followed once at any other depth. -/
theorem load_of_derivation {depth : Nat} {statements : List Statement}
    (hderives : Derives source statements)
    (hpreferred : ∀ statement ∈ statements, statement.Preferred)
    (havailable : ∀ s ∈ programSpecifiers statements, Available resolve (load resolve depth) s)
    (journal : Journal) :
    ∃ node journal', load resolve (depth + 1) source journal = .ok node journal' ∧
      ProgramHasTree (Included resolve (load resolve depth)) statements node := by
  rcases load_preferred (load_steady resolve depth) hderives hpreferred journal with
    ⟨node, journal', hok, htree, -⟩ | ⟨-, -, -, hbad⟩
  · exact ⟨node, journal', hok, htree⟩
  · exact absurd havailable hbad

theorem load_mono {depth depth' : Nat} {node : Node} {journal journal' : Journal}
    (h : load resolve depth source journal = .ok node journal') (hdepth : depth ≤ depth')
    (other : Journal) :
    ∃ node' other', load resolve depth' source other = .ok node' other' := by
  induction depth generalizing depth' source node journal journal' other with
  | zero => cases h
  | succ depth ih =>
      obtain ⟨depth', rfl⟩ := Nat.exists_eq_succ_of_ne_zero (Nat.ne_zero_of_lt hdepth)
      obtain ⟨statements, hderives, hpreferred, -, havailable⟩ := exists_preferred_of_load h
      have havailable' : ∀ s ∈ programSpecifiers statements,
          Available resolve (load resolve depth') s := by
        intro s hs
        obtain ⟨found, hfound, hok⟩ := havailable s hs
        obtain ⟨tree, journal'', hload⟩ := hok {}
        exact ⟨found, hfound, fun other => ih hload (Nat.le_of_succ_le_succ hdepth) other⟩
      obtain ⟨node', other', hok, -⟩ :=
        load_of_derivation hderives hpreferred havailable' other
      exact ⟨node', other', hok⟩

/-- A source is loaded as one tree. -/
theorem load_matches {depth depth' : Nat} {node node' : Node}
    {journal journal' other other' : Journal}
    (h : load resolve depth source journal = .ok node journal')
    (h' : load resolve depth' source other = .ok node' other') : node.Matches node' := by
  induction depth generalizing depth' source node node' journal journal' other other' with
  | zero => cases h
  | succ depth ih =>
      cases depth' with
      | zero => cases h'
      | succ depth' =>
          obtain ⟨statements, hderives, hpreferred, ⟨_, nodes, rfl, htrees⟩, -⟩ :=
            exists_preferred_of_load h
          rcases load_preferred (load_steady resolve depth') hderives hpreferred other with
            ⟨tree, _, hok, ⟨_, nodes', rfl, htrees'⟩, -⟩ | ⟨_, _, herror, -⟩
          · rw [h'] at hok
            cases hok
            refine ⟨rfl, rfl, statementTrees_match ?_ htrees htrees'⟩
            rintro s m n ⟨found, _, _, hfound, hload⟩ ⟨found', _, _, hfound', hload'⟩
            rw [hfound] at hfound'
            cases hfound'
            exact ih hload hload'
          · rw [h'] at herror
            cases herror

end BuildScript
