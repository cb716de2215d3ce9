import BuildScript.Proofs.Acceptance
import BuildScript.Proofs.Arity

namespace BuildScript

open BuildScript.Derivation Node

def Named (kinds : List TokenKind) : Prop := ∀ name, .identifier name ∈ kinds → IsName name

theorem Named.mono {kinds kinds' : List TokenKind} (h : Named kinds) (hsub : kinds' ⊆ kinds) :
    Named kinds' :=
  fun name hname => h name (hsub hname)

namespace Derivation

theorem AttributesHaveTree.wellShaped {names : List String} {owner node : Node}
    (hnames : Named (attributeKinds names)) (howner : owner.WellShaped)
    (hkind : owner.kind = .object)
    (h : AttributesHaveTree owner names node) : node.WellShaped ∧ node.kind = .object := by
  induction names generalizing owner with
  | nil =>
      obtain rfl : node = owner := h
      exact ⟨howner, hkind⟩
  | cons name names ih =>
      obtain ⟨location, h⟩ := h
      have hname : IsName name := hnames name (by simp [attributeKinds])
      have howner' : WellShaped ⟨.object, location, some name, [owner]⟩ :=
        ⟨⟨⟨name, rfl, hname⟩, .inr ⟨owner, rfl, hkind⟩⟩, howner, trivial⟩
      refine ih (hnames.mono ?_) howner' rfl h
      simp [attributeKinds]

theorem Path.HasTree.wellShaped {path : Path} {node : Node} (hnames : Named path.kinds)
    (h : path.HasTree node) : node.WellShaped ∧ node.kind = .object := by
  obtain ⟨location, h⟩ := h
  have hname : IsName path.name := hnames path.name (by simp [Path.kinds])
  refine AttributesHaveTree.wellShaped (hnames.mono ?_) ?_ rfl h
  · simp [Path.kinds]
  · exact ⟨⟨⟨path.name, rfl, hname⟩, .inl rfl⟩, trivial⟩

variable {included : String → Node → Prop}

theorem call_wellShaped {callee : Path} {arguments : List Argument} {location : Location}
    {object : Node} {nodes : List Node} (hnames : Named (callKinds callee arguments))
    (hcallee : callee.HasTree object)
    (harguments : Named (argumentKinds arguments) →
      WellShapedAll nodes ∧ ∀ node ∈ nodes, node.kind = .keyword ∨ node.kind.isValue = true) :
    WellShaped ⟨.call, location, none, object :: nodes⟩ := by
  have hobject := hcallee.wellShaped (hnames.mono (by simp [callKinds]))
  have hnodes := harguments (hnames.mono (by
    intro kind hkind
    simp [callKinds, hkind]))
  exact ⟨⟨object, nodes, rfl, hobject.2, hnodes.2⟩, hobject.1, hnodes.1⟩

mutual

theorem Value.HasTree.wellShaped
    (hincluded : ∀ s tree, included s tree → tree.WellShaped ∧ tree.kind = .program) :
    ∀ {value : Value} {node : Node}, Named value.kinds → value.HasTree included node →
      node.WellShaped ∧ node.kind.isValue = true
  | .inclusion specifier, node, _, h => by
      obtain ⟨hshape, hkind⟩ := hincluded specifier node h
      exact ⟨hshape, by rw [hkind]; rfl⟩
  | .call _ _, _, hnames, ⟨_, _, _, hnode, hcallee, harguments⟩ => by
      subst hnode
      exact ⟨call_wellShaped hnames hcallee fun hnames => harguments.wellShaped hincluded hnames,
        rfl⟩
  | .object path, node, hnames, h => by
      obtain ⟨hshape, hkind⟩ := Path.HasTree.wellShaped hnames h
      exact ⟨hshape, by rw [hkind]; rfl⟩
  | .parenthesized path, node, hnames, h => by
      have hpath : Named path.kinds := hnames.mono fun kind hkind => by simp [Value.kinds, hkind]
      obtain ⟨hshape, hkind⟩ := Path.HasTree.wellShaped hpath h
      exact ⟨hshape, by rw [hkind]; rfl⟩
  | .list entries, _, hnames, ⟨_, _, hnode, hentries⟩ => by
      subst hnode
      obtain ⟨hshapes, hkinds⟩ := hentries.wellShaped hincluded
        (hnames.mono fun kind hkind => by simp [Value.kinds, hkind])
      exact ⟨⟨hkinds, hshapes⟩, rfl⟩
  | .listFor body element source, _, hnames, ⟨_, _, _, _, hnode, hbody, hsource⟩ => by
      subst hnode
      have helement : IsName element := hnames element (by simp [Value.kinds])
      obtain ⟨hbodyShape, hbodyKind⟩ := hbody.wellShaped hincluded
        (hnames.mono fun kind hkind => by simp [Value.kinds, hkind])
      obtain ⟨hsourceShape, hsourceKind⟩ := hsource.wellShaped hincluded
        (hnames.mono fun kind hkind => by simp [Value.kinds, hkind])
      have hbinder : ∀ place, WellShaped ⟨.binder, place, some element, []⟩ :=
        fun place => ⟨⟨⟨element, rfl, helement⟩, rfl⟩, trivial⟩
      exact ⟨⟨⟨_, _, _, rfl, hbodyKind, rfl, hsourceKind⟩, hbodyShape, hbinder _, hsourceShape,
        trivial⟩, rfl⟩
  | .string _, _, _, ⟨_, hnode⟩ => by
      subst hnode
      exact ⟨⟨rfl, trivial⟩, rfl⟩

theorem EntriesHaveTrees.wellShaped
    (hincluded : ∀ s tree, included s tree → tree.WellShaped ∧ tree.kind = .program) :
    ∀ {values : List Value} {nodes : List Node}, Named (entryKinds values) →
      EntriesHaveTrees included values nodes →
      WellShapedAll nodes ∧ ∀ node ∈ nodes, node.kind.isValue = true
  | [], _, _, hnodes => by
      subst hnodes
      exact ⟨trivial, by simp⟩
  | _ :: _, _, hnames, ⟨_, _, hnodes, hvalue, hvalues⟩ => by
      subst hnodes
      obtain ⟨hshape, hkind⟩ := hvalue.wellShaped hincluded
        (hnames.mono fun kind hkind => by simp [entryKinds, hkind])
      obtain ⟨hshapes, hkinds⟩ := hvalues.wellShaped hincluded
        (hnames.mono fun kind hkind => by simp [entryKinds, hkind])
      exact ⟨⟨hshape, hshapes⟩, List.forall_mem_cons.mpr ⟨hkind, hkinds⟩⟩

theorem Argument.HasTree.wellShaped
    (hincluded : ∀ s tree, included s tree → tree.WellShaped ∧ tree.kind = .program) :
    ∀ {argument : Argument} {node : Node}, Named argument.kinds →
      argument.HasTree included node →
      node.WellShaped ∧ (node.kind = .keyword ∨ node.kind.isValue = true)
  | .keyword name value, _, hnames, ⟨_, _, hnode, hvalue⟩ => by
      subst hnode
      have hname : IsName name := hnames name (by simp [Argument.kinds])
      obtain ⟨hshape, hkind⟩ := hvalue.wellShaped hincluded
        (hnames.mono fun kind hkind => by simp [Argument.kinds, hkind])
      exact ⟨⟨⟨⟨name, rfl, hname⟩, _, rfl, hkind⟩, hshape, trivial⟩, .inl rfl⟩
  | .positional value, node, hnames, h => by
      obtain ⟨hshape, hkind⟩ := Value.HasTree.wellShaped hincluded
        (show Named value.kinds from hnames) (show value.HasTree included node from h)
      exact ⟨hshape, .inr hkind⟩

theorem ArgumentsHaveTrees.wellShaped
    (hincluded : ∀ s tree, included s tree → tree.WellShaped ∧ tree.kind = .program) :
    ∀ {arguments : List Argument} {nodes : List Node}, ArgumentsHaveTrees included arguments nodes →
      Named (argumentKinds arguments) →
      WellShapedAll nodes ∧ ∀ node ∈ nodes, node.kind = .keyword ∨ node.kind.isValue = true
  | [], _, hnodes, _ => by
      subst hnodes
      exact ⟨trivial, by simp⟩
  | _ :: _, _, ⟨_, _, hnodes, hargument, harguments⟩, hnames => by
      subst hnodes
      obtain ⟨hshape, hkind⟩ := hargument.wellShaped hincluded
        (hnames.mono fun kind hkind => by simp [argumentKinds, hkind])
      obtain ⟨hshapes, hkinds⟩ := harguments.wellShaped hincluded
        (hnames.mono fun kind hkind => by simp [argumentKinds, hkind])
      exact ⟨⟨hshape, hshapes⟩, List.forall_mem_cons.mpr ⟨hkind, hkinds⟩⟩

end

theorem Statement.HasTree.wellShaped
    (hincluded : ∀ s tree, included s tree → tree.WellShaped ∧ tree.kind = .program)
    {statement : Statement} {node : Node} (hnames : Named statement.kinds)
    (h : statement.HasTree included node) :
    node.WellShaped ∧ (node.kind = .assignment ∨ node.kind = .call) := by
  cases statement with
  | assignment target value =>
      obtain ⟨_, place, valueNode, rfl, hvalue⟩ := h
      have htarget : IsName target := hnames target (by simp [Statement.kinds])
      obtain ⟨hshape, hkind⟩ := hvalue.wellShaped hincluded
        (hnames.mono fun kind hkind => by simp [Statement.kinds, hkind])
      have hbinder : WellShaped ⟨.binder, place, some target, []⟩ :=
        ⟨⟨⟨target, rfl, htarget⟩, rfl⟩, trivial⟩
      exact ⟨⟨⟨_, _, rfl, rfl, hkind⟩, hbinder, hshape, trivial⟩, .inl rfl⟩
  | call callee arguments =>
      obtain ⟨_, _, _, rfl, hcallee, harguments⟩ := h
      exact ⟨call_wellShaped hnames hcallee fun hnames => harguments.wellShaped hincluded hnames,
        .inr rfl⟩

theorem ProgramHasTree.wellShaped
    (hincluded : ∀ s tree, included s tree → tree.WellShaped ∧ tree.kind = .program)
    {statements : List Statement} {node : Node} (hnames : Named (statementKinds statements))
    (h : ProgramHasTree included statements node) : node.WellShaped ∧ node.kind = .program := by
  obtain ⟨location, nodes, rfl, htrees⟩ := h
  have hnodes : ∀ tree ∈ nodes,
      tree.WellShaped ∧ (tree.kind = .assignment ∨ tree.kind = .call) := by
    induction htrees with
    | nil => simp
    | cons hfirst _ ih =>
        rw [statementKinds_cons] at hnames
        refine List.forall_mem_cons.mpr ⟨?_, ih (hnames.mono (List.subset_append_right _ _))⟩
        exact hfirst.wellShaped hincluded (hnames.mono (List.subset_append_left _ _))
  exact ⟨⟨⟨rfl, fun tree htree => (hnodes tree htree).2⟩,
    wellShapedAll_iff.mpr fun tree htree => (hnodes tree htree).1⟩, rfl⟩

end Derivation

theorem named_of_derives {source : Source} {statements : List Statement}
    (h : Derives source statements) : Named (statementKinds statements) := by
  obtain ⟨tokens, htokens, hkinds⟩ := h
  intro name hname
  have hmem : .identifier name ∈ tokens.map Token.kind := by
    rw [← hkinds]
    exact List.mem_append_left _ hname
  obtain ⟨token, htoken, hkind⟩ := List.mem_map.mp hmem
  exact Source.isName_of_tokenize htokens htoken hkind

/-- Whatever is loaded is a well-shaped program. -/
theorem load_wellShaped {resolve : String → Resolution} {depth : Nat} {source : Source}
    {node : Node} {journal journal' : Journal}
    (h : load resolve depth source journal = .ok node journal') :
    node.WellShaped ∧ node.kind = .program := by
  induction depth generalizing source node journal journal' with
  | zero => cases h
  | succ depth ih =>
      obtain ⟨statements, hderives, -, htree, -⟩ := exists_preferred_of_load h
      refine htree.wellShaped ?_ (named_of_derives hderives)
      rintro s tree ⟨found, before, after, -, hload⟩
      exact ih hload

end BuildScript
