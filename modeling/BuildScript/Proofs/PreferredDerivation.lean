import BuildScript.Proofs.Derivation

/-!
Of all derivation trees with one yield, the ordered alternatives of the
grammar prefer one: `import ( STRING )` is an inclusion before it is a call,
and an object that parentheses follow is the callee of a call.

The main statement is that every tree can be turned into a preferred one with
the same yield and the same specifiers.
-/

namespace BuildScript.Derivation

/-- An object on its own, which the tokens after it might continue. -/
def Value.isBare : Value → Bool
  | .object _ => true
  | _ => false

def Argument.isBare : Argument → Bool
  | .keyword _ value => value.isBare
  | .positional value => value.isBare

mutual

/-- The trees that trying alternatives in order arrives at. -/
def Value.Preferred : Value → Prop
  | .inclusion _ => True
  | .call callee arguments =>
      inclusion? (callKinds callee arguments) = none ∧ PreferredArguments arguments
  | .object _ => True
  | .parenthesized _ => True
  | .list entries => PreferredEntries entries
  | .listFor body _ source => body.Preferred ∧ source.Preferred
  | .string _ => True

def PreferredEntries : List Value → Prop
  | [] => True
  | value :: values =>
      value.Preferred ∧ PreferredEntries values ∧
        (value.isBare = true → ∀ next ∈ values.head?, next.isParenthesized = false)

def Argument.Preferred : Argument → Prop
  | .keyword _ value => value.Preferred
  | .positional value => value.Preferred

def PreferredArguments : List Argument → Prop
  | [] => True
  | argument :: arguments =>
      argument.Preferred ∧ PreferredArguments arguments ∧
        (argument.isBare = true → ∀ next ∈ arguments.head?, next.isParenthesized = false)

end

def Statement.Preferred : Statement → Prop
  | .assignment _ value => value.Preferred
  | .call _ arguments => PreferredArguments arguments

theorem inclusion?_eq_some {kinds : List TokenKind} {specifier : String}
    (h : inclusion? kinds = some specifier) :
    kinds = (Value.inclusion specifier).kinds := by
  unfold inclusion? at h
  split at h
  · split at h
    · rename_i hname
      simp only [Option.some.injEq] at h
      simp [Value.kinds, hname, h]
    · cases h
  · cases h

/-- An object and the parenthesized object after it are one call. -/
def joined (callee argument : Path) : Value :=
  .call callee [.positional (.object argument)]

theorem kinds_joined (callee argument : Path) :
    (joined callee argument).kinds =
      (Value.object callee).kinds ++ (Value.parenthesized argument).kinds := by
  simp [joined, Value.kinds, argumentKinds, Argument.kinds]

theorem inclusion?_joined (callee argument : Path) :
    inclusion? (callKinds callee [.positional (.object argument)]) = none := by
  rcases callee with ⟨name, attributes⟩
  rcases attributes with _ | ⟨first, attributes⟩
  · simp [inclusion?, callKinds, Path.kinds, attributeKinds, argumentKinds, Argument.kinds,
      Value.kinds]
  · simp [inclusion?, callKinds, Path.kinds, attributeKinds]

theorem specifiers_joined (callee argument : Path) : (joined callee argument).specifiers = [] := by
  simp [joined, Value.specifiers, inclusion?_joined, argumentSpecifiers, Argument.specifiers]

theorem preferred_joined (callee argument : Path) : (joined callee argument).Preferred := by
  simp [joined, Value.Preferred, inclusion?_joined, PreferredArguments, Argument.Preferred]

theorem Value.eq_object_of_isBare {value : Value} (h : value.isBare = true) :
    ∃ path, value = .object path := by
  cases value with
  | object path => exact ⟨path, rfl⟩
  | _ => cases h

theorem Value.eq_parenthesized {value : Value} (h : value.isParenthesized = true) :
    ∃ path, value = .parenthesized path := by
  cases value with
  | parenthesized path => exact ⟨path, rfl⟩
  | _ => cases h

/-- Putting a value before preferred entries: if it is an object that
parentheses follow, the two are joined. -/
theorem exists_preferredEntries_cons {value : Value} {values : List Value}
    (hvalue : value.Preferred) (hvalues : PreferredEntries values) :
    ∃ entries, PreferredEntries entries ∧ entryKinds entries = entryKinds (value :: values) ∧
      entrySpecifiers entries = entrySpecifiers (value :: values) := by
  by_cases hjoin : value.isBare = true ∧ ∃ next ∈ values.head?, next.isParenthesized = true
  · obtain ⟨hbare, next, hnext, hparen⟩ := hjoin
    obtain ⟨callee, rfl⟩ := Value.eq_object_of_isBare hbare
    obtain ⟨argument, rfl⟩ := Value.eq_parenthesized hparen
    obtain ⟨values, rfl⟩ : ∃ rest, values = .parenthesized argument :: rest := by
      cases values with
      | nil => cases hnext
      | cons first rest => exact ⟨rest, by simpa using hnext⟩
    refine ⟨joined callee argument :: values, ?_, ?_, ?_⟩
    · exact ⟨preferred_joined callee argument, hvalues.2.1, fun h => by cases h⟩
    · simp [entryKinds, kinds_joined]
    · simp [entrySpecifiers, specifiers_joined, Value.specifiers]
  · refine ⟨value :: values, ⟨hvalue, hvalues, ?_⟩, rfl, rfl⟩
    intro hbare next hnext
    by_contra hparen
    exact hjoin ⟨hbare, next, hnext, by simpa using hparen⟩

def Argument.withValue : Argument → Value → Argument
  | .keyword name _, value => .keyword name value
  | .positional _, value => .positional value

def Argument.lead : Argument → List TokenKind
  | .keyword name _ => [.identifier name, .assign]
  | .positional _ => []

theorem Argument.kinds_withValue (argument : Argument) (value : Value) :
    (argument.withValue value).kinds = argument.lead ++ value.kinds := by
  cases argument with
  | keyword name other => rfl
  | positional other => rfl

theorem Argument.specifiers_withValue (argument : Argument) (value : Value) :
    (argument.withValue value).specifiers = value.specifiers := by
  cases argument with
  | keyword name other => rfl
  | positional other => rfl

theorem Argument.kinds_of_isBare {argument : Argument} (h : argument.isBare = true) :
    ∃ path : Path, argument.kinds = argument.lead ++ path.kinds ∧ argument.specifiers = [] := by
  cases argument with
  | keyword name value =>
      obtain ⟨path, rfl⟩ := Value.eq_object_of_isBare h
      exact ⟨path, rfl, rfl⟩
  | positional value =>
      obtain ⟨path, rfl⟩ := Value.eq_object_of_isBare h
      exact ⟨path, rfl, rfl⟩

theorem Argument.eq_parenthesized {argument : Argument} (h : argument.isParenthesized = true) :
    ∃ path, argument = .positional (.parenthesized path) := by
  cases argument with
  | keyword name value => cases h
  | positional value =>
      obtain ⟨path, rfl⟩ := Value.eq_parenthesized h
      exact ⟨path, rfl⟩

theorem Argument.preferred_withValue_joined (argument : Argument) (callee inner : Path) :
    (argument.withValue (joined callee inner)).Preferred ∧
      (argument.withValue (joined callee inner)).isBare = false := by
  cases argument with
  | keyword name value => exact ⟨preferred_joined callee inner, rfl⟩
  | positional value => exact ⟨preferred_joined callee inner, rfl⟩

theorem exists_preferredArguments_cons {argument : Argument} {arguments : List Argument}
    (hargument : argument.Preferred) (harguments : PreferredArguments arguments) :
    ∃ preferred, PreferredArguments preferred ∧
      argumentKinds preferred = argumentKinds (argument :: arguments) ∧
      argumentSpecifiers preferred = argumentSpecifiers (argument :: arguments) := by
  by_cases hjoin : argument.isBare = true ∧
      ∃ next ∈ arguments.head?, next.isParenthesized = true
  · obtain ⟨hbare, next, hnext, hparen⟩ := hjoin
    obtain ⟨callee, hkinds, hspecifiers⟩ := Argument.kinds_of_isBare hbare
    obtain ⟨inner, rfl⟩ := Argument.eq_parenthesized hparen
    obtain ⟨arguments, rfl⟩ :
        ∃ rest, arguments = .positional (.parenthesized inner) :: rest := by
      cases arguments with
      | nil => cases hnext
      | cons first rest => exact ⟨rest, by simpa using hnext⟩
    obtain ⟨hjoined, hnotBare⟩ := argument.preferred_withValue_joined callee inner
    refine ⟨argument.withValue (joined callee inner) :: arguments, ?_, ?_, ?_⟩
    · exact ⟨hjoined, harguments.2.1, fun h => by rw [hnotBare] at h; cases h⟩
    · simp [argumentKinds, Argument.kinds_withValue, kinds_joined, hkinds, Argument.kinds,
        Value.kinds]
    · simp [argumentSpecifiers, Argument.specifiers_withValue, specifiers_joined, hspecifiers,
        Argument.specifiers, Value.specifiers]
  · refine ⟨argument :: arguments, ⟨hargument, harguments, ?_⟩, rfl, rfl⟩
    intro hbare next hnext
    by_contra hparen
    exact hjoin ⟨hbare, next, hnext, by simpa using hparen⟩

/-- A call whose yield begins like an inclusion is one: only a string stands
between its parentheses. -/
theorem call_eq_of_append {callee : Path} {arguments : List Argument} {specifier : String}
    {rest kinds : List TokenKind}
    (h : callKinds callee arguments ++ rest = (Value.inclusion specifier).kinds ++ kinds) :
    callee = ⟨"import", []⟩ ∧ arguments = [.positional (.string specifier)] := by
  rcases callee with ⟨name, attributes⟩
  rcases attributes with _ | ⟨first, attributes⟩
  · obtain ⟨rfl, hrest⟩ : name = "import" ∧ argumentKinds arguments ++ .parenClose :: rest =
        .string specifier :: .parenClose :: kinds := by
      simpa [callKinds, Path.kinds, attributeKinds, Value.kinds] using h
    refine ⟨rfl, ?_⟩
    rcases argumentKinds_append_eq_string hrest with ⟨-, hclose⟩ | ⟨others, rfl, hothers⟩
    · cases hclose
    · rcases others with _ | ⟨other, others⟩
      · rfl
      · obtain ⟨kind, _, hkind, hopens, -⟩ := other.kinds_eq_cons
        rw [argumentKinds, hkind] at hothers
        obtain ⟨rfl, -⟩ := List.cons.inj hothers
        cases hopens
  · simp [callKinds, Path.kinds, attributeKinds, Value.kinds] at h

theorem arguments_eq_of_inclusion? {callee : Path} {arguments : List Argument}
    {specifier : String} (h : inclusion? (callKinds callee arguments) = some specifier) :
    arguments = [.positional (.string specifier)] := by
  have hkinds : callKinds callee arguments ++ [] = (Value.inclusion specifier).kinds ++ [] := by
    rw [inclusion?_eq_some h]
  exact (call_eq_of_append hkinds).2

theorem callKinds_append_ne {callee : Path} {arguments : List Argument}
    (h : inclusion? (callKinds callee arguments) = none) (rest : List TokenKind)
    (specifier : String) (kinds : List TokenKind) :
    callKinds callee arguments ++ rest ≠ (Value.inclusion specifier).kinds ++ kinds := by
  intro heq
  obtain ⟨rfl, rfl⟩ := call_eq_of_append heq
  cases h

mutual

theorem exists_preferred : ∀ value : Value,
    ∃ preferred : Value, preferred.Preferred ∧ preferred.kinds = value.kinds ∧
      preferred.specifiers = value.specifiers
  | .inclusion specifier => ⟨.inclusion specifier, trivial, rfl, rfl⟩
  | .call callee arguments => by
      obtain ⟨preferred, hpreferred, hkinds, hspecifiers⟩ :=
        exists_preferredArguments arguments
      have hcall : callKinds callee preferred = callKinds callee arguments := by
        rw [callKinds, callKinds, hkinds]
      cases hinclusion : inclusion? (callKinds callee arguments) with
      | none =>
          refine ⟨.call callee preferred, ⟨hcall ▸ hinclusion, hpreferred⟩, hcall, ?_⟩
          rw [Value.specifiers, Value.specifiers, hcall, hspecifiers]
      | some specifier =>
          refine ⟨.inclusion specifier, trivial, (inclusion?_eq_some hinclusion).symm, ?_⟩
          rw [Value.specifiers, Value.specifiers, hinclusion,
            arguments_eq_of_inclusion? hinclusion]
          rfl
  | .object path => ⟨.object path, trivial, rfl, rfl⟩
  | .parenthesized path => ⟨.parenthesized path, trivial, rfl, rfl⟩
  | .list entries => by
      obtain ⟨preferred, hpreferred, hkinds, hspecifiers⟩ := exists_preferredEntries entries
      exact ⟨.list preferred, hpreferred, by rw [Value.kinds, Value.kinds, hkinds], hspecifiers⟩
  | .listFor body element source => by
      obtain ⟨body', hbody, hbodyKinds, hbodySpecifiers⟩ := exists_preferred body
      obtain ⟨source', hsource, hsourceKinds, hsourceSpecifiers⟩ := exists_preferred source
      refine ⟨.listFor body' element source', ⟨hbody, hsource⟩, ?_, ?_⟩
      · rw [Value.kinds, Value.kinds, hbodyKinds, hsourceKinds]
      · rw [Value.specifiers, Value.specifiers, hbodySpecifiers, hsourceSpecifiers]
  | .string text => ⟨.string text, trivial, rfl, rfl⟩

theorem exists_preferredEntries : ∀ values : List Value,
    ∃ preferred, PreferredEntries preferred ∧ entryKinds preferred = entryKinds values ∧
      entrySpecifiers preferred = entrySpecifiers values
  | [] => ⟨[], trivial, rfl, rfl⟩
  | value :: values => by
      obtain ⟨first, hfirst, hfirstKinds, hfirstSpecifiers⟩ := exists_preferred value
      obtain ⟨rest, hrest, hrestKinds, hrestSpecifiers⟩ := exists_preferredEntries values
      obtain ⟨entries, hentries, hkinds, hspecifiers⟩ :=
        exists_preferredEntries_cons hfirst hrest
      refine ⟨entries, hentries, ?_, ?_⟩
      · rw [hkinds, entryKinds, entryKinds, hfirstKinds, hrestKinds]
      · rw [hspecifiers, entrySpecifiers, entrySpecifiers, hfirstSpecifiers, hrestSpecifiers]

theorem exists_preferredArgument : ∀ argument : Argument,
    ∃ preferred : Argument, preferred.Preferred ∧ preferred.kinds = argument.kinds ∧
      preferred.specifiers = argument.specifiers
  | .keyword name value => by
      obtain ⟨preferred, hpreferred, hkinds, hspecifiers⟩ := exists_preferred value
      refine ⟨.keyword name preferred, hpreferred, ?_, hspecifiers⟩
      rw [Argument.kinds, Argument.kinds, hkinds]
  | .positional value => by
      obtain ⟨preferred, hpreferred, hkinds, hspecifiers⟩ := exists_preferred value
      exact ⟨.positional preferred, hpreferred, hkinds, hspecifiers⟩

theorem exists_preferredArguments : ∀ arguments : List Argument,
    ∃ preferred, PreferredArguments preferred ∧
      argumentKinds preferred = argumentKinds arguments ∧
      argumentSpecifiers preferred = argumentSpecifiers arguments
  | [] => ⟨[], trivial, rfl, rfl⟩
  | argument :: arguments => by
      obtain ⟨first, hfirst, hfirstKinds, hfirstSpecifiers⟩ := exists_preferredArgument argument
      obtain ⟨rest, hrest, hrestKinds, hrestSpecifiers⟩ := exists_preferredArguments arguments
      obtain ⟨preferred, hpreferred, hkinds, hspecifiers⟩ :=
        exists_preferredArguments_cons hfirst hrest
      refine ⟨preferred, hpreferred, ?_, ?_⟩
      · rw [hkinds, argumentKinds, argumentKinds, hfirstKinds, hrestKinds]
      · rw [hspecifiers, argumentSpecifiers, argumentSpecifiers, hfirstSpecifiers,
          hrestSpecifiers]

end

theorem exists_preferredStatement (statement : Statement) :
    ∃ preferred : Statement, preferred.Preferred ∧ preferred.kinds = statement.kinds ∧
      preferred.specifiers = statement.specifiers := by
  cases statement with
  | assignment target value =>
      obtain ⟨preferred, hpreferred, hkinds, hspecifiers⟩ := exists_preferred value
      refine ⟨.assignment target preferred, hpreferred, ?_, hspecifiers⟩
      rw [Statement.kinds, Statement.kinds, hkinds]
  | call callee arguments =>
      obtain ⟨preferred, hpreferred, hkinds, hspecifiers⟩ := exists_preferredArguments arguments
      refine ⟨.call callee preferred, hpreferred, ?_, hspecifiers⟩
      rw [Statement.kinds, Statement.kinds, callKinds, callKinds, hkinds]

/-- Every program has a preferred tree with the same yield and the same
specifiers. -/
theorem exists_preferredStatements (statements : List Statement) :
    ∃ preferred : List Statement, (∀ statement ∈ preferred, statement.Preferred) ∧
      statementKinds preferred = statementKinds statements ∧
      programSpecifiers preferred = programSpecifiers statements := by
  induction statements with
  | nil => exact ⟨[], by simp, rfl, rfl⟩
  | cons statement statements ih =>
      obtain ⟨first, hfirst, hfirstKinds, hfirstSpecifiers⟩ := exists_preferredStatement statement
      obtain ⟨rest, hrest, hrestKinds, hrestSpecifiers⟩ := ih
      refine ⟨first :: rest, ?_, ?_, ?_⟩
      · intro other hother
        rcases List.mem_cons.mp hother with rfl | hother
        · exact hfirst
        · exact hrest other hother
      · simpa [statementKinds, hfirstKinds] using hrestKinds
      · simpa [programSpecifiers, hfirstSpecifiers] using hrestSpecifiers

section Inclusions

variable {included : String → Node → Prop}

mutual

/-- Each specifier of a preferred tree is that of an inclusion, and has the tree
that is included there. -/
theorem Value.HasTree.included_of_mem : ∀ {value : Value} {node : Node},
    value.HasTree included node → value.Preferred → ∀ specifier ∈ value.specifiers,
      ∃ tree, included specifier tree
  | .inclusion _, node, h, _ => fun _ hmem => ⟨node, List.mem_singleton.mp hmem ▸ h⟩
  | .call callee arguments, _, ⟨_, _, _, _, _, harguments⟩, ⟨hnot, hpreferred⟩ => by
      rw [Value.specifiers, hnot]
      exact ArgumentsHaveTrees.included_of_mem harguments hpreferred
  | .object _, _, _, _ => fun _ h => nomatch h
  | .parenthesized _, _, _, _ => fun _ h => nomatch h
  | .list _, _, ⟨_, _, _, hentries⟩, hpreferred =>
      EntriesHaveTrees.included_of_mem hentries hpreferred
  | .listFor _ _ _, _, ⟨_, _, _, _, _, hbody, hsource⟩, ⟨hbodyPreferred, hsourcePreferred⟩ =>
      List.forall_mem_append.mpr
        ⟨hbody.included_of_mem hbodyPreferred, hsource.included_of_mem hsourcePreferred⟩
  | .string _, _, _, _ => fun _ h => nomatch h

theorem EntriesHaveTrees.included_of_mem : ∀ {values : List Value} {nodes : List Node},
    EntriesHaveTrees included values nodes → PreferredEntries values →
      ∀ specifier ∈ entrySpecifiers values, ∃ tree, included specifier tree
  | [], _, _, _ => fun _ h => nomatch h
  | _ :: _, _, ⟨_, _, _, hvalue, hvalues⟩, ⟨hpreferred, hpreferreds, _⟩ =>
      List.forall_mem_append.mpr ⟨hvalue.included_of_mem hpreferred,
        EntriesHaveTrees.included_of_mem hvalues hpreferreds⟩

theorem Argument.HasTree.included_of_mem : ∀ {argument : Argument} {node : Node},
    argument.HasTree included node → argument.Preferred →
      ∀ specifier ∈ argument.specifiers, ∃ tree, included specifier tree
  | .keyword _ _, _, ⟨_, _, _, hvalue⟩, hpreferred => hvalue.included_of_mem hpreferred
  | .positional value, node, hvalue, hpreferred =>
      (show value.HasTree included node from hvalue).included_of_mem hpreferred

theorem ArgumentsHaveTrees.included_of_mem : ∀ {arguments : List Argument} {nodes : List Node},
    ArgumentsHaveTrees included arguments nodes → PreferredArguments arguments →
      ∀ specifier ∈ argumentSpecifiers arguments, ∃ tree, included specifier tree
  | [], _, _, _ => fun _ h => nomatch h
  | _ :: _, _, ⟨_, _, _, hargument, harguments⟩, ⟨hpreferred, hpreferreds, _⟩ =>
      List.forall_mem_append.mpr ⟨hargument.included_of_mem hpreferred,
        ArgumentsHaveTrees.included_of_mem harguments hpreferreds⟩

end

theorem Statement.HasTree.included_of_mem {statement : Statement} {node : Node}
    (h : statement.HasTree included node) (hpreferred : statement.Preferred) :
    ∀ specifier ∈ statement.specifiers, ∃ tree, included specifier tree := by
  cases statement with
  | assignment target value =>
      obtain ⟨_, _, _, -, hvalue⟩ := h
      exact hvalue.included_of_mem hpreferred
  | call callee arguments =>
      obtain ⟨_, _, _, -, -, harguments⟩ := h
      exact harguments.included_of_mem hpreferred

theorem included_of_mem_programSpecifiers {statements : List Statement} {nodes : List Node}
    (h : List.Forall₂ (Statement.HasTree included) statements nodes)
    (hpreferred : ∀ statement ∈ statements, statement.Preferred) :
    ∀ specifier ∈ programSpecifiers statements, ∃ tree, included specifier tree := by
  induction h with
  | nil => exact fun _ hmem => nomatch hmem
  | cons hfirst _ ih =>
      obtain ⟨hfirstPreferred, hothers⟩ := List.forall_mem_cons.mp hpreferred
      exact List.forall_mem_append.mpr
        ⟨hfirst.included_of_mem hfirstPreferred, ih hothers⟩

end Inclusions

end BuildScript.Derivation
