import BuildScript.Proofs.HermeticImports

/-!
A comprehension is the list of its bodies. Evaluation reads a scope by name
only, so a tree does the same under other names for its variables, in a scope
where the new names mean what the old ones did. The loop variable can therefore
be written out, element by element, under names that mean the elements already.
-/

namespace BuildScript

open Eval

namespace Node

mutual

/-- The tree with its variables renamed. Names of attributes and of keywords
are no variables; a variable that a comprehension binds keeps its name in the
body, and an imported program does not see the names around it. -/
def rename (names : String → String) : Node → Node
  | ⟨.object, location, text?, []⟩ => ⟨.object, location, some (names (text?.getD "")), []⟩
  | ⟨.listFor, location, text?, body :: element :: source :: others⟩ =>
    ⟨.listFor, location, text?,
      rename (Function.update names element.text element.text) body :: element ::
        rename names source :: others⟩
  | ⟨.program, location, text?, statements⟩ => ⟨.program, location, text?, statements⟩
  | ⟨kind, location, text?, children⟩ => ⟨kind, location, text?, renameAll names children⟩

def renameAll (names : String → String) : List Node → List Node
  | [] => []
  | n :: ns => rename names n :: renameAll names ns

end

def renameVariable (old new : String) : Node → Node :=
  rename (Function.update id old new)

mutual

/-- The variables that comprehensions of a tree bind, outside of imported
programs. -/
def loopVariables : Node → List String
  | ⟨.listFor, _, _, body :: element :: source :: _⟩ =>
    element.text :: (loopVariables body ++ loopVariables source)
  | ⟨.program, _, _, _⟩ => []
  | ⟨_, _, _, children⟩ => loopVariablesAll children

def loopVariablesAll : List Node → List String
  | [] => []
  | n :: ns => loopVariables n ++ loopVariablesAll ns

end

theorem location_rename (names : String → String) (n : Node) :
    (n.rename names).location = n.location := by
  unfold rename
  split <;> rfl

theorem kind_rename (names : String → String) (n : Node) : (n.rename names).kind = n.kind := by
  unfold rename
  split <;> rfl

theorem map_location_renameAll (names : String → String) (ns : List Node) :
    (renameAll names ns).map (·.location) = ns.map (·.location) := by
  induction ns with
  | nil => rfl
  | cons n ns ih => rw [renameAll, List.map_cons, List.map_cons, location_rename, ih]

theorem exists_cons_of_renameAll {names : String → String} {ns : List Node} {n : Node}
    {rest : List Node} (h : renameAll names ns = n :: rest) :
    ∃ n' ns', ns = n' :: ns' ∧ renameAll names ns' = rest := by
  cases ns with
  | nil => cases h
  | cons n' ns' => exact ⟨n', ns', rfl, (List.cons.inj h).2⟩

end Node

/-- A renaming that turns no other name into one of the bound ones. -/
def SparesBound (names : String → String) (bound : List String) : Prop :=
  ∀ x ∈ bound, ∀ name, name ≠ x → names name ≠ x

theorem SparesBound.mono {names : String → String} {bound bound' : List String}
    (h : SparesBound names bound) (hsubset : bound' ⊆ bound) : SparesBound names bound' :=
  fun x hx => h x (hsubset hx)

theorem SparesBound.update {names : String → String} {bound : List String}
    (h : SparesBound names bound) (element : String) :
    SparesBound (Function.update names element element) bound := by
  intro x hx name hname
  by_cases heq : name = element
  · rwa [heq, Function.update_self, ← heq]
  · rw [Function.update_of_ne heq]
    exact h x hx name hname

theorem sparesBound_single {old new : String} {bound : List String} (h : new ∉ bound) :
    SparesBound (Function.update id old new) bound := by
  intro x hx name hname
  by_cases heq : name = old
  · rw [heq, Function.update_self]
    exact fun hnew => h (hnew ▸ hx)
  · rw [Function.update_of_ne heq]
    exact hname

namespace Scope

variable {scope scope' : Scope} {names : String → String}

theorem get_withElement (scope : Scope) (loop name : String) (element : Handle) :
    (scope.withElement loop element).get name =
      if name = loop then .ok element else scope.get name := by
  have hget : (scope.withElement loop element).get name =
      (Scope.nested ⟨[(loop, element)], by simp⟩ scope).get name := rfl
  by_cases heq : name = loop
  · have hfound : [(loop, element)].lookup name = some element := by
      rw [heq, List.lookup_cons_self]
    simp only [hget, get, Bindings.find?, hfound, if_pos heq]
  · have hmissing : [(loop, element)].lookup name = none := by
      rw [List.lookup_cons, beq_false_of_ne heq]
      rfl
    simp only [hget, get, Bindings.find?, hmissing, if_neg heq]

/-- Under their new names the variables mean what they meant before. -/
def MeansUnder (names : String → String) (scope scope' : Scope) : Prop :=
  ∀ name, scope'.get (names name) = scope.get name

theorem MeansUnder.withElement {loop : String} (h : MeansUnder names scope scope')
    (hspares : ∀ name, name ≠ loop → names name ≠ loop) (element : Handle) :
    MeansUnder (Function.update names loop loop) (scope.withElement loop element)
      (scope'.withElement loop element) := by
  intro name
  rw [get_withElement, get_withElement]
  by_cases heq : name = loop
  · rw [heq, Function.update_self, if_pos rfl, if_pos rfl]
  · rw [Function.update_of_ne heq, if_neg (hspares name heq), if_neg heq, h name]

theorem meansUnder_element {loop name : String} {element : Handle}
    (h : scope.get name = .ok element) :
    MeansUnder (Function.update id loop name) (scope.withElement loop element) scope := by
  intro other
  rw [get_withElement]
  by_cases heq : other = loop
  · rw [heq, Function.update_self, if_pos rfl, h]
  · rw [Function.update_of_ne heq, if_neg heq]
    rfl

end Scope

variable {φ : Type} [Host φ]

open Node Scope

private theorem evaluate_renamed :
    (∀ (node : Node) (scope : Scope) (names : String → String) (scope' : Scope),
      SparesBound names node.loopVariables → MeansUnder names scope scope' →
      (evaluate (node.rename names) scope' : Eval φ Handle) = evaluate node scope) ∧
    (∀ (_ : List Node) (_ : Scope) (_ : Machine φ), True) ∧
    (∀ (nodes : List Node) (scope : Scope) (args : Arguments) (names : String → String)
      (scope' : Scope), SparesBound names (loopVariablesAll nodes) →
      MeansUnder names scope scope' →
      (evaluateArguments (renameAll names nodes) scope' args : Eval φ Arguments) =
        evaluateArguments nodes scope args) ∧
    (∀ (nodes : List Node) (scope : Scope) (names : String → String) (scope' : Scope),
      SparesBound names (loopVariablesAll nodes) → MeansUnder names scope scope' →
      (evaluateAll (renameAll names nodes) scope' : Eval φ (List Handle)) =
        evaluateAll nodes scope) := by
  apply evaluate.mutual_induct
  case case1 =>
    intro location text? scope names scope' _ hmeans
    rw [Node.rename, evaluate, evaluate, lookUp, lookUp, Option.getD_some, hmeans]
  case case2 =>
    intro location text? owner others scope ih names scope' hspares hmeans
    rw [loopVariables, loopVariablesAll] at hspares
    · rw [Node.rename, renameAll, evaluate, evaluate,
        ih names scope' (hspares.mono (List.subset_append_left _ _)) hmeans]
      all_goals simp
    all_goals simp
  case case3 =>
    intro location text? children scope names scope' _ _
    rw [Node.rename, evaluate, evaluate]
    all_goals simp
  case case4 =>
    intro location text? entries scope ih names scope' hspares hmeans
    rw [loopVariables] at hspares
    · rw [Node.rename, evaluate, evaluate, ih names scope' hspares hmeans]
      all_goals simp
    all_goals simp
  case case5 =>
    intro location text? body element source others scope ihSource ihBody names scope' hspares
      hmeans
    rw [loopVariables] at hspares
    -- The element keeps its name, and no other variable has taken it.
    have hbody : ∀ h : Handle,
        (evaluate (body.rename (Function.update names element.text element.text))
          (scope'.withElement element.text h) : Eval φ Handle) =
        evaluate body (scope.withElement element.text h) := fun h =>
      ihBody h _ _
        ((hspares.mono (List.Subset.trans (List.subset_append_left _ _)
          (List.subset_cons_self _ _))).update _)
        (hmeans.withElement (hspares _ List.mem_cons_self) h)
    have hsource : SparesBound names source.loopVariables :=
      hspares.mono (List.Subset.trans (List.subset_append_right _ _) (List.subset_cons_self _ _))
    rw [Node.rename, evaluate, evaluate, ihSource names scope' hsource hmeans, location_rename]
    simp only [hbody]
  case case6 =>
    intro location text? callee arguments scope ihCallee ihArguments names scope' hspares hmeans
    rw [loopVariables, loopVariablesAll] at hspares
    · rw [Node.rename, renameAll, evaluate, evaluate, map_location_renameAll,
        ihCallee names scope' (hspares.mono (List.subset_append_left _ _)) hmeans,
        ihArguments names scope' (hspares.mono (List.subset_append_right _ _)) hmeans]
      all_goals simp
    all_goals simp
  case case7 =>
    intro location text? statements scope _ names scope' _ _
    rw [Node.rename]
    exact evaluate_program_scope location text? statements scope' scope
  case case8 =>
    intro kind location text? children scope hobject hattribute hstring hlist hlistFor hcall
      hprogram names scope' _ _
    rw [Node.rename, evaluate, evaluate]
    any_goals assumption
    -- A tree that fits no other equation fits none under new names either.
    · rintro hkind hchildren
      cases children with
      | nil => exact hobject hkind rfl
      | cons owner others => exact hattribute owner others hkind rfl
    · rintro owner others hkind hchildren
      obtain ⟨owner', others', rfl, -⟩ := exists_cons_of_renameAll hchildren
      exact hattribute owner' others' hkind rfl
    · rintro body element source others hkind hchildren
      obtain ⟨body', children', rfl, hchildren'⟩ := exists_cons_of_renameAll hchildren
      obtain ⟨element', sources', rfl, hsources'⟩ := exists_cons_of_renameAll hchildren'
      obtain ⟨source', others', rfl, -⟩ := exists_cons_of_renameAll hsources'
      exact hlistFor body' element' source' others' hkind rfl
    · rintro callee arguments hkind hchildren
      obtain ⟨callee', arguments', rfl, -⟩ := exists_cons_of_renameAll hchildren
      exact hcall callee' arguments' hkind rfl
  case case9 => exact fun _ _ => trivial
  case case10 => exact fun _ _ _ _ _ _ _ _ _ _ => trivial
  case case11 => exact fun _ _ _ _ _ _ _ _ => trivial
  case case12 => exact fun _ _ _ _ _ _ _ _ _ _ => trivial
  case case13 =>
    intro scope args names scope' _ _
    rw [renameAll, evaluateArguments, evaluateArguments]
  case case14 =>
    intro location text? nodes scope args names scope' _ _
    rw [renameAll, Node.rename, renameAll, evaluateArguments, evaluateArguments]
    all_goals simp
  case case15 =>
    intro location text? value others nodes scope args ihValue ihNodes names scope' hspares hmeans
    rw [loopVariablesAll, loopVariables, loopVariablesAll] at hspares
    · rw [renameAll, Node.rename, renameAll, evaluateArguments, evaluateArguments,
        ihValue names scope' (hspares.mono fun x hx => by simp [hx]) hmeans]
      · simp only [fun handle => ihNodes handle names scope'
          (hspares.mono (List.subset_append_right _ _)) hmeans]
      all_goals simp
    all_goals simp
  case case16 =>
    intro node nodes scope args hempty hkeyword ihNode ihNodes names scope' hspares hmeans
    rw [loopVariablesAll] at hspares
    have hkind : node.kind ≠ .keyword := by
      rcases node with ⟨kind, location, text?, children⟩
      rintro rfl
      cases children with
      | nil => exact hempty location text? rfl
      | cons value others => exact hkeyword location text? value others rfl
    have hrenamed : (node.rename names).kind ≠ .keyword := by rwa [kind_rename]
    rw [renameAll, evaluateArguments, evaluateArguments,
      ihNode names scope' (hspares.mono (List.subset_append_left _ _)) hmeans]
    · simp only [fun handle => ihNodes handle names scope'
        (hspares.mono (List.subset_append_right _ _)) hmeans]
    · exact hempty
    · exact hkeyword
    · exact fun location text? heq => hrenamed (heq ▸ rfl)
    · exact fun location text? value others heq => hrenamed (heq ▸ rfl)
  case case17 =>
    intro scope names scope' _ _
    rw [renameAll, evaluateAll, evaluateAll]
  case case18 =>
    intro node nodes scope ihNode ihNodes names scope' hspares hmeans
    rw [loopVariablesAll] at hspares
    rw [renameAll, evaluateAll, evaluateAll,
      ihNode names scope' (hspares.mono (List.subset_append_left _ _)) hmeans,
      ihNodes names scope' (hspares.mono (List.subset_append_right _ _)) hmeans]

/-- A tree does the same under other names for its variables, where these mean
what the variables mean. -/
theorem evaluate_rename {names : String → String} {node : Node} {scope scope' : Scope}
    (hspares : SparesBound names node.loopVariables) (hmeans : MeansUnder names scope scope') :
    (evaluate (node.rename names) scope' : Eval φ Handle) = evaluate node scope :=
  evaluate_renamed.1 node scope names scope' hspares hmeans

theorem evaluateAll_unrolled {body : Node} {scope : Scope} {elements : List Handle}
    {names : List String} (loop : String)
    (hnames : List.Forall₂ (fun name element => scope.get name = .ok element) names elements)
    (hfresh : ∀ name ∈ names, name ∉ body.loopVariables) :
    (evaluateAll (names.map (body.renameVariable loop)) scope : Eval φ (List Handle)) =
      elements.mapM fun element => evaluate body (scope.withElement loop element) := by
  induction hnames with
  | nil =>
      rw [List.map_nil, evaluateAll, List.mapM_nil]
  | @cons name element names elements hname _ ih =>
      obtain ⟨hfirst, hothers⟩ := List.forall_mem_cons.mp hfresh
      rw [List.map_cons, evaluateAll, List.mapM_cons, ih hothers, Node.renameVariable,
        evaluate_rename (sparesBound_single hfirst) (meansUnder_element hname)]

/-- A comprehension over a variable does what the list does that has the body
once for each element, with a name of the element in place of the loop variable:
the same value in the same arena, or the same errors at the same places. The
names may be any that mean the elements and that no comprehension in the body
binds. -/
theorem evaluate_listFor_eq_unrolled {body : Node} {loop collection : String} {scope : Scope}
    {list : Handle} {elements : List Handle} {names : List String} {m : Machine φ}
    (hcollection : scope.get collection = .ok list)
    (hlist : m.arena.get list = .list elements)
    (hnames : List.Forall₂ (fun name element => scope.get name = .ok element) names elements)
    (hfresh : ∀ name ∈ names, name ∉ body.loopVariables)
    (place binderPlace collectionPlace place' : Location) (text? text?' : Option String) :
    evaluate ⟨.listFor, place, text?, [body, ⟨.binder, binderPlace, some loop, []⟩,
        ⟨.object, collectionPlace, some collection, []⟩]⟩ scope m =
      evaluate ⟨.list, place', text?', names.map (body.renameVariable loop)⟩ scope m := by
  rw [evaluate, evaluate, evaluate, evaluateAll_unrolled loop hnames hfresh, bind_apply,
    lookUp_apply, Option.getD_some, hcollection]
  dsimp only
  rw [bind_apply, inspect_apply]
  simp only [Arena.asList, hlist, Object.asList]
  rfl

/-- The body calls a function with the loop variable, and holds a comprehension
that binds the same variable again. -/
theorem evaluate_listFor_eq_unrolled_shadowed :
    let here := Location.startOf (.ofText "")
    let object (name : String) : Node := ⟨.object, here, some name, []⟩
    let comprehension (body : Node) : Node :=
      ⟨.listFor, here, none, [body, ⟨.binder, here, some "v", []⟩, object "xs"]⟩
    let body (name : String) : Node := ⟨.list, here, none, [
      ⟨.call, here, none, [object "concat", object name]⟩, comprehension (object "v")]⟩
    let scope : Scope :=
      .root ⟨[("xs", ⟨3⟩), ("concat", ⟨4⟩), ("one", ⟨1⟩), ("two", ⟨2⟩)], by decide⟩
    let m : Machine Builtin :=
      ⟨⟨#[.null, .string "a", .string "b", .list [⟨1⟩, ⟨2⟩], .function .concat]⟩, {}⟩
    ∃ h m', evaluate (comprehension (body "v")) scope m = .ok h m' ∧
      evaluate ⟨.list, here, none, ["one", "two"].map ((body "v").renameVariable "v")⟩ scope m =
        .ok h m' ∧
      (body "v").renameVariable "v" "one" = body "one" ∧
      m'.arena.render h = "[[\"a\" [\"a\" \"b\"]] [\"b\" [\"a\" \"b\"]]]" := by
  intro here object comprehension body scope m
  have hchecks : (match evaluate (comprehension (body "v")) scope m with
      | .ok h m' => m'.arena.render h == "[[\"a\" [\"a\" \"b\"]] [\"b\" [\"a\" \"b\"]]]"
      | .error _ _ => false) = true := by decide +kernel
  split at hchecks
  · rename_i h m' hrun
    refine ⟨h, m', hrun, ?_, rfl, beq_iff_eq.mp hchecks⟩
    rw [← hrun]
    have hfresh : ∀ name ∈ ["one", "two"], name ∉ (body "v").loopVariables := by decide +kernel
    have hlist : m.arena.get ⟨3⟩ = .list [⟨1⟩, ⟨2⟩] := rfl
    exact (evaluate_listFor_eq_unrolled rfl hlist (.cons rfl (.cons rfl .nil)) hfresh
      here here here here none none).symm
  · cases hchecks

end BuildScript
