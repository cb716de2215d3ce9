import BuildScript.Host.Stock
import BuildScript.Proofs.Actions
import BuildScript.Proofs.ArgumentLists

namespace BuildScript

open Eval

/-- The arguments that children of a call stand for, numbered as they stand. -/
def numbered : Nat → List Node → List Handle → List (Node × Argument)
  | start, node :: nodes, value :: values =>
    (node, ⟨start, value⟩) :: numbered (start + 1) nodes values
  | _, _, _ => []

def IsKeyword (e : Node × Argument) : Prop := e.1.kind = .keyword

instance (e : Node × Argument) : Decidable (IsKeyword e) :=
  inferInstanceAs (Decidable (e.1.kind = .keyword))

def IsNamed (name : String) (e : Node × Argument) : Prop := IsKeyword e ∧ e.1.text = name

instance (name : String) (e : Node × Argument) : Decidable (IsNamed name e) :=
  inferInstanceAs (Decidable (_ ∧ _))

def IsFirst (given : List (Node × Argument)) (e : Node × Argument) : Prop :=
  IsKeyword e ∧ ∀ e' ∈ given.take e.2.id, ¬ IsNamed e.1.text e'

instance (given : List (Node × Argument)) (e : Node × Argument) : Decidable (IsFirst given e) :=
  inferInstanceAs (Decidable (_ ∧ _))

/-- What a function gets of the arguments that were given: those without a name
in order, and of those with a name the first of each name in order. -/
structure Arguments.Holds (args : Arguments) (given : List (Node × Argument)) : Prop where
  count : args.count = given.length
  positional : args.positional = (given.filter fun e => ¬ IsKeyword e).map Prod.snd
  keyword : args.keyword = (given.filter (IsFirst given)).map fun e => (e.1.text, e.2)
  lookup : ∀ name, args.keyword.lookup name = (given.find? (IsNamed name)).map Prod.snd

def Numbered (given : List (Node × Argument)) : Prop :=
  given.map (·.2.id) = List.range given.length

def pushed (e : Node × Argument) : Arguments.Push :=
  if IsKeyword e then .keyword e.1.text e.2.object else .positional e.2.object

theorem Arguments.push_eq_after (args : Arguments) (node : Node) (arg : Argument) :
    args.push node arg.object = args.after (pushed (node, arg)) := by
  by_cases hkeyword : node.kind = .keyword
  · simp [Arguments.push, pushed, IsKeyword, after, hkeyword]
  · simp [Arguments.push, pushed, IsKeyword, after, hkeyword]

theorem map_filter_eq_filterMap {α β : Type} (f : α → β) (p : α → Bool) (l : List α) :
    (l.filter p).map f = l.filterMap fun a => if p a then some (f a) else none := by
  rw [← List.filterMap_eq_map, List.filterMap_filter]
  rfl

section Pushed

open Arguments

variable {given : List (Node × Argument)} {name : String}

theorem Numbered.id_eq (h : Numbered given) {i : Nat} {e : Node × Argument}
    (he : given[i]? = some e) : e.2.id = i := by
  have hid : (given.map (·.2.id))[i]? = some e.2.id := by
    rw [List.getElem?_map, he, Option.map_some]
  rw [h, List.getElem?_range (List.getElem?_eq_some_iff.mp he).1] at hid
  exact (Option.some.inj hid).symm

theorem Numbered.zipIdx_map_pushed (h : Numbered given) :
    (given.map pushed).zipIdx = given.map fun e => (pushed e, e.2.id) := by
  rw [List.zipIdx_eq_zip_range', List.length_map, ← List.range_eq_range', ← h, List.zip_map']

theorem pushed_eq_keyword_iff {e : Node × Argument} {object : Handle} :
    pushed e = .keyword name object ↔ IsNamed name e ∧ e.2.object = object := by
  unfold pushed IsNamed
  split <;> simp_all

theorem lacks_map_pushed_iff :
    Lacks (given.map pushed) name ↔ ∀ e ∈ given, ¬ IsNamed name e := by
  simp only [Lacks, List.mem_map, pushed_eq_keyword_iff]
  grind

theorem positionals_map_pushed (h : Numbered given) :
    positionals (given.map pushed) = (given.filter fun e => ¬ IsKeyword e).map Prod.snd := by
  rw [positionals, h.zipIdx_map_pushed, List.filterMap_map, map_filter_eq_filterMap]
  refine List.filterMap_congr fun e _ => ?_
  by_cases hkeyword : IsKeyword e <;> simp [pushed, hkeyword]

theorem firsts_map_pushed (h : Numbered given) :
    firsts (given.map pushed) =
      (given.filter (IsFirst given)).map fun e => (e.1.text, e.2) := by
  rw [firsts, h.zipIdx_map_pushed, List.filterMap_map, map_filter_eq_filterMap]
  refine List.filterMap_congr fun e _ => ?_
  by_cases hkeyword : IsKeyword e
  · have hfirst : IsFirst given e ↔ Lacks ((given.map pushed).take e.2.id) e.1.text := by
      rw [← List.map_take, lacks_map_pushed_iff]
      exact and_iff_right hkeyword
    simp [pushed, hkeyword, hfirst]
  · simp [pushed, IsFirst, hkeyword]

theorem lookup_firsts_map_pushed (h : Numbered given) (name : String) :
    (firsts (given.map pushed)).lookup name = (given.find? (IsNamed name)).map Prod.snd := by
  ext arg
  rw [lookup_firsts, ← List.map_take, lacks_map_pushed_iff, List.getElem?_map,
    Option.map_eq_some_iff, Option.map_eq_some_iff]
  constructor
  · rintro ⟨⟨e, he, hpushed⟩, hbefore⟩
    obtain ⟨hnamed, hobject⟩ := pushed_eq_keyword_iff.mp hpushed
    refine ⟨e, ?_, ?_⟩
    · obtain ⟨hlt, rfl⟩ := List.getElem?_eq_some_iff.mp he
      refine List.find?_eq_some_iff_getElem.mpr ⟨by simpa using hnamed, arg.id, hlt, rfl, ?_⟩
      intro j hj
      have hmem : given[j] ∈ given.take arg.id := List.mem_take_iff_getElem.mpr ⟨j, by omega, rfl⟩
      simpa using hbefore _ hmem
    · obtain ⟨node, id, object⟩ := e
      obtain rfl : id = arg.id := h.id_eq he
      obtain rfl : object = arg.object := hobject
      rfl
  · rintro ⟨e, he, rfl⟩
    obtain ⟨hnamed, i, hlt, rfl, hbefore⟩ := List.find?_eq_some_iff_getElem.mp he
    have hget : given[i]? = some given[i] := List.getElem?_eq_getElem hlt
    rw [h.id_eq hget]
    refine ⟨⟨_, hget, pushed_eq_keyword_iff.mpr ⟨by simpa using hnamed, rfl⟩⟩, fun e he => ?_⟩
    obtain ⟨j, hj, rfl⟩ := List.mem_take_iff_getElem.mp he
    simpa using hbefore j (by omega)

end Pushed

/-- Pushed one by one, arguments are what a function gets of them. -/
theorem Arguments.holds_ofPushes {given : List (Node × Argument)} (h : Numbered given) :
    (ofPushes (given.map pushed)).Holds given := by
  rw [ofPushes_eq]
  exact ⟨List.length_map _, positionals_map_pushed h, firsts_map_pushed h,
    lookup_firsts_map_pushed h⟩

def Arguments.seen (args : Arguments) : List Argument :=
  args.positional ++ args.keyword.map Prod.snd

namespace Arguments.Holds

variable {args : Arguments} {given : List (Node × Argument)}

theorem getKeyword_eq (h : args.Holds given) (name : String) :
    args.getKeyword name = match given.find? (IsNamed name) with
      | some e => .ok e.2
      | none => .error (.missingKeyword name) := by
  unfold getKeyword
  rw [h.lookup name]
  cases given.find? (IsNamed name) with
  | some e => rfl
  | none => rfl

/-- A function sees no other arguments than those that were given. -/
theorem exists_of_seen (h : args.Holds given) {arg : Argument} (harg : arg ∈ args.seen) :
    ∃ e ∈ given, e.2 = arg := by
  unfold seen at harg
  rw [h.positional, h.keyword, List.mem_append] at harg
  rcases harg with hpositional | hkeyword
  · obtain ⟨e, he, rfl⟩ := List.mem_map.mp hpositional
    exact ⟨e, (List.mem_filter.mp he).1, rfl⟩
  · simp only [List.map_map, List.mem_map] at hkeyword
    obtain ⟨e, he, rfl⟩ := hkeyword
    exact ⟨e, (List.mem_filter.mp he).1, rfl⟩

end Arguments.Holds

theorem ids_numbered (start : Nat) (nodes : List Node) (values : List Handle) :
    (numbered start nodes values).map (·.2.id) =
      List.range' start (numbered start nodes values).length := by
  induction nodes generalizing start values with
  | nil => rfl
  | cons node nodes ih =>
      cases values with
      | nil => rfl
      | cons value values =>
          rw [numbered, List.map_cons, ih, List.length_cons, List.range'_succ]

theorem numbered_numbered (nodes : List Node) (values : List Handle) :
    Numbered (numbered 0 nodes values) := by
  rw [Numbered, ids_numbered, List.range_eq_range']

theorem mem_numbered {start : Nat} {nodes : List Node} {values : List Handle}
    {e : Node × Argument} (h : e ∈ numbered start nodes values) :
    ∃ i, e.2.id = start + i ∧ nodes[i]? = some e.1 ∧ values[i]? = some e.2.object := by
  induction nodes generalizing start values with
  | nil => simp [numbered] at h
  | cons node nodes ih =>
      cases values with
      | nil => simp [numbered] at h
      | cons value values =>
          rcases List.mem_cons.mp h with rfl | hmem
          · exact ⟨0, rfl, rfl, rfl⟩
          · obtain ⟨i, hid, hnode, hvalue⟩ := ih hmem
            exact ⟨i + 1, by omega, hnode, hvalue⟩

variable {φ : Type} [Host φ]

/-- Values are evaluated from left to right: each on what those before it left. -/
theorem evaluateAll_eq_ok_at {nodes : List Node} {scope : Scope} {m m' : Machine φ}
    {values : List Handle} (h : evaluateAll nodes scope m = .ok values m') {i : Nat} {node : Node}
    (hnode : nodes[i]? = some node) :
    ∃ value m₁ m₂, evaluateAll (nodes.take i) scope m = .ok (values.take i) m₁ ∧
      evaluate node scope m₁ = .ok value m₂ ∧ values[i]? = some value ∧
      evaluateAll (nodes.drop (i + 1)) scope m₂ = .ok (values.drop (i + 1)) m' := by
  induction nodes generalizing i m values with
  | nil => simp at hnode
  | cons first nodes ih =>
      rw [evaluateAll] at h
      obtain ⟨value, m₁, hfirst, hrest⟩ := bind_eq_ok h
      obtain ⟨values, m₂, hnodes, hpure⟩ := bind_eq_ok hrest
      cases hpure
      cases i with
      | zero =>
          obtain rfl : first = node := by simpa using hnode
          exact ⟨value, m, m₁, by rw [List.take_zero, evaluateAll]; rfl, hfirst, rfl, hnodes⟩
      | succ i =>
          obtain ⟨value', m₃, m₄, hbefore, hvalue, hget, hafter⟩ := ih hnodes (by simpa using hnode)
          refine ⟨value', m₃, m₄, ?_, hvalue, hget, hafter⟩
          rw [List.take_succ_cons, evaluateAll, bind_of_eq_ok hfirst, bind_of_eq_ok hbefore]
          rfl

/-- The arguments of a call, evaluated: the values of the children in order, and
all of them pushed. -/
theorem evaluateArguments_eq_ok {nodes : List Node} {scope : Scope} {args args' : Arguments}
    {m m' : Machine φ} (h : evaluateArguments nodes scope args m = .ok args' m') (start : Nat) :
    ∃ values, evaluateAll (nodes.map Node.given) scope m = .ok values m' ∧
      values.length = nodes.length ∧
      args' = ((numbered start nodes values).map pushed).foldl Arguments.after args := by
  induction nodes generalizing args m start with
  | nil =>
      rw [evaluateArguments] at h
      cases h
      refine ⟨[], ?_, rfl, rfl⟩
      rw [List.map_nil, evaluateAll]
      rfl
  | cons node nodes ih =>
      rw [evaluateArguments_cons] at h
      obtain ⟨value, m₁, hvalue, hnodes⟩ := bind_eq_ok h
      obtain ⟨values, hall, hlength, hargs⟩ := ih hnodes (start + 1)
      refine ⟨value :: values, ?_, by simp [hlength], ?_⟩
      · rw [List.map_cons, evaluateAll, bind_of_eq_ok (evaluateArgument_eq_ok hvalue),
          bind_of_eq_ok hall]
        rfl
      · rw [hargs, numbered, List.map_cons, List.foldl_cons, ← Arguments.push_eq_after]

/-- An error about an argument is reported at the child with its number, before
whatever else the function has to say. -/
theorem Invokes.argument_error {callee : Node} {arguments : List Node} {scope : Scope}
    {m m' : Machine φ} {body : φ} {args : Arguments}
    (h : Invokes callee arguments scope m body args m') {id k : Nat} {message : String}
    (herror : (Host.call body m'.arena args).1.argumentErrors[k]? = some (id, message))
    {node : Node} (hnode : arguments[id]? = some node) (location : Location)
    (text? : Option String) :
    ∃ (errors : List RuntimeError) (m'' : Machine φ),
      evaluate ⟨.call, location, text?, callee :: arguments⟩ scope m = .error errors m'' ∧
      errors[k]? = some ⟨.argument message, node.location⟩ := by
  have hfailed : ¬ (Host.call body m'.arena args).1.isSuccess = true := by
    intro hsuccess
    have hnil : (Host.call body m'.arena args).1.argumentErrors = [] := by
      simpa using (Bool.and_eq_true_iff.mp hsuccess).2
    rw [hnil] at herror
    cases herror
  have hplace : (arguments.map (·.location)).getD id location = node.location := by
    rw [List.getD_eq_getElem?_getD, List.getElem?_map, hnode]
    rfl
  have hrun := h.evaluate_eq location text?
  rw [invoke_apply, if_neg hfailed] at hrun
  refine ⟨_, _, hrun, ?_⟩
  have hlt := (List.getElem?_eq_some_iff.mp herror).1
  rw [replyErrors, List.getElem?_append_left (by simpa using hlt), List.getElem?_map, herror,
    Option.map_some, hplace]

/-- When a call comes to calling a function, its children were evaluated from
left to right, and of their values the function gets those without a keyword in
order and the first of each keyword in order. What it gets under a number is the
value of the child at that index, and an error about it is reported at that
child. -/
theorem argument_errors_at_their_children {callee : Node} {arguments : List Node} {scope : Scope}
    {m m' : Machine φ} {body : φ} {args : Arguments}
    (h : Invokes callee arguments scope m body args m') :
    ∃ handle m₁ values, evaluate callee scope m = .ok handle m₁ ∧
      m₁.arena.asFunction handle = .ok body ∧
      evaluateAll (arguments.map Node.given) scope m₁ = .ok values m' ∧
      values.length = arguments.length ∧
      (∀ (i : Nat) (node : Node), arguments[i]? = some node → ∃ value m₂ m₃,
        evaluateAll ((arguments.take i).map Node.given) scope m₁ = .ok (values.take i) m₂ ∧
        evaluate node.given scope m₂ = .ok value m₃ ∧ values[i]? = some value ∧
        evaluateAll ((arguments.drop (i + 1)).map Node.given) scope m₃ =
          .ok (values.drop (i + 1)) m') ∧
      args.Holds (numbered 0 arguments values) ∧
      (∀ name, args.getKeyword name =
        match (numbered 0 arguments values).find? (IsNamed name) with
          | some e => .ok e.2
          | none => .error (.missingKeyword name)) ∧
      ∀ arg ∈ args.seen, ∃ node, arguments[arg.id]? = some node ∧
        values[arg.id]? = some arg.object ∧
        ∀ (location : Location) (text? : Option String) (k : Nat) (message : String),
          (Host.call body m'.arena args).1.argumentErrors[k]? = some (arg.id, message) →
          ∃ (errors : List RuntimeError) (m'' : Machine φ),
            evaluate ⟨.call, location, text?, callee :: arguments⟩ scope m = .error errors m'' ∧
            errors[k]? = some ⟨.argument message, node.location⟩ := by
  obtain ⟨handle, m₁, hcallee, hfunction, harguments⟩ := id h
  obtain ⟨values, hall, hlength, hargs⟩ := evaluateArguments_eq_ok harguments 0
  have hholds : args.Holds (numbered 0 arguments values) := by
    rw [hargs]
    exact Arguments.holds_ofPushes (numbered_numbered arguments values)
  refine ⟨handle, m₁, values, hcallee, hfunction, hall, hlength, fun i node hnode => ?_, hholds,
    hholds.getKeyword_eq, fun arg harg => ?_⟩
  · have hgiven : (arguments.map Node.given)[i]? = some node.given := by
      rw [List.getElem?_map, hnode]
      rfl
    simpa [List.map_take, List.map_drop] using evaluateAll_eq_ok_at hall hgiven
  · obtain ⟨e, he, rfl⟩ := hholds.exists_of_seen harg
    obtain ⟨i, hid, hnode, hvalue⟩ := mem_numbered he
    obtain rfl : i = e.2.id := by omega
    exact ⟨e.1, hnode, hvalue, fun location text? k message herror =>
      h.argument_error herror hnode location text?⟩

/-- The call `f("a" k="b" k="c" "d")` of a function that finds fault with every
argument it sees: of two with one keyword only the first, and the last one at
its own place although another was left out before it. -/
theorem argument_errors_at_their_children_repeated :
    let place (column : Nat) : Location :=
      ⟨.ofText "f(\"a\" k=\"b\" k=\"c\" \"d\")", ⟨column - 1, 0, 1, column⟩⟩
    let string (column : Nat) (text : String) : Node := ⟨.string, place column, some text, []⟩
    let callee : Node := ⟨.object, place 1, some "f", []⟩
    let arguments : List Node := [string 3 "a", ⟨.keyword, place 7, some "k", [string 9 "b"]⟩,
      ⟨.keyword, place 13, some "k", [string 15 "c"]⟩, string 19 "d"]
    let body : StockFunction := .reject (some "odd") (some "bad") ["no"]
    let m : Machine StockFunction := ⟨⟨#[.null, .function body]⟩, {}⟩
    let scope : Scope := .root ⟨[("f", ⟨1⟩)], by decide⟩
    ∃ args m', Invokes callee arguments scope m body args m' ∧
      args.positional = [⟨0, ⟨2⟩⟩, ⟨3, ⟨5⟩⟩] ∧ args.keyword = [("k", ⟨1, ⟨3⟩⟩)] ∧
      ∃ (errors : List RuntimeError) (m'' : Machine StockFunction),
        evaluate ⟨.call, place 1, none, callee :: arguments⟩ scope m = .error errors m'' ∧
        errors[1]? = some ⟨.argument "odd", place 19⟩ := by
  intro place string callee arguments body m scope
  let args : Arguments := ⟨[⟨0, ⟨2⟩⟩, ⟨3, ⟨5⟩⟩], [("k", ⟨1, ⟨3⟩⟩)], 4⟩
  let m' : Machine StockFunction :=
    ⟨⟨#[.null, .function body, .string "a", .string "b", .string "c", .string "d"]⟩, {}⟩
  have hinvokes : Invokes callee arguments scope m body args m' := ⟨⟨1⟩, m, rfl, rfl, rfl⟩
  obtain ⟨_, _, _, -, -, -, -, -, -, -, herrors⟩ := argument_errors_at_their_children hinvokes
  obtain ⟨node, hnode, -, hplaced⟩ := herrors ⟨3, ⟨5⟩⟩ (by decide)
  obtain rfl : string 19 "d" = node := Option.some.inj hnode
  exact ⟨args, m', hinvokes, rfl, rfl, hplaced (place 1) none 1 "odd" rfl⟩

end BuildScript
