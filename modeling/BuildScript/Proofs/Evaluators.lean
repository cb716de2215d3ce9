import Mathlib.Order.CompleteBooleanAlgebra
import Mathlib.Order.CompletePartialOrder
import BuildScript.Proofs.Arity
import BuildScript.Proofs.Ranges

/-!
Evaluators of one shape. They walk a tree in one way and differ in what they do
at its nodes, so that two of them whose actions stand in a relation stand in it
with every tree.
-/

namespace BuildScript

open Node

/-- The actions of an evaluator. The walk over a tree says in which order they
are taken and what they are given. -/
structure Evaluator (φ : Type) (M : Type → Type) where
  record : Event → M Unit
  lookUp : Location → Scope → String → M Handle
  attr : Location → Handle → String → M Handle
  entries : Location → Handle → M (List Handle)
  function : Location → Handle → M φ
  string : String → M Handle
  list : List Handle → M Handle
  /-- the struct an imported program comes to -/
  struct : Bindings → M Handle
  invoke : Location → List Location → φ → Arguments → M Handle
  assign : Location → Scope → String → Handle → M Scope
  /-- what is done with a node where no such node belongs -/
  unexpected {α : Type} : Location → NodeKind → M α

namespace Evaluator

variable {φ : Type} {M : Type → Type} [Monad M]

def each {α β : Type} (f : α → M β) : List α → M (List β)
  | [] => return []
  | a :: as => do
    let b ← f a
    let bs ← each f as
    return b :: bs

variable (E : Evaluator φ M)

def assignment (location : Location) (scope : Scope) (name : String) (value : M Handle) :
    M Scope := do
  E.record (.executing .assignment location)
  let handle ← value
  E.assign location scope name handle

def call (location : Location) (scope : Scope) (value : M Handle) : M Scope := do
  E.record (.executing .call location)
  let _ ← value
  return scope

def misplaced (location : Location) (kind : NodeKind) : M Scope := do
  E.record (.executing kind location)
  E.unexpected location kind

mutual

def value : Node → Scope → M Handle
  | ⟨.object, location, text?, []⟩, scope => E.lookUp location scope (text?.getD "")
  | ⟨.object, location, text?, owner :: _⟩, scope => do
    let handle ← value owner scope
    E.attr location handle (text?.getD "")
  | ⟨.string, _, text?, _⟩, _ => E.string (text?.getD "")
  | ⟨.list, _, _, entries⟩, scope => do
    let handles ← values entries scope
    E.list handles
  | ⟨.listFor, _, _, body :: element :: source :: _⟩, scope => do
    let list ← value source scope
    let handles ← E.entries source.location list
    let results ← each (fun h => value body (scope.withElement element.text h)) handles
    E.list results
  | ⟨.call, location, _, callee :: nodes⟩, scope => do
    let handle ← value callee scope
    let body ← E.function location handle
    let args ← arguments nodes scope .empty
    E.invoke location (nodes.map (·.location)) body args
  | ⟨.program, location, _, nodes⟩, _ => do
    E.record (.evaluatingImport location.source)
    let scope ← statements nodes .empty
    E.struct scope.bindings
  | ⟨kind, location, _, _⟩, _ => E.unexpected location kind

def values : List Node → Scope → M (List Handle)
  | [], _ => return []
  | n :: ns, scope => do
    let handle ← value n scope
    let handles ← values ns scope
    return handle :: handles

def arguments : List Node → Scope → Arguments → M Arguments
  | [], _, args => return args
  | ⟨.keyword, location, _, []⟩ :: _, _, _ => E.unexpected location .keyword
  | ⟨.keyword, _, text?, n :: _⟩ :: ns, scope, args => do
    let handle ← value n scope
    arguments ns scope (args.pushKeyword (text?.getD "") handle)
  | n :: ns, scope, args => do
    let handle ← value n scope
    arguments ns scope (args.pushPositional handle)

def statements : List Node → Scope → M Scope
  | [], scope => return scope
  | ⟨.assignment, location, _, target :: n :: _⟩ :: ns, scope => do
    let scope ← E.assignment location scope target.text (value n scope)
    statements ns scope
  | ⟨.call, location, text?, children⟩ :: ns, scope => do
    let scope ← E.call location scope (value ⟨.call, location, text?, children⟩ scope)
    statements ns scope
  | ⟨kind, location, _, _⟩ :: ns, _ => do
    let scope ← E.misplaced location kind
    statements ns scope

end

def statement : Node → Scope → M Scope
  | ⟨.assignment, location, _, target :: n :: _⟩, scope =>
    E.assignment location scope target.text (E.value n scope)
  | ⟨.call, location, text?, children⟩, scope =>
    E.call location scope (E.value ⟨.call, location, text?, children⟩ scope)
  | ⟨kind, location, _, _⟩, _ => E.misplaced location kind

theorem statements_cons (node : Node) (nodes : List Node) (scope : Scope) :
    E.statements (node :: nodes) scope = E.statement node scope >>= E.statements nodes := by
  unfold statement
  split
  · rw [statements]
  · rw [statements]
  · rename_i hassignment hcall
    rw [statements]
    · exact hassignment
    · exact hcall

end Evaluator

/-- Whether a tree may be evaluated in a place: any tree, where unexpected nodes
are tolerated, and else the well-shaped trees that belong there. -/
def Suits (tolerant : Prop) (isPlaced : NodeKind → Prop) (node : Node) : Prop :=
  tolerant ∨ node.WellShaped ∧ isPlaced node.kind

section Suits

variable {tolerant : Prop} {isPlaced isPlaced' : NodeKind → Prop} {node below : Node}

theorem Suits.child (h : Suits tolerant isPlaced node) (hchild : below ∈ node.children)
    (hobeys : node.Obeys → isPlaced' below.kind) : Suits tolerant isPlaced' below := by
  rcases h with htolerant | ⟨hshape, -⟩
  · exact .inl htolerant
  · exact .inr ⟨hshape.child hchild, hobeys hshape.obeys⟩

theorem Suits.unexpected (h : Suits tolerant isPlaced node)
    (hnot : node.Obeys → isPlaced node.kind → False) : tolerant := by
  rcases h with htolerant | ⟨hshape, hplaced⟩
  · exact htolerant
  · exact (hnot hshape.obeys hplaced).elim

variable {location : Location} {text? : Option String}

theorem Suits.assigned {target value : Node} {others : List Node}
    (h : Suits tolerant IsStatement ⟨.assignment, location, text?, target :: value :: others⟩) :
    Suits tolerant (·.isValue = true) value := by
  refine h.child (by simp) ?_
  rintro ⟨_, value', hchildren, -, hkind⟩
  obtain ⟨rfl, rfl, -⟩ : _ ∧ value = value' ∧ _ := by simpa using hchildren
  exact hkind

theorem Suits.called {children : List Node}
    (h : Suits tolerant IsStatement ⟨.call, location, text?, children⟩) :
    Suits tolerant (·.isValue = true) ⟨.call, location, text?, children⟩ :=
  h.imp id fun hshape => ⟨hshape.1, rfl⟩

theorem Suits.misplaced {kind : NodeKind} {children : List Node}
    (h : Suits tolerant IsStatement ⟨kind, location, text?, children⟩)
    (hassignment : ∀ target value others, kind = .assignment →
      children = target :: value :: others → False) (hcall : kind = .call → False) : tolerant := by
  refine h.unexpected fun hobeys hkind => ?_
  rcases hkind with rfl | rfl
  · obtain ⟨target, value, hchildren, -⟩ := hobeys
    exact hassignment target value [] rfl hchildren
  · exact hcall rfl

end Suits

/-- A relation between the actions of two evaluators. A world is what is known
of their machines; it says which handles may be used and which functions may be
called, and whatever holds in it still holds in the worlds that come after. -/
structure Simulation {φ : Type} {M N : Type → Type} [Monad M] [Monad N] (E : Evaluator φ M)
    (E' : Evaluator φ N) (W : Type) [Preorder W] where
  /-- What two evaluations from a world on have in common, if what is then known
  of their value is to be `Q`. -/
  Rel {α : Type} : W → (W → α → Prop) → M α → N α → Prop
  Holds : W → Handle → Prop
  Calls : W → φ → Prop
  Tolerant : Prop
  holds_mono {w w' : W} {h : Handle} : w ≤ w' → Holds w h → Holds w' h
  calls_mono {w w' : W} {body : φ} : w ≤ w' → Calls w body → Calls w' body
  pure {α : Type} {w : W} {Q : W → α → Prop} {a : α} (h : ∀ w', w ≤ w' → Q w' a) :
    Rel w Q (pure a) (pure a)
  bind {α β : Type} {w : W} {Q : W → α → Prop} {R : W → β → Prop} {p : M α} {p' : N α}
    {f : α → M β} {f' : α → N β} (hp : Rel w Q p p')
    (hf : ∀ w' a, w ≤ w' → Q w' a → Rel w' R (f a) (f' a)) : Rel w R (p >>= f) (p' >>= f')
  record (w : W) (e : Event) : Rel w (fun _ _ => True) (E.record e) (E'.record e)
  lookUp {w : W} {scope : Scope} (hscope : ∀ h ∈ scope.handles, Holds w h) (location : Location)
    (name : String) : Rel w Holds (E.lookUp location scope name) (E'.lookUp location scope name)
  attr {w : W} {handle : Handle} (h : Holds w handle) (location : Location) (name : String) :
    Rel w Holds (E.attr location handle name) (E'.attr location handle name)
  entries {w : W} {handle : Handle} (h : Holds w handle) (location : Location) :
    Rel w (fun w handles => ∀ h ∈ handles, Holds w h) (E.entries location handle)
      (E'.entries location handle)
  function {w : W} {handle : Handle} (h : Holds w handle) (location : Location) :
    Rel w Calls (E.function location handle) (E'.function location handle)
  string (w : W) (text : String) : Rel w Holds (E.string text) (E'.string text)
  list {w : W} {handles : List Handle} (h : ∀ h ∈ handles, Holds w h) :
    Rel w Holds (E.list handles) (E'.list handles)
  struct {w : W} {b : Bindings} (h : ∀ h ∈ b.handles, Holds w h) :
    Rel w Holds (E.struct b) (E'.struct b)
  invoke {w : W} {body : φ} {args : Arguments} (hbody : Calls w body)
    (hargs : ∀ h ∈ args.handles, Holds w h) (location : Location) (places : List Location) :
    Rel w Holds (E.invoke location places body args) (E'.invoke location places body args)
  assign {w : W} {scope : Scope} {value : Handle} (hscope : ∀ h ∈ scope.handles, Holds w h)
    (hvalue : Holds w value) (location : Location) (name : String) :
    Rel w (fun w scope => ∀ h ∈ scope.handles, Holds w h) (E.assign location scope name value)
      (E'.assign location scope name value)
  unexpected {α : Type} (w : W) (Q : W → α → Prop) (h : Tolerant) (location : Location)
    (kind : NodeKind) : Rel w Q (E.unexpected location kind) (E'.unexpected location kind)

namespace Simulation

open Evaluator

variable {φ W : Type} {M N : Type → Type} [Monad M] [Monad N] [Preorder W] {E : Evaluator φ M}
  {E' : Evaluator φ N} (S : Simulation E E' W) {w w' : W} {scope : Scope}

def HoldsAll (w : W) (handles : List Handle) : Prop := ∀ h ∈ handles, S.Holds w h

def Binds (w : W) (scope : Scope) : Prop := S.HoldsAll w scope.handles

variable {S}

theorem HoldsAll.mono {handles : List Handle} (h : S.HoldsAll w handles) (hw : w ≤ w') :
    S.HoldsAll w' handles :=
  fun handle hhandle => S.holds_mono hw (h handle hhandle)

theorem HoldsAll.nil : S.HoldsAll w [] := fun _ h => by cases h

theorem HoldsAll.cons {handle : Handle} {handles : List Handle} (hhandle : S.Holds w handle)
    (h : S.HoldsAll w handles) : S.HoldsAll w (handle :: handles) :=
  List.forall_mem_cons.mpr ⟨hhandle, h⟩

theorem HoldsAll.subset {handles handles' : List Handle} (h : S.HoldsAll w handles)
    (hsub : handles' ⊆ handles) : S.HoldsAll w handles' :=
  fun handle hhandle => h handle (hsub hhandle)

theorem Binds.withElement {h : Handle} (hscope : S.Binds w scope) (hhandle : S.Holds w h)
    (name : String) : S.Binds w (scope.withElement name h) := by
  rw [Binds, Scope.handles_withElement]
  exact .cons hhandle hscope

variable (S)

theorem each {f : Handle → M Handle} {f' : Handle → N Handle} {handles : List Handle}
    (hhandles : S.HoldsAll w handles)
    (hf : ∀ w' h, w ≤ w' → S.Holds w' h → S.Rel w' S.Holds (f h) (f' h)) :
    S.Rel w S.HoldsAll (Evaluator.each f handles) (Evaluator.each f' handles) := by
  induction handles generalizing w with
  | nil => exact S.pure fun w' _ => .nil
  | cons handle handles ih =>
      obtain ⟨hfirst, hothers⟩ := List.forall_mem_cons.mp hhandles
      refine S.bind (hf w handle (le_refl w) hfirst) fun w₁ first hw hfirst => ?_
      refine S.bind (ih (HoldsAll.mono hothers hw) fun w₂ h hw₂ => hf w₂ h (le_trans hw hw₂))
        fun w₂ others hw₂ hothers => ?_
      exact S.pure fun w₃ hw₃ =>
        .cons (S.holds_mono (le_trans hw₂ hw₃) hfirst) (HoldsAll.mono hothers hw₃)

theorem assignment {value : M Handle} {value' : N Handle} (hscope : S.Binds w scope)
    (hvalue : ∀ w', w ≤ w' → S.Binds w' scope → S.Rel w' S.Holds value value')
    (location : Location) (name : String) :
    S.Rel w S.Binds (E.assignment location scope name value)
      (E'.assignment location scope name value') := by
  refine S.bind (S.record w _) fun w₁ _ hw₁ _ => ?_
  refine S.bind (hvalue w₁ hw₁ (hscope.mono hw₁)) fun w₂ handle hw₂ hhandle => ?_
  exact S.assign (hscope.mono (le_trans hw₁ hw₂)) hhandle location name

theorem call {value : M Handle} {value' : N Handle} (hscope : S.Binds w scope)
    (hvalue : ∀ w', w ≤ w' → S.Binds w' scope → S.Rel w' S.Holds value value')
    (location : Location) :
    S.Rel w S.Binds (E.call location scope value) (E'.call location scope value') := by
  refine S.bind (S.record w _) fun w₁ _ hw₁ _ => ?_
  refine S.bind (hvalue w₁ hw₁ (hscope.mono hw₁)) fun w₂ _ hw₂ _ => ?_
  exact S.pure fun w₃ hw₃ => hscope.mono (le_trans hw₁ (le_trans hw₂ hw₃))

theorem misplaced (h : S.Tolerant) (w : W) (location : Location) (kind : NodeKind) :
    S.Rel w S.Binds (E.misplaced location kind) (E'.misplaced location kind) :=
  S.bind (S.record w _) fun w₁ _ _ _ => S.unexpected w₁ _ h location kind

private theorem walk :
    (∀ (node : Node) (scope : Scope), ∀ w, Suits S.Tolerant (·.isValue = true) node →
      S.Binds w scope →
      S.Rel w S.Holds (E.value node scope) (E'.value node scope)) ∧
    (∀ (nodes : List Node) (scope : Scope), ∀ w,
      (∀ node ∈ nodes, Suits S.Tolerant IsStatement node) → S.Binds w scope →
      S.Rel w S.Binds (E.statements nodes scope)
        (E'.statements nodes scope)) ∧
    (∀ (nodes : List Node) (scope : Scope) (args : Arguments), ∀ w,
      (∀ node ∈ nodes, Suits S.Tolerant IsArgument node) → S.Binds w scope →
      S.HoldsAll w args.handles →
      S.Rel w (fun w args => S.HoldsAll w args.handles) (E.arguments nodes scope args)
        (E'.arguments nodes scope args)) ∧
    (∀ (nodes : List Node) (scope : Scope), ∀ w,
      (∀ node ∈ nodes, Suits S.Tolerant (·.isValue = true) node) → S.Binds w scope →
      S.Rel w S.HoldsAll (E.values nodes scope) (E'.values nodes scope)) := by
  -- that the nodes below are where they may be is read off the shape of the node
  apply value.mutual_induct
  case case1 =>
    intro location text? scope w _ hscope
    rw [value, value]
    exact S.lookUp hscope location _
  case case2 =>
    intro location text? owner others scope ih w h hscope
    rw [value, value]
    refine S.bind (ih w (h.child (List.mem_cons_self ..) ?_) hscope) fun w₁ handle _ hhandle =>
      S.attr hhandle location _
    rintro ⟨-, hnil | ⟨owner', hchildren, hkind⟩⟩
    · cases hnil
    · obtain ⟨rfl, -⟩ := List.cons.inj hchildren
      rw [hkind]
      rfl
  case case3 =>
    intro location text? children scope w _ _
    rw [value, value]
    exact S.string w _
  case case4 =>
    intro location text? entries scope ih w h hscope
    rw [value, value]
    refine S.bind (ih w ?_ hscope) fun w₁ handles _ hhandles => S.list hhandles
    exact fun entry hentry => h.child hentry fun hobeys => hobeys entry hentry
  case case5 =>
    intro location text? body element source others scope ihSource ihBody w h hscope
    have hsource : Suits S.Tolerant (·.isValue = true) source := by
      refine h.child (by simp) ?_
      rintro ⟨_, _, source', hchildren, -, -, hkind⟩
      obtain ⟨rfl, rfl, rfl, -⟩ : _ ∧ _ ∧ source = source' ∧ _ := by simpa using hchildren
      exact hkind
    have hbody : Suits S.Tolerant (·.isValue = true) body := by
      refine h.child (by simp) ?_
      rintro ⟨body', _, _, hchildren, hkind, -, -⟩
      obtain ⟨rfl, -⟩ := List.cons.inj hchildren
      exact hkind
    rw [value, value]
    refine S.bind (ihSource w hsource hscope) fun w₁ list hw₁ hlist => ?_
    refine S.bind (S.entries hlist _) fun w₂ handles hw₂ hhandles => ?_
    refine S.bind (S.each hhandles fun w₃ handle hw₃ hhandle => ihBody handle w₃ hbody ?_)
      fun w₃ results _ hresults => S.list hresults
    exact Binds.withElement (hscope.mono (le_trans hw₁ (le_trans hw₂ hw₃))) hhandle _
  case case6 =>
    intro location text? callee nodes scope ihCallee ihArguments w h hscope
    have hcallee : Suits S.Tolerant (·.isValue = true) callee := by
      refine h.child (by simp) ?_
      rintro ⟨callee', _, hchildren, hkind, -⟩
      obtain ⟨rfl, -⟩ := List.cons.inj hchildren
      rw [hkind]
      rfl
    have harguments : ∀ argument ∈ nodes, Suits S.Tolerant IsArgument argument := by
      intro argument hargument
      refine h.child (List.mem_cons_of_mem callee hargument) ?_
      rintro ⟨_, nodes', hchildren, -, hkinds⟩
      obtain ⟨-, rfl⟩ := List.cons.inj hchildren
      exact hkinds argument hargument
    rw [value, value]
    refine S.bind (ihCallee w hcallee hscope) fun w₁ handle hw₁ hhandle => ?_
    refine S.bind (S.function hhandle location) fun w₂ body hw₂ hbody => ?_
    refine S.bind (ihArguments w₂ harguments (hscope.mono (le_trans hw₁ hw₂)) .nil)
      fun w₃ args hw₃ hargs => ?_
    exact S.invoke (S.calls_mono hw₃ hbody) hargs location _
  case case7 =>
    intro location text? nodes scope ih w h _
    rw [value, value]
    refine S.bind (S.record w _) fun w₁ _ _ _ => S.bind (ih w₁ ?_ .nil) fun w₂ inner _ hinner =>
      S.struct (HoldsAll.subset hinner inner.bindings_handles_subset)
    exact fun statement hstatement =>
      h.child hstatement fun hobeys => hobeys.2 statement hstatement
  case case8 =>
    intro kind location text? children scope hobject hattr hstring hlist hlistFor hcall hprogram
      w h _
    have htolerant : S.Tolerant := by
      refine h.unexpected fun hobeys hvalue => ?_
      cases kind with
      | object =>
          cases children with
          | nil => exact hobject rfl rfl
          | cons owner others => exact hattr owner others rfl rfl
      | call =>
          obtain ⟨callee, arguments, hchildren, -⟩ := hobeys
          exact hcall callee arguments rfl hchildren
      | string => exact hstring rfl
      | list => exact hlist rfl
      | listFor =>
          obtain ⟨body, element, source, hchildren, -⟩ := hobeys
          exact hlistFor body element source [] rfl hchildren
      | program => exact hprogram rfl
      | _ => cases hvalue
    rw [value, value]
    · exact S.unexpected w _ htolerant location kind
    all_goals assumption
  case case9 =>
    intro scope w _ hscope
    rw [statements, statements]
    exact S.pure fun w' hw => hscope.mono hw
  case case10 =>
    intro location text? target n others nodes scope ihValue ihNodes w h hscope
    obtain ⟨hfirst, hrest⟩ := List.forall_mem_cons.mp h
    rw [statements, statements]
    exact S.bind (S.assignment hscope (fun w₁ _ => ihValue w₁ hfirst.assigned) _ _)
      fun w₁ scope' _ hscope' => ihNodes scope' w₁ hrest hscope'
  case case11 =>
    intro location text? children nodes scope ihCall ihNodes w h hscope
    obtain ⟨hfirst, hrest⟩ := List.forall_mem_cons.mp h
    rw [statements, statements]
    exact S.bind (S.call hscope (fun w₁ _ => ihCall w₁ hfirst.called) _)
      fun w₁ scope' _ hscope' => ihNodes scope' w₁ hrest hscope'
  case case12 =>
    intro kind location text? children nodes scope hassignment hcall ihNodes w h hscope
    obtain ⟨hfirst, hrest⟩ := List.forall_mem_cons.mp h
    rw [statements, statements]
    · exact S.bind (S.misplaced (hfirst.misplaced hassignment hcall) w _ _)
        fun w₁ scope' _ hscope' => ihNodes scope' w₁ hrest hscope'
    all_goals assumption
  case case13 =>
    intro scope args w _ _ hargs
    rw [arguments, arguments]
    exact S.pure fun w' hw => hargs.mono hw
  case case14 =>
    intro location text? nodes scope args w h _ _
    have htolerant : S.Tolerant := by
      refine (h _ (List.mem_cons_self ..)).unexpected ?_
      rintro ⟨-, value, hchildren, -⟩ _
      cases hchildren
    rw [arguments, arguments]
    exact S.unexpected w _ htolerant location _
  case case15 =>
    intro location text? n others nodes scope args ihValue ihNodes w h hscope hargs
    obtain ⟨hfirst, hrest⟩ := List.forall_mem_cons.mp h
    have hvalue : Suits S.Tolerant (·.isValue = true) n := by
      refine hfirst.child (by simp) ?_
      rintro ⟨-, value', hchildren, hkind⟩
      obtain ⟨rfl, -⟩ := List.cons.inj hchildren
      exact hkind
    rw [arguments, arguments]
    refine S.bind (ihValue w hvalue hscope) fun w₁ handle hw₁ hhandle => ?_
    refine ihNodes handle w₁ hrest (hscope.mono hw₁) (.subset (.cons hhandle (hargs.mono hw₁)) ?_)
    exact Arguments.handles_pushKeyword_subset (List.subset_cons_self _ _) List.mem_cons_self _
  case case16 =>
    intro node nodes scope args hempty hkeyword ihNode ihNodes w h hscope hargs
    obtain ⟨hfirst, hrest⟩ := List.forall_mem_cons.mp h
    have hvalue : Suits S.Tolerant (·.isValue = true) node := by
      rcases hfirst with htolerant | ⟨hshape, hkind | hkind⟩
      · exact .inl htolerant
      · rcases node with ⟨_, location, text?, children⟩
        obtain rfl : _ = NodeKind.keyword := hkind
        cases children with
        | nil => exact (hempty location text? rfl).elim
        | cons value others => exact (hkeyword location text? value others rfl).elim
      · exact .inr ⟨hshape, hkind⟩
    rw [arguments, arguments]
    · refine S.bind (ihNode w hvalue hscope) fun w₁ handle hw₁ hhandle => ?_
      refine ihNodes handle w₁ hrest (hscope.mono hw₁)
        (.subset (.cons hhandle (hargs.mono hw₁)) ?_)
      exact Arguments.handles_pushPositional_subset (List.subset_cons_self _ _) List.mem_cons_self
    all_goals assumption
  case case17 =>
    intro scope w _ _
    rw [values, values]
    exact S.pure fun w' _ => .nil
  case case18 =>
    intro node nodes scope ihNode ihNodes w h hscope
    obtain ⟨hfirst, hrest⟩ := List.forall_mem_cons.mp h
    rw [values, values]
    refine S.bind (ihNode w hfirst hscope) fun w₁ handle hw₁ hhandle => ?_
    refine S.bind (ihNodes w₁ hrest (hscope.mono hw₁)) fun w₂ handles hw₂ hhandles => ?_
    exact S.pure fun w₃ hw₃ =>
      .cons (S.holds_mono (le_trans hw₂ hw₃) hhandle) (HoldsAll.mono hhandles hw₃)

theorem value {node : Node} (h : Suits S.Tolerant (·.isValue = true) node)
    (hscope : S.Binds w scope) : S.Rel w S.Holds (E.value node scope) (E'.value node scope) :=
  S.walk.1 node scope w h hscope

theorem arguments {nodes : List Node} {args : Arguments}
    (h : ∀ node ∈ nodes, Suits S.Tolerant IsArgument node) (hscope : S.Binds w scope)
    (hargs : S.HoldsAll w args.handles) :
    S.Rel w (fun w args => S.HoldsAll w args.handles) (E.arguments nodes scope args)
      (E'.arguments nodes scope args) :=
  S.walk.2.2.1 nodes scope args w h hscope hargs

theorem statement {node : Node} (h : Suits S.Tolerant IsStatement node)
    (hscope : S.Binds w scope) :
    S.Rel w S.Binds (E.statement node scope) (E'.statement node scope) := by
  unfold Evaluator.statement
  split
  · exact S.assignment hscope (fun w' _ hscope => S.value h.assigned hscope) _ _
  · exact S.call hscope (fun w' _ hscope => S.value h.called hscope) _
  · rename_i hassignment hcall
    exact S.misplaced (h.misplaced hassignment hcall) w _ _

end Simulation

end BuildScript
