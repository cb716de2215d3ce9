import BuildScript.Proofs.Likeness
import BuildScript.Proofs.Throwing

namespace BuildScript

open Eval

variable {φ α β : Type}

/-- Two scopes that bind a name to handles that are alike, if both bind it. -/
def Compatible (a a' : Arena φ) (scope scope' : Scope) : Prop :=
  ∀ name h h', scope.get name = .ok h → scope'.get name = .ok h' → Alike a a' h h'

theorem Compatible.mono {a a' c c' : Arena φ} {scope scope' : Scope} (hc : c.Extends a)
    (hc' : c'.Extends a') (h : Compatible a a' scope scope') : Compatible c c' scope scope' :=
  fun name _ _ hget hget' => (h name _ _ hget hget').mono hc hc'

theorem Bindings.find?_add? {b b' : Bindings} {name : String} {handle : Handle}
    (h : b.add? name handle = some b') (other : String) :
    b'.find? other = if other = name then some handle else b.find? other := by
  obtain ⟨hfresh, hentries⟩ := entries_of_add? h
  rw [find?, hentries]
  exact lookup_concat hfresh handle other

theorem Scope.get_put {scope scope' : Scope} {name : String} {handle : Handle}
    (h : scope.put name handle = .ok scope') (other : String) :
    scope'.get other = if other = name then .ok handle else scope.get other := by
  cases hadd : scope.bindings.add? name handle with
  | none => simp [put, hadd] at h
  | some b =>
      cases scope with
      | root b₀ =>
          simp only [put, hadd] at h
          cases h
          rw [get, get, Bindings.find?_add? hadd]
          by_cases hname : other = name <;> simp [hname, bindings]
      | nested b₀ outer =>
          simp only [put, hadd] at h
          cases h
          rw [get, get, Bindings.find?_add? hadd]
          by_cases hname : other = name <;> simp [hname, bindings]

theorem Compatible.put {a a' : Arena φ} {scope scope' scope₁ scope₁' : Scope}
    (h : Compatible a a' scope scope') {name : String} {e e' : Handle} (he : Alike a a' e e')
    (hput : scope.put name e = .ok scope₁) (hput' : scope'.put name e' = .ok scope₁') :
    Compatible a a' scope₁ scope₁' := by
  intro other x x' hget hget'
  rw [Scope.get_put hput] at hget
  rw [Scope.get_put hput'] at hget'
  by_cases hname : other = name
  · rw [if_pos hname] at hget hget'
    cases hget
    cases hget'
    exact he
  · rw [if_neg hname] at hget hget'
    exact h other x x' hget hget'

theorem Compatible.withElement {a a' : Arena φ} {scope scope' : Scope}
    (h : Compatible a a' scope scope') {e e' : Handle} (he : Alike a a' e e') (name : String) :
    Compatible a a' (scope.withElement name e) (scope'.withElement name e') :=
  have hpush : Compatible a a' scope.push scope'.push := h
  hpush.put he rfl rfl

/-- Two root scopes with the same names, bound in the same order to handles
that are alike. -/
def AlikeScopes (a a' : Arena φ) (scope scope' : Scope) : Prop :=
  ∃ b b', scope = .root b ∧ scope' = .root b' ∧ AlikeEach a a' b.entries b'.entries

theorem Scope.get_root_eq_ok {b : Bindings} {name : String} {h : Handle} :
    (root b).get name = .ok h ↔ b.find? name = some h := by
  rw [get]
  cases b.find? name <;> simp

theorem AlikeScopes.compatible {a a' : Arena φ} {scope scope' : Scope}
    (h : AlikeScopes a a' scope scope') : Compatible a a' scope scope' := by
  obtain ⟨b, b', rfl, rfl, heach⟩ := h
  intro name x x' hget hget'
  exact Bindings.rel_of_find? heach (Scope.get_root_eq_ok.mp hget) (Scope.get_root_eq_ok.mp hget')

theorem Scope.put_root_eq_ok {b : Bindings} {name : String} {h : Handle} {scope : Scope}
    (hput : (root b).put name h = .ok scope) :
    ∃ b', scope = root b' ∧ name ∉ b.names ∧ b'.entries = b.entries ++ [(name, h)] := by
  cases hadd : b.add? name h with
  | none => simp [put, bindings, hadd] at hput
  | some b' =>
      simp only [put, bindings, hadd] at hput
      cases hput
      exact ⟨b', rfl, Bindings.entries_of_add? hadd⟩

theorem AlikeScopes.mono {a a' c c' : Arena φ} {scope scope' : Scope} (hc : c.Extends a)
    (hc' : c'.Extends a') (h : AlikeScopes a a' scope scope') : AlikeScopes c c' scope scope' := by
  obtain ⟨b, b', rfl, rfl, heach⟩ := h
  exact ⟨b, b', rfl, rfl, heach.mono hc hc'⟩

theorem AlikeScopes.put {a a' : Arena φ} {scope scope' scope₁ scope₁' : Scope}
    (halike : AlikeScopes a a' scope scope') {name : String} {h h' : Handle}
    (hvalue : Alike a a' h h') (hput : scope.put name h = .ok scope₁)
    (hput' : scope'.put name h' = .ok scope₁') : AlikeScopes a a' scope₁ scope₁' := by
  obtain ⟨b, b', rfl, rfl, heach⟩ := halike
  obtain ⟨c, rfl, -, hc⟩ := Scope.put_root_eq_ok hput
  obtain ⟨c', rfl, -, hc'⟩ := Scope.put_root_eq_ok hput'
  refine ⟨c, c', rfl, rfl, ?_⟩
  rw [hc, hc']
  exact List.rel_append heach (.cons ⟨rfl, hvalue⟩ .nil)

structure AlikeArguments (a a' : Arena φ) (args args' : Arguments) : Prop where
  positional : List.Forall₂ (fun arg arg' => Alike a a' arg.object arg'.object)
    args.positional args'.positional
  keyword : List.Forall₂ (fun e e' => e.1 = e'.1 ∧ Alike a a' e.2.object e'.2.object)
    args.keyword args'.keyword

namespace AlikeArguments

variable {a a' : Arena φ} {args args' : Arguments}

theorem mono {c c' : Arena φ} (hc : c.Extends a) (hc' : c'.Extends a')
    (h : AlikeArguments a a' args args') : AlikeArguments c c' args args' :=
  ⟨h.positional.imp fun _ _ he => he.mono hc hc',
    h.keyword.imp fun _ _ he => ⟨he.1, he.2.mono hc hc'⟩⟩

theorem pushPositional (halike : AlikeArguments a a' args args') {h h' : Handle}
    (hvalue : Alike a a' h h') :
    AlikeArguments a a' (args.pushPositional h) (args'.pushPositional h') :=
  ⟨List.rel_append halike.positional (.cons hvalue .nil), halike.keyword⟩

theorem pushKeyword (halike : AlikeArguments a a' args args') {h h' : Handle}
    (hvalue : Alike a a' h h') (name : String) :
    AlikeArguments a a' (args.pushKeyword name h) (args'.pushKeyword name h') := by
  have hnames : args.keyword.map Prod.fst = args'.keyword.map Prod.fst :=
    map_eq_of_forall₂ (halike.keyword.imp fun _ _ he => he.1)
  unfold Arguments.pushKeyword
  rw [← hnames]
  split
  · exact ⟨halike.positional, halike.keyword⟩
  · exact ⟨halike.positional, List.rel_append halike.keyword (.cons ⟨rfl, hvalue⟩ .nil)⟩

end AlikeArguments

/-- A host whose functions depend on how their arguments are built, not on the
handles. A call that goes well loses no objects. -/
class StructuralHost (φ : Type) [Host φ] : Prop where
  call_extends : ∀ (body : φ) (a : Arena φ) (args : Arguments),
    (Host.call body a args).1.isSuccess = true → (Host.call body a args).2.Extends a
  call_alike : ∀ (body : φ) (a a' : Arena φ) (args args' : Arguments),
    AlikeArguments a a' args args' → (Host.call body a args).1.isSuccess = true →
    (Host.call body a' args').1.isSuccess = true →
    Alike (Host.call body a args).2 (Host.call body a' args').2
      (Host.call body a args).1.value (Host.call body a' args').1.value

/-- Two evaluations that lose no objects and whose values are related, if both
have one. They begin with the arenas `a` and `a'`. -/
def Parallel (R : Arena φ → Arena φ → α → α → Prop) (a a' : Arena φ) (p p' : Eval φ α) : Prop :=
  ∀ (m m' m₁ m₁' : Machine φ) (x x' : α), m.arena = a → m'.arena = a' → p m = .ok x m₁ →
    p' m' = .ok x' m₁' →
    m₁.arena.Extends a ∧ m₁'.arena.Extends a' ∧ R m₁.arena m₁'.arena x x'

namespace Parallel

variable {R : Arena φ → Arena φ → α → α → Prop} {a a' : Arena φ}

theorem pure {x x' : α} (h : R a a' x x') :
    Parallel R a a' (Pure.pure x : Eval φ α) (Pure.pure x') := by
  rintro m m' _ _ _ _ rfl rfl hx hx'
  cases hx
  cases hx'
  exact ⟨.refl _, .refl _, h⟩

theorem fail (location : Location) (fault : RuntimeFault) (p' : Eval φ α) :
    Parallel R a a' (Eval.fail location fault) p' := by
  intro _ _ _ _ _ _ _ _ hx
  cases hx

theorem record (e e' : Event) :
    Parallel (fun _ _ _ _ => True) a a' (Eval.record e : Eval φ Unit) (Eval.record e') := by
  rintro m m' _ _ _ _ rfl rfl hx hx'
  cases hx
  cases hx'
  exact ⟨.refl _, .refl _, trivial⟩

theorem bind {S : Arena φ → Arena φ → β → β → Prop} {p p' : Eval φ α} {f f' : α → Eval φ β}
    (hp : Parallel R a a' p p')
    (hf : ∀ {c c' x x'}, c.Extends a → c'.Extends a' → R c c' x x' →
      Parallel S c c' (f x) (f' x')) : Parallel S a a' (p >>= f) (p' >>= f') := by
  intro m m' m₂ m₂' y y' ha ha' hy hy'
  obtain ⟨x, m₁, hx, hy⟩ := bind_eq_ok hy
  obtain ⟨x', m₁', hx', hy'⟩ := bind_eq_ok hy'
  obtain ⟨hextends, hextends', hR⟩ := hp _ _ _ _ _ _ ha ha' hx hx'
  obtain ⟨hlater, hlater', hS⟩ := hf hextends hextends' hR _ _ _ _ _ _ rfl rfl hy hy'
  exact ⟨hlater.trans hextends, hlater'.trans hextends', hS⟩

theorem create {R : Arena φ → Arena φ → Handle → Handle → Prop} {object object' : Object φ}
    (h : R (a.create object).2 (a'.create object').2 (a.create object).1 (a'.create object').1) :
    Parallel R a a' (Eval.create object) (Eval.create object') := by
  rintro m m' _ _ _ _ rfl rfl hx hx'
  obtain ⟨rfl, harena⟩ := create_eq_ok hx
  obtain ⟨rfl, harena'⟩ := create_eq_ok hx'
  rw [harena, harena']
  exact ⟨Arena.extends_create _ _, Arena.extends_create _ _, h⟩

theorem inspect (location location' : Location) {ask ask' : Arena φ → Except ObjectError α}
    (h : ∀ {x x'}, ask a = .ok x → ask' a' = .ok x' → R a a' x x') :
    Parallel R a a' (Eval.inspect location ask) (Eval.inspect location' ask') := by
  rintro m m' _ _ _ _ rfl rfl hx hx'
  obtain ⟨hask, rfl⟩ := inspect_eq_ok hx
  obtain ⟨hask', rfl⟩ := inspect_eq_ok hx'
  exact ⟨.refl _, .refl _, h hask hask'⟩

theorem lookUp (location location' : Location) {scope scope' : Scope}
    (h : Compatible a a' scope scope') (name : String) :
    Parallel Alike a a' (Eval.lookUp location scope name) (Eval.lookUp location' scope' name) := by
  rintro m m' _ _ _ _ rfl rfl hx hx'
  obtain ⟨hget, rfl⟩ := lookUp_eq_ok hx
  obtain ⟨hget', rfl⟩ := lookUp_eq_ok hx'
  exact ⟨.refl _, .refl _, h name _ _ hget hget'⟩

theorem assign (location location' : Location) {scope scope' : Scope}
    (h : AlikeScopes a a' scope scope') {value value' : Handle} (hvalue : Alike a a' value value')
    (name : String) :
    Parallel AlikeScopes a a' (Eval.assign location scope name value)
      (Eval.assign location' scope' name value') := by
  rintro m m' _ _ _ _ rfl rfl hx hx'
  obtain ⟨hput, rfl⟩ := assign_eq_ok hx
  obtain ⟨hput', rfl⟩ := assign_eq_ok hx'
  exact ⟨.refl _, .refl _, h.put hvalue hput hput'⟩

theorem invoke [Host φ] [StructuralHost φ] (location location' : Location)
    (places places' : List Location) (body : φ) {args args' : Arguments}
    (h : AlikeArguments a a' args args') :
    Parallel Alike a a' (Eval.invoke location places body args)
      (Eval.invoke location' places' body args') := by
  rintro m m' _ _ _ _ rfl rfl hx hx'
  obtain ⟨hsuccess, rfl, harena⟩ := invoke_eq_ok hx
  obtain ⟨hsuccess', rfl, harena'⟩ := invoke_eq_ok hx'
  rw [harena, harena']
  exact ⟨StructuralHost.call_extends body _ args hsuccess,
    StructuralHost.call_extends body _ args' hsuccess',
    StructuralHost.call_alike body _ _ args args' h hsuccess hsuccess'⟩

theorem mapM {f f' : Handle → Eval φ Handle} {hs hs' : List Handle} (h : AlikeAll a a' hs hs')
    (hf : ∀ {c c' e e'}, c.Extends a → c'.Extends a' → Alike c c' e e' →
      Parallel Alike c c' (f e) (f' e')) :
    Parallel AlikeAll a a' (hs.mapM f) (hs'.mapM f') := by
  -- the arenas grow from one element to the next
  induction hs generalizing hs' a a' with
  | nil =>
      cases h
      exact pure .nil
  | cons e hs ih =>
      cases h with
      | cons hfirst hrest =>
          rw [List.mapM_cons, List.mapM_cons]
          refine bind (hf (.refl a) (.refl a') hfirst) fun hc hc' hvalue => ?_
          refine bind (ih (AlikeAll.mono hc hc' hrest) fun hd hd' =>
            hf (hd.trans hc) (hd'.trans hc')) ?_
          exact fun hd hd' hvalues => pure (.cons (hvalue.mono hd hd') hvalues)

end Parallel

def ParallelRuns (a a' : Arena φ) (i i' : Interpretation φ) : Prop :=
  i.errors = [] → i'.errors = [] →
    i.machine.arena.Extends a ∧ i'.machine.arena.Extends a' ∧
      AlikeScopes i.machine.arena i'.machine.arena i.scope i'.scope

theorem ParallelRuns.cons [Host φ] {node : Node} {nodes : List Node} {scope scope' : Scope}
    {m m' : Machine φ}
    (hnode : Parallel AlikeScopes m.arena m'.arena (executeStatement node scope)
      (executeStatement node scope'))
    (hnodes : ∀ (s : Scope) (m : Machine φ) (s' : Scope) (m' : Machine φ),
      AlikeScopes m.arena m'.arena s s' →
      ParallelRuns m.arena m'.arena (execute nodes s m) (execute nodes s' m')) :
    ParallelRuns m.arena m'.arena (execute (node :: nodes) scope m)
      (execute (node :: nodes) scope' m') := by
  intro herrors herrors'
  obtain ⟨s, m₁, hstatement, hrest⟩ := execute_cons_eq herrors
  obtain ⟨s', m₁', hstatement', hrest'⟩ := execute_cons_eq herrors'
  obtain ⟨hextends, hextends', halike⟩ := hnode _ _ _ _ _ _ rfl rfl hstatement hstatement'
  rw [hrest] at herrors ⊢
  rw [hrest'] at herrors' ⊢
  obtain ⟨hlater, hlater', hfinal⟩ := hnodes s m₁ s' m₁' halike herrors herrors'
  exact ⟨hlater.trans hextends, hlater'.trans hextends', hfinal⟩

variable [Host φ] [StructuralHost φ]

private theorem parallel_evaluation :
    (∀ (node : Node) (scope : Scope) (scope' : Scope) (a a' : Arena φ),
      Compatible a a' scope scope' →
      Parallel Alike a a' (evaluate node scope) (evaluate node scope')) ∧
    (∀ (nodes : List Node) (scope : Scope) (m : Machine φ) (scope' : Scope) (m' : Machine φ),
      AlikeScopes m.arena m'.arena scope scope' →
      ParallelRuns m.arena m'.arena (execute nodes scope m) (execute nodes scope' m')) ∧
    (∀ (nodes : List Node) (scope : Scope) (args : Arguments) (scope' : Scope) (args' : Arguments)
      (a a' : Arena φ), Compatible a a' scope scope' → AlikeArguments a a' args args' →
      Parallel AlikeArguments a a' (evaluateArguments nodes scope args)
        (evaluateArguments nodes scope' args')) ∧
    ∀ (nodes : List Node) (scope : Scope) (scope' : Scope) (a a' : Arena φ),
      Compatible a a' scope scope' →
      Parallel AlikeAll a a' (evaluateAll nodes scope) (evaluateAll nodes scope') := by
  -- the arenas have different handles; it is the names bound on both sides that agree
  apply evaluate.mutual_induct
  case case1 =>
    intro location text? scope scope' a a' hscope
    rw [evaluate, evaluate]
    exact .lookUp location location hscope _
  case case2 =>
    intro location text? owner others scope ih scope' a a' hscope
    rw [evaluate, evaluate]
    refine .bind (ih scope' a a' hscope) fun _ _ hvalue => ?_
    exact .inspect location location fun hattr hattr' => hvalue.attr_alike hattr hattr'
  case case3 =>
    intro location text? children scope scope' a a' hscope
    rw [evaluate, evaluate]
    exact .create (alike_create_string a a' _)
  case case4 =>
    intro location text? entries scope ih scope' a a' hscope
    rw [evaluate, evaluate]
    exact .bind (ih scope' a a' hscope) fun _ _ hvalues => .create (alike_create_list hvalues)
  case case5 =>
    intro location text? body element source others scope ihSource ihBody scope' a a' hscope
    rw [evaluate, evaluate]
    refine .bind (ihSource scope' a a' hscope) fun hc hc' hlist => ?_
    refine .bind (.inspect _ _ fun hentries hentries' =>
      hlist.asList_alike hentries hentries') fun hd hd' hhandles => ?_
    refine .bind (.mapM hhandles fun he he' helement => ?_) fun _ _ hresults =>
      .create (alike_create_list hresults)
    have hscope' := hscope.mono (he.trans (hd.trans hc)) (he'.trans (hd'.trans hc'))
    exact ihBody _ _ _ _ (hscope'.withElement helement _)
  case case6 =>
    intro location text? callee arguments scope ihCallee ihArguments scope' a a' hscope
    rw [evaluate, evaluate]
    refine .bind (ihCallee scope' a a' hscope) fun hc hc' hcallee => ?_
    refine .bind (R := fun _ _ body body' => body = body')
      (.inspect location location fun hbody hbody' => ?_) fun hd hd' hbody => ?_
    · rw [hcallee.asFunction_eq, hbody'] at hbody
      cases hbody
      rfl
    · subst hbody
      have hscope' := hscope.mono (hd.trans hc) (hd'.trans hc')
      refine .bind (ihArguments _ _ _ _ hscope' ⟨.nil, .nil⟩) fun _ _ hargs => ?_
      exact .invoke location location _ _ _ hargs
  case case7 =>
    intro location text? statements scope ih scope' a a' hscope
    rw [evaluate, evaluate]
    refine .bind (.record _ _) fun hc hc' _ => .bind (R := AlikeScopes) ?_ fun _ _ halike => ?_
    · rintro m m' _ _ _ _ rfl rfl hfinish hfinish'
      obtain ⟨herrors, rfl, rfl⟩ := Interpretation.finish_eq_ok hfinish
      obtain ⟨herrors', rfl, rfl⟩ := Interpretation.finish_eq_ok hfinish'
      exact ih m _ m' ⟨.empty, .empty, rfl, rfl, .nil⟩ herrors herrors'
    · obtain ⟨b, b', rfl, rfl, heach⟩ := halike
      exact .create (alike_create_struct heach)
  case case8 =>
    intro kind location text? children scope hobject hattribute hstring hlist hlistFor hcall
      hprogram scope' a a' hscope
    rw [evaluate]
    · exact .fail location _ _
    · exact hobject
    · exact hattribute
    · exact hstring
    · exact hlist
    · exact hlistFor
    · exact hcall
    · exact hprogram
  case case9 =>
    intro scope m scope' m' halike _ _
    rw [execute, execute]
    exact ⟨.refl _, .refl _, halike⟩
  case case10 =>
    intro location text? target value others nodes scope m ihValue ihNodes scope' m' halike
    refine .cons ?_ ihNodes
    rw [executeStatement, executeStatement]
    refine .bind (.record _ _) fun hc hc' _ => ?_
    refine .bind (ihValue _ _ _ (halike.mono hc hc').compatible) fun hd hd' hvalue => ?_
    exact .assign location location (halike.mono (hd.trans hc) (hd'.trans hc')) hvalue _
  case case11 =>
    intro location text? children nodes scope m ihCall ihNodes scope' m' halike
    refine .cons ?_ ihNodes
    rw [executeStatement, executeStatement]
    refine .bind (.record _ _) fun hc hc' _ => ?_
    refine .bind (ihCall _ _ _ (halike.mono hc hc').compatible) fun hd hd' _ => ?_
    exact .pure (halike.mono (hd.trans hc) (hd'.trans hc'))
  case case12 =>
    intro kind location text? children nodes scope m hassignment hcall ihNodes scope' m' halike
    refine .cons ?_ ihNodes
    rw [executeStatement, executeStatement]
    · exact .bind (.record _ _) fun _ _ _ => .fail location _ _
    · exact hassignment
    · exact hcall
    · exact hassignment
    · exact hcall
  case case13 =>
    intro scope args scope' args' a a' hscope hargs
    rw [evaluateArguments, evaluateArguments]
    exact .pure hargs
  case case14 =>
    intro location text? nodes scope args scope' args' a a' hscope hargs
    rw [evaluateArguments]
    exact .fail location _ _
  case case15 =>
    intro location text? value others nodes scope args ihValue ihNodes scope' args' a a' hscope
      hargs
    rw [evaluateArguments, evaluateArguments]
    refine .bind (ihValue _ _ _ hscope) fun hc hc' hvalue => ?_
    exact ihNodes _ _ _ _ _ (hscope.mono hc hc') ((hargs.mono hc hc').pushKeyword hvalue _)
  case case16 =>
    intro node nodes scope args hempty hkeyword ihNode ihNodes scope' args' a a' hscope hargs
    rw [evaluateArguments, evaluateArguments]
    · refine .bind (ihNode _ _ _ hscope) fun hc hc' hvalue => ?_
      exact ihNodes _ _ _ _ _ (hscope.mono hc hc') ((hargs.mono hc hc').pushPositional hvalue)
    · exact hempty
    · exact hkeyword
    · exact hempty
    · exact hkeyword
  case case17 =>
    intro scope scope' a a' hscope
    rw [evaluateAll, evaluateAll]
    exact .pure .nil
  case case18 =>
    intro node nodes scope ihNode ihNodes scope' a a' hscope
    rw [evaluateAll, evaluateAll]
    refine .bind (ihNode _ _ _ hscope) fun hc hc' hvalue => ?_
    refine .bind (ihNodes _ _ _ (hscope.mono hc hc')) fun hd hd' hvalues => ?_
    exact .pure (.cons (hvalue.mono hd hd') hvalues)

/-- Two values of one tree are alike if the scopes they come from are
compatible. -/
theorem evaluate_alike {node : Node} {scope scope' : Scope} {m m' m₁ m₁' : Machine φ}
    {h h' : Handle} (hscope : Compatible m.arena m'.arena scope scope')
    (hvalue : evaluate node scope m = .ok h m₁) (hvalue' : evaluate node scope' m' = .ok h' m₁') :
    m₁.arena.Extends m.arena ∧ m₁'.arena.Extends m'.arena ∧ Alike m₁.arena m₁'.arena h h' :=
  parallel_evaluation.1 node scope scope' _ _ hscope _ _ _ _ _ _ rfl rfl hvalue hvalue'

end BuildScript
