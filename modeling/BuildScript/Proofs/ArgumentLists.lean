import Mathlib.Data.Finset.Card
import Mathlib.Data.List.Induction
import BuildScript.Call.Arguments

namespace BuildScript.Arguments

inductive Push where
  | positional (object : Handle)
  | keyword (name : String) (object : Handle)
deriving DecidableEq

namespace Push

def isPositional : Push → Bool
  | positional _ => true
  | keyword _ _ => false

def name? : Push → Option String
  | positional _ => none
  | keyword name _ => some name

end Push

def after (args : Arguments) : Push → Arguments
  | .positional object => args.pushPositional object
  | .keyword name object => args.pushKeyword name object

def replies (args : Arguments) : List Push → List Nat
  | [] => []
  | push :: pushes => args.nextId :: (args.after push).replies pushes

def ofPushes (pushes : List Push) : Arguments := pushes.foldl after empty

def Lacks (pushes : List Push) (name : String) : Prop :=
  ∀ object, Push.keyword name object ∉ pushes

variable {args : Arguments} {pushes : List Push} {push : Push} {name : String} {object : Handle}

theorem lacks_iff : Lacks pushes name ↔ name ∉ pushes.filterMap Push.name? := by
  rw [List.mem_filterMap]
  constructor
  · rintro hlacks ⟨push, hpush, hname⟩
    cases push with
    | positional object => cases hname
    | keyword name' object =>
        obtain rfl := Option.some.inj hname
        exact hlacks object hpush
  · intro hnone object hpush
    exact hnone ⟨_, hpush, rfl⟩

instance : Decidable (Lacks pushes name) := decidable_of_iff' _ lacks_iff

/-- The positional pushes, numbered by their places. -/
def positionals (pushes : List Push) : List Argument :=
  pushes.zipIdx.filterMap fun e => match e.1 with
    | .positional object => some ⟨e.2, object⟩
    | .keyword _ _ => none

/-- The first push of each keyword, numbered by its place. -/
def firsts (pushes : List Push) : List (String × Argument) :=
  pushes.zipIdx.filterMap fun e => match e.1 with
    | .positional _ => none
    | .keyword name object =>
      if Lacks (pushes.take e.2) name then some (name, ⟨e.2, object⟩) else none

theorem positionals_positional (pushes : List Push) (object : Handle) :
    positionals (pushes ++ [.positional object]) =
      positionals pushes ++ [⟨pushes.length, object⟩] := by
  simp [positionals, List.zipIdx_append]

theorem positionals_keyword (pushes : List Push) (name : String) (object : Handle) :
    positionals (pushes ++ [.keyword name object]) = positionals pushes := by
  simp [positionals, List.zipIdx_append]

theorem firsts_snoc (pushes : List Push) (push : Push) :
    firsts (pushes ++ [push]) = firsts pushes ++ [(push, pushes.length)].filterMap fun e =>
      match e.1 with
      | .positional _ => none
      | .keyword name object => if Lacks pushes name then some (name, ⟨e.2, object⟩) else none := by
  unfold firsts
  rw [List.zipIdx_append, List.filterMap_append]
  congr 1
  · refine List.filterMap_congr fun e he => ?_
    have hlt : e.2 < pushes.length := by simpa using List.snd_lt_of_mem_zipIdx he
    rw [List.take_append_of_le_length (Nat.le_of_lt hlt)]
  · cases push with
    | positional object => rfl
    | keyword name object => by_cases hlacks : Lacks pushes name <;> simp [hlacks]

theorem firsts_positional (pushes : List Push) (object : Handle) :
    firsts (pushes ++ [.positional object]) = firsts pushes := by
  simp [firsts_snoc]

theorem firsts_of_lacks (hlacks : Lacks pushes name) (object : Handle) :
    firsts (pushes ++ [.keyword name object]) =
      firsts pushes ++ [(name, ⟨pushes.length, object⟩)] := by
  simp [firsts_snoc, hlacks]

theorem firsts_of_not_lacks (htaken : ¬ Lacks pushes name) (object : Handle) :
    firsts (pushes ++ [.keyword name object]) = firsts pushes := by
  simp [firsts_snoc, htaken]

theorem eraseDups_snoc (names : List String) (name : String) :
    (names ++ [name]).eraseDups = names.eraseDups ++ if name ∈ names then [] else [name] := by
  rw [List.eraseDups_append, List.removeAll]
  by_cases hname : name ∈ names <;> simp [hname, List.eraseDups_cons]

theorem filterMap_snoc_positional (pushes : List Push) (object : Handle) :
    (pushes ++ [Push.positional object]).filterMap Push.name? = pushes.filterMap Push.name? := by
  simp [Push.name?]

theorem filterMap_snoc_keyword (pushes : List Push) (name : String) (object : Handle) :
    (pushes ++ [Push.keyword name object]).filterMap Push.name? =
      pushes.filterMap Push.name? ++ [name] := by
  simp [Push.name?]

theorem names_firsts (pushes : List Push) :
    (firsts pushes).map Prod.fst = (pushes.filterMap Push.name?).eraseDups := by
  induction pushes using List.reverseRecOn with
  | nil => rfl
  | append_singleton pushes push ih =>
      cases push with
      | positional object => rw [firsts_positional, ih, filterMap_snoc_positional]
      | keyword name object =>
          rw [filterMap_snoc_keyword, eraseDups_snoc]
          by_cases hlacks : Lacks pushes name
          · rw [firsts_of_lacks hlacks, List.map_append, ih, if_neg (lacks_iff.mp hlacks)]
            rfl
          · rw [firsts_of_not_lacks hlacks, ih, if_pos (not_not.mp (mt lacks_iff.mpr hlacks)),
              List.append_nil]

theorem free_iff : name ∉ (firsts pushes).map Prod.fst ↔ Lacks pushes name := by
  rw [names_firsts, List.mem_eraseDups, lacks_iff]

theorem nodup_firsts (pushes : List Push) : ((firsts pushes).map Prod.fst).Nodup := by
  induction pushes using List.reverseRecOn with
  | nil => exact List.nodup_nil
  | append_singleton pushes push ih =>
      cases push with
      | positional object => rwa [firsts_positional]
      | keyword name object =>
          by_cases hlacks : Lacks pushes name
          · rw [firsts_of_lacks hlacks, List.map_append, List.nodup_append]
            refine ⟨ih, List.nodup_singleton name, fun first hfirst last hlast heq => ?_⟩
            obtain rfl := List.mem_singleton.mp hlast
            exact free_iff.mpr hlacks (heq ▸ hfirst)
          · rwa [firsts_of_not_lacks hlacks]

theorem ofPushes_eq (pushes : List Push) :
    ofPushes pushes = ⟨positionals pushes, firsts pushes, pushes.length⟩ := by
  induction pushes using List.reverseRecOn with
  | nil => rfl
  | append_singleton pushes push ih =>
      rw [ofPushes, List.foldl_append, ← ofPushes, ih, List.length_append]
      cases push with
      | positional object =>
          rw [positionals_positional, firsts_positional]
          rfl
      | keyword name object =>
          rw [positionals_keyword]
          by_cases hlacks : Lacks pushes name
          · have hfree := free_iff.mpr hlacks
            simp [firsts_of_lacks hlacks, after, pushKeyword, hfree]
          · have htaken := not_not.mp (mt free_iff.mp hlacks)
            simp [firsts_of_not_lacks hlacks, after, pushKeyword, htaken]

/-- One of the pushes with what was pushed before it: an earlier one, or the
last one with all others before it. -/
theorem at_snoc_iff {P : List Push → Prop} {q : Push} {i : Nat} :
    (pushes ++ [push])[i]? = some q ∧ P ((pushes ++ [push]).take i) ↔
      (pushes[i]? = some q ∧ P (pushes.take i)) ∨ (push = q ∧ P pushes) ∧ pushes.length = i := by
  rcases lt_trichotomy i pushes.length with hlt | rfl | hgt
  · rw [List.getElem?_append_left hlt, List.take_append_of_le_length (Nat.le_of_lt hlt)]
    simp [Nat.ne_of_gt hlt]
  · simp
  · have hout : (pushes ++ [push])[i]? = none := by simp; omega
    have hout' : pushes[i]? = none := by simp; omega
    simp [hout, hout', Nat.ne_of_lt hgt]

theorem getElem?_snoc_eq_some_iff {α : Type} {l : List α} {x y : α} {j : Nat} :
    (l ++ [x])[j]? = some y ↔ l[j]? = some y ∨ x = y ∧ l.length = j := by
  grind

theorem length_positionals (pushes : List Push) :
    (positionals pushes).length = pushes.countP Push.isPositional := by
  induction pushes using List.reverseRecOn with
  | nil => rfl
  | append_singleton pushes push ih =>
      cases push with
      | positional object => simp [positionals_positional, ih, Push.isPositional]
      | keyword name object => simp [positionals_keyword, ih, Push.isPositional]

theorem getElem?_positionals {j : Nat} {arg : Argument} :
    (positionals pushes)[j]? = some arg ↔
      pushes[arg.id]? = some (.positional arg.object) ∧
        (pushes.take arg.id).countP Push.isPositional = j := by
  induction pushes using List.reverseRecOn with
  | nil => simp [positionals]
  | append_singleton pushes push ih =>
      rw [at_snoc_iff (P := fun before => before.countP Push.isPositional = j), ← ih]
      cases push with
      | positional object =>
          rw [positionals_positional, getElem?_snoc_eq_some_iff, length_positionals]
          obtain ⟨id, found⟩ := arg
          simp only [Argument.mk.injEq, Push.positional.injEq]
          tauto
      | keyword name object => simp [positionals_keyword]

theorem lookup_firsts {arg : Argument} :
    (firsts pushes).lookup name = some arg ↔
      pushes[arg.id]? = some (.keyword name arg.object) ∧ Lacks (pushes.take arg.id) name := by
  induction pushes using List.reverseRecOn with
  | nil => simp [firsts]
  | append_singleton pushes push ih =>
      rw [at_snoc_iff (P := fun before => Lacks before name), ← ih]
      cases push with
      | positional object => simp [firsts_positional]
      | keyword name' object =>
          by_cases hlacks : Lacks pushes name'
          · rw [firsts_of_lacks hlacks, lookup_concat (free_iff.mpr hlacks)]
            by_cases hname : name = name'
            · obtain rfl := hname
              have hnone : (firsts pushes).lookup name = none :=
                lookup_eq_none_iff_notMem.mpr (free_iff.mpr hlacks)
              rw [if_pos rfl, hnone, Option.some.injEq]
              obtain ⟨id, found⟩ := arg
              simp only [Argument.mk.injEq, Push.keyword.injEq, hlacks]
              tauto
            · rw [if_neg hname]
              simp [Ne.symm hname]
          · have hsame : ¬ (Push.keyword name' object = .keyword name arg.object ∧
                Lacks pushes name) := by
              rintro ⟨hpush, hlacks'⟩
              obtain ⟨rfl, -⟩ := Push.keyword.inj hpush
              exact hlacks hlacks'
            rw [firsts_of_not_lacks hlacks, or_iff_left fun hlast => hsame hlast.1]

theorem replies_eq (args : Arguments) (pushes : List Push) :
    args.replies pushes = List.range' args.count pushes.length := by
  induction pushes generalizing args with
  | nil => rfl
  | cons push pushes ih =>
      have hcount : (args.after push).count = args.count + 1 := by
        cases push with
        | positional object => rfl
        | keyword name object =>
            rw [after, pushKeyword]
            split <;> rfl
      rw [replies, ih, hcount, List.length_cons, List.range'_succ]
      rfl

/-- What the arguments of a call answer, given the pushes. -/
structure KeepsTo (args : Arguments) (pushes : List Push) : Prop where
  positional_ok : ∀ j arg, args.getPositional j = .ok arg ↔
    pushes[arg.id]? = some (.positional arg.object) ∧
      (pushes.take arg.id).countP Push.isPositional = j
  positional_error : ∀ j e, args.getPositional j = .error e ↔
    e = .missingPositional j ∧ pushes.countP Push.isPositional < j + 1
  keyword_ok : ∀ name arg, args.getKeyword name = .ok arg ↔
    pushes[arg.id]? = some (.keyword name arg.object) ∧ Lacks (pushes.take arg.id) name
  keyword_error : ∀ name e, args.getKeyword name = .error e ↔
    e = .missingKeyword name ∧ Lacks pushes name
  distinct : (args.keyword.map Prod.fst).Nodup
  names : args.keyword.map Prod.fst = (pushes.filterMap Push.name?).eraseDups
  size : args.size =
    pushes.countP Push.isPositional + (pushes.filterMap Push.name?).toFinset.card

theorem keepsTo_ofPushes (pushes : List Push) : (ofPushes pushes).KeepsTo pushes where
  positional_ok j arg := by
    rw [← getElem?_positionals, ofPushes_eq, getPositional]
    cases (positionals pushes)[j]? with
    | some found => simp
    | none => simp
  positional_error j e := by
    rw [← length_positionals, Nat.lt_succ_iff, ← List.getElem?_eq_none_iff, ofPushes_eq,
      getPositional]
    cases (positionals pushes)[j]? with
    | some found => simp
    | none => simp [eq_comm]
  keyword_ok name arg := by
    rw [← lookup_firsts, ofPushes_eq, getKeyword]
    cases (firsts pushes).lookup name with
    | some found => simp
    | none => simp
  keyword_error name e := by
    rw [← free_iff, ← lookup_eq_none_iff_notMem, ofPushes_eq, getKeyword]
    cases (firsts pushes).lookup name with
    | some found => simp
    | none => simp [eq_comm]
  distinct := by
    rw [ofPushes_eq]
    exact nodup_firsts pushes
  names := by
    rw [ofPushes_eq]
    exact names_firsts pushes
  size := by
    have hnames : ((firsts pushes).map Prod.fst).toFinset =
        (pushes.filterMap Push.name?).toFinset := by
      ext name
      rw [List.mem_toFinset, List.mem_toFinset, names_firsts, List.mem_eraseDups]
    rw [Arguments.size, ofPushes_eq, length_positionals, ← hnames,
      List.toFinset_card_of_nodup (nodup_firsts pushes), List.length_map]

/-- However arguments are pushed, each push is answered with its place among the
pushes, and the arguments answer what the pushes tell. -/
theorem ofPushes_keepsTo (pushes : List Push) :
    empty.replies pushes = List.range pushes.length ∧ (ofPushes pushes).KeepsTo pushes := by
  constructor
  · rw [replies_eq, List.range_eq_range']
    rfl
  · exact keepsTo_ofPushes pushes

/-- The second push of a keyword is answered, but not kept. -/
example : let pushes : List Push := [.keyword "k" ⟨1⟩, .keyword "k" ⟨2⟩, .positional ⟨3⟩]
    empty.replies pushes = [0, 1, 2] ∧ (ofPushes pushes).getKeyword "k" = .ok ⟨0, ⟨1⟩⟩ ∧
      (ofPushes pushes).getPositional 0 = .ok ⟨2, ⟨3⟩⟩ ∧ (ofPushes pushes).size = 2 :=
  ⟨rfl, rfl, rfl, rfl⟩

end BuildScript.Arguments
