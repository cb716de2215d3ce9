import Mathlib.Data.List.Forall2
import BuildScript.Host.Builtin

namespace BuildScript

variable {φ : Type}

def Arena.IsString (a : Arena φ) (h : Handle) : Prop := (a.get h).type = .string

instance (a : Arena φ) : DecidablePred a.IsString := fun h =>
  inferInstanceAs (Decidable ((a.get h).type = .string))

abbrev Arena.Spells (a : Arena φ) : List Handle → List String → Prop :=
  List.Forall₂ fun h text => a.get h = .string text

def Object.noString (o : Object φ) : String :=
  "Object of type " ++ o.type.name ++ " is not a string"

namespace Arena

variable {a : Arena φ} {h : Handle}

theorem asString_of_get {text : String} (hget : a.get h = .string text) :
    a.asString h = .ok text := by
  rw [asString, hget, Object.asString]

theorem exists_text_of_isString (hstring : a.IsString h) : ∃ text, a.get h = .string text := by
  unfold IsString at hstring
  cases hget : a.get h with
  | string text => exact ⟨text, rfl⟩
  | _ => rw [hget] at hstring; cases hstring

theorem isString_of_get {text : String} (hget : a.get h = .string text) : a.IsString h := by
  rw [IsString, hget, Object.type]

theorem asString_of_not_isString (hstring : ¬ a.IsString h) :
    a.asString h = .error (.notAString (a.get h).type) := by
  unfold IsString at hstring
  unfold asString
  cases hget : a.get h with
  | string text => rw [hget] at hstring; exact absurd rfl hstring
  | _ => rfl

theorem exists_spells_iff {hs : List Handle} :
    (∃ ts, a.Spells hs ts) ↔ ∀ h ∈ hs, a.IsString h := by
  constructor
  · rintro ⟨ts, hspells⟩
    induction hspells with
    | nil => exact List.forall_mem_nil _
    | cons hfirst _ ih => exact List.forall_mem_cons.mpr ⟨isString_of_get hfirst, ih⟩
  · intro hstrings
    induction hs with
    | nil => exact ⟨[], .nil⟩
    | cons h hs ih =>
        obtain ⟨hfirst, hothers⟩ := List.forall_mem_cons.mp hstrings
        obtain ⟨text, hget⟩ := exists_text_of_isString hfirst
        obtain ⟨ts, hts⟩ := ih hothers
        exact ⟨text :: ts, .cons hget hts⟩

end Arena

namespace Builtin

variable {a : Arena φ} {args : Arguments} {hs : List Handle} {ts : List String}

/-- The text that `join` is to put between the entries: none if nothing is said
of it. -/
inductive Separates (a : Arena φ) (args : Arguments) : String → Prop where
  | absent {e : ArgumentError} (hsep : args.getKeyword "sep" = .error e) : Separates a args ""
  | given {arg : Argument} {text : String} (hsep : args.getKeyword "sep" = .ok arg)
      (htext : a.get arg.object = .string text) : Separates a args text

theorem Separates.separator_eq {sep : String} (h : Separates a args sep) :
    separator a args = .ok sep := by
  unfold separator
  cases h with
  | absent hsep => rw [hsep]
  | given hsep htext =>
      rw [hsep]
      dsimp only
      rw [Arena.asString_of_get htext]

theorem texts_eq_of_spells (h : a.Spells hs ts) : texts a hs = ts := by
  induction h with
  | nil => rfl
  | cons hfirst _ ih =>
      unfold texts at ih ⊢
      rw [List.filterMap_cons, Arena.asString_of_get hfirst, ih]
      rfl

theorem stringErrors_eq (a : Arena φ) (args : List Argument) :
    stringErrors a args = (args.filter fun arg => ¬ a.IsString arg.object).map fun arg =>
      (arg.id, (a.get arg.object).noString) := by
  induction args with
  | nil => rfl
  | cons arg args ih =>
      unfold stringErrors at ih ⊢
      by_cases hstring : a.IsString arg.object
      · obtain ⟨text, hget⟩ := Arena.exists_text_of_isString hstring
        rw [List.filterMap_cons, Arena.asString_of_get hget, ih, List.filter_cons_of_neg (by simpa)]
      · rw [List.filterMap_cons, Arena.asString_of_not_isString hstring, ih,
          List.filter_cons_of_pos (by simpa)]
        rfl

theorem entryTexts_of_spells (h : a.Spells hs ts) : entryTexts a hs = .ok ts := by
  induction h with
  | nil => rfl
  | cons hfirst _ ih => rw [entryTexts, Arena.asString_of_get hfirst, ih]

theorem entryTexts_of_find? {h : Handle} (hfirst : hs.find? (fun h => ¬ a.IsString h) = some h) :
    entryTexts a hs = .error (.notAString (a.get h).type) := by
  induction hs with
  | nil => cases hfirst
  | cons entry hs ih =>
      by_cases hstring : a.IsString entry
      · obtain ⟨text, hget⟩ := Arena.exists_text_of_isString hstring
        rw [List.find?_cons_of_neg (by simpa)] at hfirst
        rw [entryTexts, Arena.asString_of_get hget, ih hfirst]
      · rw [List.find?_cons_of_pos (by simpa)] at hfirst
        obtain rfl := Option.some.inj hfirst
        rw [entryTexts, Arena.asString_of_not_isString hstring]

theorem callConcat_of_spells (h : a.Spells (args.positional.map (·.object)) ts) :
    callConcat a args = answer a (.string (String.join ts)) := by
  have hstrings := Arena.exists_spells_iff.mp ⟨ts, h⟩
  have hnone : stringErrors a args.positional = [] := by
    rw [stringErrors_eq, List.map_eq_nil_iff, List.filter_eq_nil_iff]
    intro arg harg
    simpa using hstrings arg.object (List.mem_map_of_mem harg)
  rw [callConcat, hnone, texts_eq_of_spells h]

theorem callConcat_of_not_strings (h : ¬ ∀ e ∈ args.positional.map (·.object), a.IsString e) :
    callConcat a args =
      ({ argumentErrors := (args.positional.filter
        fun arg => ¬ a.IsString arg.object).map fun arg =>
          (arg.id, (a.get arg.object).noString) }, a) := by
  rw [← stringErrors_eq, callConcat]
  split
  · rename_i hnone
    rw [stringErrors_eq, List.map_eq_nil_iff, List.filter_eq_nil_iff] at hnone
    apply absurd _ h
    intro e he
    obtain ⟨arg, harg, rfl⟩ := List.mem_map.mp he
    simpa using hnone arg harg
  · rfl

theorem callConcat_isSuccess_iff : (callConcat a args).1.isSuccess = true ↔
    ∀ e ∈ args.positional.map (·.object), a.IsString e := by
  constructor
  · intro hsuccess
    by_contra h
    rw [callConcat_of_not_strings h] at hsuccess
    apply h
    simpa [Reply.isSuccess] using hsuccess
  · intro hstrings
    obtain ⟨ts, hspells⟩ := Arena.exists_spells_iff.mpr hstrings
    rw [callConcat_of_spells hspells]
    rfl

theorem callJoin_eq {list : Argument} {sep : String} (hpositional : args.getPositional 0 = .ok list)
    (hlist : a.get list.object = .list hs) (hsep : Separates a args sep) :
    callJoin a args = match entryTexts a hs with
      | .error e => (.rejecting list ("List entry: " ++ e.message), a)
      | .ok parts => answer a (.string (sep.intercalate parts)) := by
  have hentries : a.asList list.object = .ok hs := by rw [Arena.asList, hlist, Object.asList]
  unfold callJoin
  cases hparts : entryTexts a hs with
  | error e => simp only [hpositional, hsep.separator_eq, hentries, hparts]
  | ok parts => simp only [hpositional, hsep.separator_eq, hentries, hparts]

theorem intercalate_empty (ts : List String) : "".intercalate ts = String.join ts := by
  apply String.toList_inj.mp
  rw [String.toList_intercalate, String.toList_join, List.flatMap_def, String.toList_empty]
  induction ts.map String.toList with
  | nil => rfl
  | cons cs css ih =>
      cases css with
      | nil => simp
      | cons ds css => rw [List.intercalate_cons_cons, ih, List.append_nil, ← List.flatten_cons]

theorem callJoin_of_spells {list : Argument} {sep : String}
    (hpositional : args.getPositional 0 = .ok list) (hlist : a.get list.object = .list hs)
    (hsep : Separates a args sep) (h : a.Spells hs ts) :
    callJoin a args = answer a (.string (sep.intercalate ts)) := by
  rw [callJoin_eq hpositional hlist hsep, entryTexts_of_spells h]

theorem callJoin_of_not_string {list : Argument} {sep : String} {h : Handle}
    (hpositional : args.getPositional 0 = .ok list) (hlist : a.get list.object = .list hs)
    (hsep : Separates a args sep) (hfirst : hs.find? (fun h => ¬ a.IsString h) = some h) :
    callJoin a args = (.rejecting list ("List entry: " ++ (a.get h).noString), a) := by
  rw [callJoin_eq hpositional hlist hsep, entryTexts_of_find? hfirst]
  rfl

theorem exists_find?_of_not_strings (h : ¬ ∀ e ∈ hs, a.IsString e) :
    ∃ e, hs.find? (fun e => ¬ a.IsString e) = some e := by
  apply Option.isSome_iff_exists.mp
  rw [List.find?_isSome]
  simpa using h

theorem callJoin_isSuccess_iff {list : Argument} {sep : String}
    (hpositional : args.getPositional 0 = .ok list) (hlist : a.get list.object = .list hs)
    (hsep : Separates a args sep) :
    (callJoin a args).1.isSuccess = true ↔ ∀ e ∈ hs, a.IsString e := by
  constructor
  · intro hsuccess
    by_contra h
    obtain ⟨e, hfirst⟩ := exists_find?_of_not_strings h
    rw [callJoin_of_not_string hpositional hlist hsep hfirst] at hsuccess
    cases hsuccess
  · intro hstrings
    obtain ⟨ts, hspells⟩ := Arena.exists_spells_iff.mpr hstrings
    rw [callJoin_of_spells hpositional hlist hsep hspells]
    rfl

/-- A reply with the arena it leaves: the arena as it was if something was wrong,
and else one object more, which is the answer. -/
def AddsItsAnswer (a : Arena φ) (outcome : Reply × Arena φ) : Prop :=
  (outcome.1.isSuccess = false → outcome.2 = a) ∧
    (outcome.1.isSuccess = true →
      ∃ object, outcome = (.returning ⟨a.size⟩, ⟨a.objects.push object⟩))

theorem addsItsAnswer_answer (a : Arena φ) (object : Object φ) :
    AddsItsAnswer a (answer a object) := by
  constructor
  · intro hfailed
    cases hfailed
  · intro _
    exact ⟨object, rfl⟩

theorem addsItsAnswer_of_failure {reply : Reply} (h : reply.isSuccess = false) :
    AddsItsAnswer a (reply, a) := by
  constructor
  · intro _
    rfl
  · intro hsuccess
    rw [h] at hsuccess
    cases hsuccess

theorem call_addsItsAnswer (b : Builtin) (a : Arena φ) (args : Arguments) :
    AddsItsAnswer a (b.call a args) := by
  cases b with
  | concat =>
      rw [call, callConcat]
      split
      · exact addsItsAnswer_answer a _
      · rename_i herrors
        exact addsItsAnswer_of_failure (by simpa [Reply.isSuccess] using herrors)
  | join =>
      rw [call, callJoin]
      split
      · exact addsItsAnswer_of_failure rfl
      · split
        · rename_i hsep
          exact addsItsAnswer_of_failure (isSuccess_of_separator_eq_error hsep)
        · split
          · exact addsItsAnswer_of_failure rfl
          · split
            · exact addsItsAnswer_of_failure rfl
            · exact addsItsAnswer_answer a _
  | struct =>
      rw [call, callStruct]
      split
      · exact addsItsAnswer_answer a _
      · rename_i hpositional
        exact addsItsAnswer_of_failure (by simpa [Reply.isSuccess] using hpositional)

/-- On the same objects, given one by one to `concat` and in a list to `join`:
both succeed if and only if all are strings, and then without a separator their
answers are the same text. If some are no strings, `concat` finds fault with each
of these, in order, and `join` with the list, because of the first of them. And
no builtin that fails adds to the arena, and none that succeeds adds more than
its answer. -/
theorem concat_agrees_with_join {args' : Arguments} {list : Argument}
    (hargs : args.positional.map (·.object) = hs) (hpositional : args'.getPositional 0 = .ok list)
    (hlist : a.get list.object = .list hs) :
    ((concat.call a args).1.isSuccess = true ↔ ∀ h ∈ hs, a.IsString h) ∧
    (∀ sep, Separates a args' sep →
      ((join.call a args').1.isSuccess = true ↔ ∀ h ∈ hs, a.IsString h)) ∧
    (∀ ts, a.Spells hs ts → concat.call a args = answer a (.string (String.join ts)) ∧
      (Separates a args' "" → join.call a args' = answer a (.string (String.join ts))) ∧
      ∀ sep, Separates a args' sep → join.call a args' = answer a (.string (sep.intercalate ts))) ∧
    (¬ (∀ h ∈ hs, a.IsString h) →
      concat.call a args =
        ({ argumentErrors := (args.positional.filter fun arg => ¬ a.IsString arg.object).map
            fun arg => (arg.id, (a.get arg.object).noString) }, a) ∧
      ∃ h, hs.find? (fun h => ¬ a.IsString h) = some h ∧ ∀ sep, Separates a args' sep →
        join.call a args' = (.rejecting list ("List entry: " ++ (a.get h).noString), a)) ∧
    ∀ (b : Builtin) (c : Arena φ) (others : Arguments), AddsItsAnswer c (b.call c others) := by
  subst hargs
  refine ⟨callConcat_isSuccess_iff, fun sep => callJoin_isSuccess_iff hpositional hlist, ?_, ?_,
    call_addsItsAnswer⟩
  · intro ts hspells
    refine ⟨callConcat_of_spells hspells, ?_, ?_⟩
    · intro hsep
      rw [← intercalate_empty]
      exact callJoin_of_spells hpositional hlist hsep hspells
    · intro sep hsep
      exact callJoin_of_spells hpositional hlist hsep hspells
  · intro hsome
    obtain ⟨h, hfirst⟩ := exists_find?_of_not_strings hsome
    refine ⟨callConcat_of_not_strings hsome, h, hfirst, ?_⟩
    intro sep hsep
    exact callJoin_of_not_string hpositional hlist hsep hfirst

/-- Of a string, a list, null and a string again, `concat` finds fault with the
second and the third, by their numbers in the call, and `join` with the list,
because of the second. -/
theorem concat_agrees_with_join_mixed :
    let a : Arena Builtin :=
      ⟨#[.null, .string "x", .list [], .list [⟨1⟩, ⟨2⟩, ⟨0⟩, ⟨1⟩], .string ", "]⟩
    let args : Arguments :=
      ⟨[⟨0, ⟨1⟩⟩, ⟨2, ⟨2⟩⟩, ⟨3, ⟨0⟩⟩, ⟨4, ⟨1⟩⟩], [("sep", ⟨1, ⟨2⟩⟩)], 5⟩
    let args' : Arguments := ⟨[⟨1, ⟨3⟩⟩], [("sep", ⟨0, ⟨4⟩⟩)], 2⟩
    args'.getPositional 0 = .ok ⟨1, ⟨3⟩⟩ ∧ a.get ⟨3⟩ = .list (args.positional.map (·.object)) ∧
      concat.call a args = ({ argumentErrors := [(2, "Object of type list is not a string"),
        (3, "Object of type null is not a string")] }, a) ∧
      join.call a args' =
        ({ argumentErrors := [(1, "List entry: Object of type list is not a string")] }, a) := by
  intro a args args'
  have hpositional : args'.getPositional 0 = .ok ⟨1, ⟨3⟩⟩ := rfl
  have hlist : a.get ⟨3⟩ = .list (args.positional.map (·.object)) := rfl
  have hkeyword : args'.getKeyword "sep" = .ok ⟨0, ⟨4⟩⟩ := rfl
  have hsep : Separates a args' ", " := .given hkeyword rfl
  obtain ⟨-, -, -, hrejects, -⟩ := concat_agrees_with_join rfl hpositional hlist
  obtain ⟨hconcat, h, hfirst, hjoin⟩ := hrejects (by decide)
  obtain rfl : ⟨2⟩ = h := Option.some.inj hfirst
  exact ⟨hpositional, hlist, hconcat, hjoin ", " hsep⟩

end Builtin

end BuildScript
