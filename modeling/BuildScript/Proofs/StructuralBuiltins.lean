import BuildScript.Host.Builtin
import BuildScript.Proofs.ParallelEvaluation

namespace BuildScript.Builtin

variable {φ : Type} {a a' : Arena φ} {args args' : Arguments}

theorem texts_eq {hs hs' : List Handle} (h : AlikeAll a a' hs hs') : texts a hs = texts a' hs' := by
  induction h with
  | nil => rfl
  | cons hfirst _ ih =>
      unfold texts at ih ⊢
      rw [List.filterMap_cons, List.filterMap_cons, hfirst.asString_eq, ih]

theorem entryTexts_eq {hs hs' : List Handle} (h : AlikeAll a a' hs hs') :
    entryTexts a hs = entryTexts a' hs' := by
  induction h with
  | nil => rfl
  | cons hfirst _ ih => rw [entryTexts, entryTexts, hfirst.asString_eq, ih]

theorem separator_eq (h : AlikeArguments a a' args args') {sep sep' : String}
    (hsep : separator a args = .ok sep) (hsep' : separator a' args' = .ok sep') : sep = sep' := by
  have hlookup := lookup_rel (R := fun x y : Argument => Alike a a' x.object y.object) h.keyword
    "sep"
  unfold separator Arguments.getKeyword at hsep hsep'
  generalize args.keyword.lookup "sep" = found at hlookup hsep
  generalize args'.keyword.lookup "sep" = found' at hlookup hsep'
  cases hlookup with
  | none =>
      cases hsep
      cases hsep'
      rfl
  | @some arg arg' halike =>
      dsimp only at hsep hsep'
      rw [halike.asString_eq] at hsep
      cases htext : a'.asString arg'.object with
      | error e =>
          rw [htext] at hsep
          cases hsep
      | ok text =>
          rw [htext] at hsep hsep'
          cases hsep
          cases hsep'
          rfl

theorem getPositional_alike (h : AlikeArguments a a' args args') {i : Nat} {arg arg' : Argument}
    (harg : args.getPositional i = .ok arg) (harg' : args'.getPositional i = .ok arg') :
    Alike a a' arg.object arg'.object := by
  unfold Arguments.getPositional at harg harg'
  split at harg
  · rename_i hget
    split at harg'
    · rename_i hget'
      cases harg
      cases harg'
      obtain ⟨hi, rfl⟩ := List.getElem?_eq_some_iff.mp hget
      obtain ⟨hi', rfl⟩ := List.getElem?_eq_some_iff.mp hget'
      exact (List.forall₂_iff_get.mp h.positional).2 i hi hi'
    · cases harg'
  · cases harg

section Success

theorem callConcat_success (h : (callConcat a args).1.isSuccess = true) :
    callConcat a args =
      answer a (.string (String.join (texts a (args.positional.map (·.object))))) := by
  unfold callConcat at h ⊢
  cases herrors : stringErrors a args.positional with
  | nil => rfl
  | cons e errors =>
      rw [herrors] at h
      cases h

theorem callJoin_success (h : (callJoin a args).1.isSuccess = true) :
    ∃ list sep entries parts, args.getPositional 0 = .ok list ∧ separator a args = .ok sep ∧
      a.asList list.object = .ok entries ∧ entryTexts a entries = .ok parts ∧
      callJoin a args = answer a (.string (sep.intercalate parts)) := by
  unfold callJoin at h ⊢
  split at h
  · cases h
  · rename_i list hlist
    split at h
    · rename_i hsep
      rw [isSuccess_of_separator_eq_error hsep] at h
      cases h
    · rename_i sep hsep
      split at h
      · cases h
      · rename_i entries hentries
        split at h
        · cases h
        · rename_i parts hparts
          refine ⟨list, sep, entries, parts, hlist, hsep, hentries, hparts, rfl⟩

theorem callStruct_success (h : (callStruct a args).1.isSuccess = true) :
    callStruct a args =
      answer a (.struct (.ofPairs (args.keyword.map fun e => (e.1, e.2.object)))) := by
  unfold callStruct at h ⊢
  cases hpositional : args.positional with
  | nil => rfl
  | cons arg positional =>
      rw [hpositional] at h
      cases h

end Success

theorem call_success {b : Builtin} (h : (b.call a args).1.isSuccess = true) :
    ∃ object, b.call a args = answer a object := by
  cases b with
  | concat => exact ⟨_, callConcat_success h⟩
  | join =>
      obtain ⟨_, _, _, _, -, -, -, -, heq⟩ := callJoin_success h
      exact ⟨_, heq⟩
  | struct => exact ⟨_, callStruct_success h⟩

theorem call_alike (b : Builtin) (hargs : AlikeArguments a a' args args')
    (h : (b.call a args).1.isSuccess = true) (h' : (b.call a' args').1.isSuccess = true) :
    Alike (b.call a args).2 (b.call a' args').2 (b.call a args).1.value
      (b.call a' args').1.value := by
  cases b with
  | concat =>
      simp only [call] at h h' ⊢
      have hobjects : AlikeAll a a' (args.positional.map (·.object))
          (args'.positional.map (·.object)) := by
        rw [AlikeAll, List.forall₂_map_left_iff, List.forall₂_map_right_iff]
        exact hargs.positional
      rw [callConcat_success h, callConcat_success h', texts_eq hobjects]
      exact alike_create_string a a' _
  | join =>
      simp only [call] at h h' ⊢
      obtain ⟨list, sep, entries, parts, hlist, hsep, hentries, hparts, heq⟩ := callJoin_success h
      obtain ⟨list', sep', entries', parts', hlist', hsep', hentries', hparts', heq'⟩ :=
        callJoin_success h'
      have hlists := getPositional_alike hargs hlist hlist'
      have htexts := entryTexts_eq (hlists.asList_alike hentries hentries')
      rw [hparts, hparts'] at htexts
      cases htexts
      rw [heq, heq', separator_eq hargs hsep hsep']
      exact alike_create_string a a' _
  | struct =>
      simp only [call] at h h' ⊢
      rw [callStruct_success h, callStruct_success h']
      refine alike_create_struct (Bindings.forall₂_ofPairs ?_)
      rw [List.forall₂_map_left_iff, List.forall₂_map_right_iff]
      exact hargs.keyword

instance : StructuralHost Builtin where
  call_extends b a args h := by
    obtain ⟨object, heq⟩ := call_success h
    rw [show Host.call b a args = answer a object from heq]
    exact a.extends_create object
  call_alike b _ _ _ _ := b.call_alike

end BuildScript.Builtin
