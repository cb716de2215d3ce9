import Mathlib.Data.Nat.Find
import BuildScript.Proofs.Layout
import BuildScript.Shell.Run

/-!
How deep imports nest. If one more level lets a source be read to the end, then
some import is read to the end with one level less, and not with two. So the
imports that are just as deep as it takes have different texts, and there are no
more of them than there are texts to import. This is why the depth of a world
is enough for the files it has.
-/

namespace BuildScript

variable {resolve : String → Resolution} {source source' : Source} {depth : Nat}

namespace Lexer

theorem next_of_other_source (lexer : Lexer) (source' : Source) :
    (∃ token token' cursor, lexer.next = (.ok token, ⟨lexer.source, cursor⟩) ∧
      next ⟨source', lexer.cursor⟩ = (.ok token', ⟨source', cursor⟩) ∧ token.kind = token'.kind) ∨
    ∃ e e' after after', lexer.next = (.error e, after) ∧
      next ⟨source', lexer.cursor⟩ = (.error e', after') := by
  obtain ⟨source, rest, position⟩ := lexer
  unfold next
  dsimp only
  rcases Scanner.skipLayout rest position with ⟨_ | fault, start⟩
  · dsimp only
    rcases readToken start.rest start.position with ⟨_ | kind, cursor⟩
    · exact .inr ⟨_, _, _, _, rfl, rfl⟩
    · exact .inl ⟨_, _, cursor, rfl, rfl, rfl⟩
  · exact .inr ⟨_, _, _, _, rfl, rfl⟩

theorem kinds_of_other_source (n : Nat) (lexer : Lexer) (source' : Source) :
    (readAll n lexer).1.map (·.kind) = (readAll n ⟨source', lexer.cursor⟩).1.map (·.kind) ∧
      (readAll n lexer).2.isSome = (readAll n ⟨source', lexer.cursor⟩).2.isSome := by
  induction n generalizing lexer with
  | zero => exact ⟨rfl, rfl⟩
  | succ n ih =>
      rw [readAll, readAll]
      rcases next_of_other_source lexer source' with
        ⟨token, token', cursor, hnext, hnext', hkind⟩ | ⟨e, e', _, _, hnext, hnext'⟩
      · obtain ⟨hkinds, hfaults⟩ := ih ⟨lexer.source, cursor⟩
        have hend : token'.isEnd = token.isEnd := by rw [Token.isEnd, Token.isEnd, hkind]
        simp only [hnext, hnext', hend]
        by_cases hlast : token.isEnd = true
        · simp [hlast, hkind]
        · simp [hlast, hkind, hkinds, hfaults]
      · simp [hnext, hnext']

end Lexer

theorem Finishes.of_text_eq (h : Finishes resolve depth source)
    (htext : source.text = source'.text) :
    Finishes resolve depth source' := by
  obtain ⟨hkinds, hfaults⟩ := Lexer.kinds_of_other_source (source.text.toList.length + 1)
    (.ofSource source) source'
  have hscan' : source'.scan =
      Lexer.readAll (source.text.toList.length + 1) ⟨source', (Lexer.ofSource source).cursor⟩ := by
    rw [Source.scan, Lexer.ofSource, Lexer.ofSource, htext]
  exact finishes_of_same_kinds (hscan' ▸ hkinds) (hscan' ▸ hfaults) h

theorem finishes_of_outcome {journal : Journal}
    (h : outcome (load resolve depth source journal) ≠ .error .exhausted) :
    Finishes resolve depth source :=
  fun other hspent => h ((load_journal resolve depth source journal other).trans hspent)

/-- Two runs with one level of difference go side by side as long as every import
comes to the same in both. -/
theorem exists_import_of_spent (h : ¬ Finishes resolve (depth + 1) source)
    (h' : Finishes resolve (depth + 2) source) :
    ∃ specifier found, resolve specifier = .program found ∧ ¬ Finishes resolve depth found ∧
      Finishes resolve (depth + 1) found := by
  obtain ⟨journal, hspent⟩ : ∃ journal,
      outcome (load resolve (depth + 1) source journal) = .error .exhausted := by
    simpa [Finishes] using h
  let halfway : Prop := ∃ specifier found, resolve specifier = .program found ∧
    ¬ Finishes resolve depth found ∧ Finishes resolve (depth + 1) found
  have hload : ∀ specifier found, resolve specifier = .program found → ∀ before after,
      LoadedAlike (sameTokens (Rewindable Lexer) halfway)
        (outcome (load resolve depth found before))
        (outcome (load resolve (depth + 1) found after)) := by
    intro specifier found hresolve before after
    rcases load_stable resolve (Nat.le_succ depth) found before after with hbelow | hsame
    · by_cases hspent' : outcome (load resolve (depth + 1) found after) = .error .exhausted
      · exact .inr ⟨hbelow.trans hspent'.symm, fun _ _ _ _ _ => trivial⟩
      · exact .inl ⟨⟨specifier, found, hresolve, fun hfinishes => hfinishes before hbelow,
          finishes_of_outcome hspent'⟩, hbelow⟩
    · exact .inr ⟨hsame, fun _ _ _ _ _ => trivial⟩
  rcases outcome_succ_alike _ resolve halfway hload journal journal with ⟨hfound, -⟩ | hsame
  · exact hfound
  · exact absurd (hsame.symm.trans hspent) (h' journal)

theorem depth_le_of_texts {texts : List String} (h : ¬ Finishes resolve depth source)
    (h' : Finishes resolve (depth + 1) source)
    (htexts : ∀ specifier found, resolve specifier = .program found →
      Finishes resolve depth found → found.text ∈ texts) : depth ≤ texts.length := by
  induction depth generalizing source texts with
  | zero => exact Nat.zero_le _
  | succ depth ih =>
      obtain ⟨specifier, found, hresolve, hspent, hfinishes⟩ := exists_import_of_spent h h'
      have hmem := htexts specifier found hresolve hfinishes
      have hpos := List.length_pos_of_mem hmem
      -- The text of this import is not that of any that needs less depth.
      have hle : depth ≤ (texts.erase found.text).length := by
        refine ih hspent hfinishes fun other source' hother hfinishes' => ?_
        have hne : source'.text ≠ found.text := fun htext => hspent (hfinishes'.of_text_eq htext)
        rw [List.mem_erase_of_ne hne]
        exact htexts other source' hother (hfinishes'.mono (Nat.le_succ depth))
      rw [List.length_erase_of_mem hmem] at hle
      omega

/-- Reading a source is decided: some depth is enough for the imports that are
met, so they do not go round in a circle. -/
def Grounded (resolve : String → Resolution) (source : Source) : Prop :=
  ∃ depth journal, ∀ location,
    (parse resolve depth source journal).1 ≠ .error (.tooDeep location)

theorem grounded_iff : Grounded resolve source ↔ ∃ depth, Finishes resolve depth source := by
  constructor
  · rintro ⟨depth, journal, hdecided⟩
    refine ⟨depth, finishes_of_outcome fun hspent : outcome (load resolve depth source
      (journal.record (.parsing source))) = .error .exhausted => ?_⟩
    refine hdecided (.startOf source) ?_
    rw [parse_fst, hspent]
    rfl
  · rintro ⟨depth, hfinishes⟩
    exact ⟨depth, {}, ne_tooDeep_of_finishes hfinishes {}⟩

/-- Reading is decided wherever inclusions lead to no endless chain. -/
theorem grounded_of_acc (h : Acc (Includes resolve) source) : Grounded resolve source := by
  obtain ⟨bound, hbound⟩ := exists_depth_of_acc_includes h
  exact grounded_iff.mpr ⟨bound, hbound bound (Nat.le_refl bound)⟩

/-- Imports that are met nest no deeper than there are texts they can have. -/
theorem Grounded.finishes {texts : List String} (h : Grounded resolve source)
    (htexts : ∀ specifier found, resolve specifier = .program found → found.text ∈ texts) :
    Finishes resolve (texts.length + 1) source := by
  classical
  have hexists := grounded_iff.mp h
  have hleast := Nat.find_spec hexists
  cases hdepth : Nat.find hexists with
  | zero =>
      rw [hdepth] at hleast
      exact hleast.mono (Nat.zero_le _)
  | succ depth =>
      have hspent : ¬ Finishes resolve depth source := Nat.find_min hexists (by omega)
      rw [hdepth] at hleast
      refine hleast.mono (Nat.succ_le_succ (depth_le_of_texts hspent hleast ?_))
      exact fun specifier found hresolve _ => htexts specifier found hresolve

namespace Shell

variable {world : World} {root : String}

theorem text_of_resolveFile {specifier : String} {found : Source}
    (h : resolveFile world root specifier = .program found) :
    world.readText (Path.join root specifier) = .ok found.text := by
  simp only [resolveFile] at h
  split at h
  · rename_i hread
    cases h
    exact hread
  · cases h

theorem finishes_of_readable (texts : List String)
    (hreadable : ∀ path text, world.readText path = .ok text → text ∈ texts)
    (hdepth : texts.length < world.depth) (h : Grounded (resolveFile world root) source) :
    Finishes (resolveFile world root) world.depth source := by
  refine (h.finishes fun specifier found hresolve => ?_).mono hdepth
  exact hreadable _ _ (text_of_resolveFile hresolve)

theorem FileTree.exists_file_of_contents {tree : FileTree} {place : FileTree.Place}
    {bytes : ByteArray} (h : tree.contents place = .ok bytes) :
    ∃ file ∈ tree.files, file.2 = bytes := by
  cases place with
  | outside => cases h
  | inside name =>
      simp only [contents] at h
      split at h
      · rename_i hlookup
        cases h
        obtain ⟨before, after, hfiles, -⟩ := List.lookup_eq_some_iff.mp hlookup
        exact ⟨(name, bytes), by simp [hfiles], rfl⟩
      · cases h

theorem FileTree.exists_file_of_readBytes {tree : FileTree} {path : String} {bytes : ByteArray}
    (h : tree.readBytes path = .ok bytes) : ∃ file ∈ tree.files, file.2 = bytes := by
  simp only [readBytes] at h
  generalize (if Path.isAbsolute path = true then Place.outside else .inside []) = start at h
  split at h
  · cases h
  · split at h
    · cases h
    · split at h
      · cases h
      · cases hfollow : tree.follow (Path.pieces path) start with
        | error e =>
            rw [hfollow] at h
            cases h
        | ok place =>
            rw [hfollow] at h
            exact exists_file_of_contents h

theorem FileTree.exists_file_of_readText {tree : FileTree} {path text : String}
    (h : tree.readText path = .ok text) : ∃ file ∈ tree.files, decodeText file.2 = .ok text := by
  unfold readText at h
  cases hbytes : tree.readBytes path with
  | error e =>
      rw [hbytes] at h
      cases h
  | ok bytes =>
      rw [hbytes] at h
      obtain ⟨file, hfile, rfl⟩ := exists_file_of_readBytes hbytes
      exact ⟨file, hfile, h⟩

/-- The depth of a world that has the files of a tree is enough for them. -/
theorem World.finishes_ofTree {tree : FileTree} {stdin : ByteArray}
    (h : Grounded (resolveFile (.ofTree tree stdin) root) source) :
    Finishes (resolveFile (.ofTree tree stdin) root) (World.ofTree tree stdin).depth source := by
  have hlength := List.length_filterMap_le (fun file : List String × ByteArray =>
    (decodeText file.2).toOption) tree.files
  refine finishes_of_readable _ (fun path text hread => ?_)
    (Nat.lt_succ_of_le (Nat.le_succ_of_le hlength)) h
  obtain ⟨file, hfile, hdecode⟩ := FileTree.exists_file_of_readText hread
  exact List.mem_filterMap.mpr ⟨file, hfile, by rw [hdecode]; rfl⟩

theorem World.finishes_ofKnown {known : List (String × Except ReadError String)}
    {stdin : Except ReadError String}
    (h : Grounded (resolveFile (.ofKnown known stdin) root) source) :
    Finishes (resolveFile (.ofKnown known stdin) root) (World.ofKnown known stdin).depth
      source := by
  have hlength := List.length_filterMap_le (fun file : String × Except ReadError String =>
    file.2.toOption) known
  refine finishes_of_readable _ (fun path text hread => ?_)
    (Nat.lt_succ_of_le (Nat.le_succ_of_le hlength)) h
  simp only [World.ofKnown] at hread
  cases hlookup : known.lookup path with
  | none =>
      rw [hlookup] at hread
      cases hread
  | some answer =>
      rw [hlookup, Option.getD_some] at hread
      obtain ⟨before, after, hknown, -⟩ := List.lookup_eq_some_iff.mp hlookup
      exact List.mem_filterMap.mpr ⟨(path, answer), by simp [hknown], by rw [hread]; rfl⟩

end Shell

end BuildScript
