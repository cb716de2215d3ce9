import BuildScript.Proofs.ArenaClients

namespace BuildScript

open Client

variable {φ : Type}

/-- A function's work, done by a client with some known handles: what it made,
and its value among the handles known in the end. -/
def Works (keeps : φ → List Handle) (known : List Handle) (a : Arena φ)
    (answer : Reply × Arena φ) : Prop :=
  ∃ known', Runs keeps ⟨known, a⟩ ⟨known', answer.2⟩ ∧ answer.1.value ∈ known'

/-- A host whose functions know the handles they keep and those of their
arguments, and get all others from the arena. What a function keeps is settled
when it is made: functions that remember handles from one call to the next are
not of this kind. -/
class ClientHost (φ : Type) [Host φ] where
  /-- The handles a function keeps. -/
  keeps : φ → List Handle
  works : ∀ body (a : Arena φ) args,
    Works keeps (keeps body ++ args.handles) a (Host.call body a args)

namespace Works

variable {keeps : φ → List Handle} {known : List Handle} {a : Arena φ}

theorem of_subset {answer : Reply × Arena φ} (h : Works keeps known a answer) {more : List Handle}
    (hmore : known ⊆ more) : Works keeps more a answer := by
  obtain ⟨known', hruns, hvalue⟩ := h
  obtain ⟨more', hknown', hruns'⟩ := hruns.of_subset hmore
  exact ⟨more', hruns', hknown' hvalue⟩

theorem given {reply : Reply} (h : reply.value ∈ known) : Works keeps known a (reply, a) :=
  ⟨known, .refl, h⟩

theorem nothing {reply : Reply} (h : reply.value = .null) : Works keeps known a (reply, a) := by
  refine ⟨_, .single (.null _), ?_⟩
  rw [h]
  exact List.mem_cons_self

theorem answer {object : Object φ} (hnull : object.type ≠ .null)
    (hobject : object.references keeps ⊆ known) :
    Works keeps known a (Builtin.answer a object) :=
  ⟨_, .single (.create hnull hobject), List.mem_cons_self⟩

end Works

namespace Bindings

theorem handles_set_subset (b : Bindings) (name : String) (h : Handle) :
    (b.set name h).handles ⊆ h :: b.handles := by
  unfold set
  split
  · intro found hfound
    obtain ⟨e, he, rfl⟩ := List.mem_map.mp hfound
    obtain ⟨e', he', rfl⟩ := List.mem_map.mp he
    split
    · exact List.mem_cons_self
    · exact List.mem_cons_of_mem _ (List.mem_map_of_mem he')
  · rw [handles, List.map_append]
    intro found hfound
    rcases List.mem_append.mp hfound with hfound | hfound
    · exact List.mem_cons_of_mem _ hfound
    · exact List.mem_cons.mpr (.inl (List.mem_singleton.mp hfound))

theorem handles_ofPairs_subset (pairs : List (String × Handle)) :
    (ofPairs pairs).handles ⊆ pairs.map Prod.snd := by
  have hfold : ∀ b : Bindings,
      (pairs.foldl (fun b pair => b.set pair.1 pair.2) b).handles ⊆
        b.handles ++ pairs.map Prod.snd := by
    induction pairs with
    | nil => exact fun b => List.subset_append_left _ _
    | cons pair pairs ih =>
        intro b found hfound
        have hset := handles_set_subset b pair.1 pair.2
        rcases List.mem_append.mp (ih _ hfound) with hfound | hfound
        · rcases List.mem_cons.mp (hset hfound) with rfl | hfound
          · simp
          · exact List.mem_append_left _ hfound
        · exact List.mem_append_right _ (List.mem_cons_of_mem _ hfound)
  exact hfold empty

end Bindings

namespace Arguments

variable {args : Arguments} {found : Argument}

theorem mem_handles_of_getPositional {index : Nat} (h : args.getPositional index = .ok found) :
    found.object ∈ args.handles := by
  unfold getPositional at h
  split at h
  · rename_i hget
    cases h
    refine List.mem_append_left _ (List.mem_map.mpr ⟨found, ?_, rfl⟩)
    exact List.mem_of_getElem? hget
  · cases h

theorem mem_handles_of_getKeyword {name : String} (h : args.getKeyword name = .ok found) :
    found.object ∈ args.handles := by
  unfold getKeyword at h
  split at h
  · rename_i hget
    cases h
    obtain ⟨left, right, hsplit, -⟩ := List.lookup_eq_some_iff.mp hget
    refine List.mem_append_right _ (List.mem_map.mpr ⟨(name, found), ?_, rfl⟩)
    rw [hsplit]
    simp
  · cases h

end Arguments

theorem Builtin.works (keeps : φ → List Handle) (b : Builtin) (a : Arena φ) (args : Arguments) :
    Works keeps args.handles a (b.call a args) := by
  cases b with
  | concat =>
      simp only [Builtin.call, callConcat]
      split
      · exact .answer (by simp [Object.type]) (List.nil_subset _)
      · exact .nothing rfl
  | join =>
      simp only [Builtin.call, callJoin]
      split
      · exact .nothing rfl
      · split
        · rename_i hseparator
          refine .nothing ?_
          unfold separator at hseparator
          split at hseparator
          · cases hseparator
          · split at hseparator
            · cases hseparator
            · cases hseparator
              rfl
        · split
          · exact .nothing rfl
          · split
            · exact .nothing rfl
            · exact .answer (by simp [Object.type]) (List.nil_subset _)
  | struct =>
      simp only [Builtin.call, callStruct]
      split
      · refine .answer (by simp [Object.type]) ?_
        refine List.Subset.trans (Bindings.handles_ofPairs_subset _) ?_
        rw [List.map_map]
        exact List.subset_append_right _ _
      · exact .nothing rfl

instance : ClientHost Builtin where
  keeps _ := []
  works b a args := b.works _ a args

namespace StockFunction

def keeps : StockFunction → List Handle
  | constant value => [value]
  | _ => []

theorem works_pick {known : List Handle} {a : Arena StockFunction}
    {arg : Except ArgumentError Argument} (harg : ∀ found, arg = .ok found →
      found.object ∈ known) : Works keeps known a (pick arg, a) := by
  cases arg with
  | ok found => exact .given (harg found rfl)
  | error e => exact .nothing rfl

theorem works (f : StockFunction) (a : Arena StockFunction) (args : Arguments) :
    Works keeps (f.keeps ++ args.handles) a (f.call a args) := by
  cases f with
  | builtin b => exact b.works keeps a args
  | positional index => exact works_pick fun _ => Arguments.mem_handles_of_getPositional
  | keyword name => exact works_pick fun _ => Arguments.mem_handles_of_getKeyword
  | nothing => exact .nothing rfl
  | constant value => exact .given List.mem_cons_self
  | collect => exact .answer (by simp [Object.type]) (List.subset_append_left _ _)
  | describe => exact .answer (by simp [Object.type]) (List.nil_subset _)
  | reject onPositional onKeyword onCall =>
      have hnull : (Object.string "unused" : Object StockFunction).type ≠ .null := by
        simp [Object.type]
      exact ⟨_, .single (.create hnull (List.nil_subset _)), List.mem_cons_self⟩

instance : ClientHost StockFunction := ⟨keeps, works⟩

end StockFunction

section Lawful

variable {keeps : φ → List Handle}

theorem Object.fits_of_references {n : Nat} {object : Object φ}
    (h : InRange n (object.references keeps)) :
    object.Fits (fun body n => InRange n (keeps body)) n := by
  cases object with
  | null => trivial
  | string text => trivial
  | _ => exact h

theorem Object.Fits.references {n : Nat} {object : Object φ}
    (h : object.Fits (fun body n => InRange n (keeps body)) n) :
    InRange n (object.references keeps) := by
  cases object with
  | null => exact inRange_nil n
  | string text => exact inRange_nil n
  | _ => exact h

theorem Arena.IsOrdered.closed {a : Arena φ} (h : a.IsOrdered keeps) :
    a.Closed fun body n => InRange n (keeps body) := by
  refine ⟨h.size_pos, fun i object hobject => Object.fits_of_references fun found hfound => ?_⟩
  have hlt : i < a.size := (Array.getElem?_eq_some_iff.mp hobject).choose
  exact Nat.lt_trans (h.earlier i object hobject found hfound) hlt

/-- Clients keep arenas closed and know handles of the arena only. -/
theorem Client.Runs.closed {c c' : Client φ} (h : Runs keeps c c')
    (hclosed : c.arena.Closed fun body n => InRange n (keeps body))
    (hknown : InRange c.arena.size c.known) :
    (c'.arena.Closed fun body n => InRange n (keeps body)) ∧ InRange c'.arena.size c'.known := by
  induction h with
  | refl => exact ⟨hclosed, hknown⟩
  | tail _ hstep ih =>
      obtain ⟨hclosed, hknown⟩ := ih
      cases hstep with
      | null => exact ⟨hclosed, inRange_cons.mpr ⟨hclosed.nonempty, hknown⟩⟩
      | create hnull hobject =>
          have hfits := Object.fits_of_references fun h hh => hknown h (hobject hh)
          refine ⟨hclosed.create (fun _ _ _ h hn => h.mono hn) hfits, ?_⟩
          rw [Arena.size_create]
          exact inRange_cons.mpr ⟨Nat.lt_succ_self _, hknown.mono (Nat.le_succ _)⟩
      | follow hh => exact ⟨hclosed, inRange_append.mpr ⟨(hclosed.get _).references, hknown⟩⟩

@[reducible] def ClientHost.lawful (φ : Type) [Host φ] [ClientHost φ] : LawfulHost φ where
  Fits body n := InRange n (ClientHost.keeps body)
  fits_mono _ _ _ h hn := h.mono hn
  serves body a args hclosed hbody hargs := by
    obtain ⟨known, hruns, hvalue⟩ := ClientHost.works body a args
    obtain ⟨hclosed', hknown⟩ := hruns.closed hclosed (inRange_append.mpr ⟨hbody, hargs⟩)
    exact ⟨hclosed', hruns.size_le, fun _ => hknown _ hvalue⟩

end Lawful

end BuildScript
