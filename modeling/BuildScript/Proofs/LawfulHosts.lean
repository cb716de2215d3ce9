import BuildScript.Proofs.Ranges
import BuildScript.Host.Stock

namespace BuildScript

variable {φ : Type} {fits : φ → Nat → Prop} {a : Arena φ} {args : Arguments}

namespace Serves

theorem refusal (h : a.Closed fits) {reply : Reply} (hreply : reply.isSuccess = false) :
    Serves fits a (reply, a) :=
  ⟨h, Nat.le_refl _, fun hsuccess => by rw [hreply] at hsuccess; cases hsuccess⟩

theorem returning (h : a.Closed fits) {handle : Handle} (hhandle : handle.index < a.size) :
    Serves fits a (.returning handle, a) :=
  ⟨h, Nat.le_refl _, fun _ => hhandle⟩

theorem answer (hfits : ∀ body n n', fits body n → n ≤ n' → fits body n') (h : a.Closed fits)
    {object : Object φ} (hobject : object.Fits fits a.size) :
    Serves fits a (Builtin.answer a object) := by
  refine ⟨h.create hfits hobject, ?_, fun _ => ?_⟩
  · change a.size ≤ (a.create object).2.size
    rw [Arena.size_create]
    exact Nat.le_succ _
  · change a.size < (a.create object).2.size
    rw [Arena.size_create]
    exact Nat.lt_succ_self _

end Serves

namespace Bindings

variable {n : Nat} {b : Bindings} {handle : Handle}

theorem inRange_set (hb : InRange n b.handles) (hhandle : handle.index < n) (name : String) :
    InRange n (b.set name handle).handles := by
  unfold set
  split
  · intro h hh
    obtain ⟨e, he, rfl⟩ := List.mem_map.mp hh
    obtain ⟨e', he', rfl⟩ := List.mem_map.mp he
    split
    · exact hhandle
    · exact hb _ (List.mem_map_of_mem he')
  · rw [handles, List.map_append]
    exact inRange_append.mpr ⟨hb, inRange_cons.mpr ⟨hhandle, inRange_nil n⟩⟩

theorem inRange_ofPairs {pairs : List (String × Handle)} (h : InRange n (pairs.map Prod.snd)) :
    InRange n (ofPairs pairs).handles := by
  have hfold : ∀ b : Bindings, InRange n b.handles →
      InRange n (pairs.foldl (fun b pair => b.set pair.1 pair.2) b).handles := by
    induction pairs with
    | nil => exact fun b hb => hb
    | cons pair pairs ih =>
        obtain ⟨hpair, hpairs⟩ := inRange_cons.mp h
        exact fun b hb => ih hpairs _ (inRange_set hb hpair pair.1)
  exact hfold empty (inRange_nil n)

end Bindings

/-- Builtins serve every arena, whatever the other functions in it are. -/
theorem Builtin.serves (hfits : ∀ body n n', fits body n → n ≤ n' → fits body n') (b : Builtin)
    (h : a.Closed fits) (hargs : InRange a.size args.handles) : Serves fits a (b.call a args) := by
  cases b with
  | concat =>
      simp only [Builtin.call, callConcat]
      split
      · exact .answer hfits h trivial
      · rename_i herrors
        refine .refusal h ?_
        simpa [Reply.isSuccess] using herrors
  | join =>
      simp only [Builtin.call, callJoin]
      split
      · exact .refusal h rfl
      · split
        · rename_i hseparator
          exact .refusal h (isSuccess_of_separator_eq_error hseparator)
        · split
          · exact .refusal h rfl
          · split
            · exact .refusal h rfl
            · exact .answer hfits h trivial
  | struct =>
      simp only [Builtin.call, callStruct]
      split
      · refine .answer hfits h (Bindings.inRange_ofPairs ?_)
        rw [List.map_map]
        exact (inRange_append.mp hargs).2
      · rename_i hpositional
        refine .refusal h ?_
        simpa [Reply.isSuccess] using hpositional

instance : LawfulHost Builtin where
  Fits _ _ := True
  fits_mono _ _ _ _ _ := trivial
  serves b _ _ h _ hargs := b.serves (fun _ _ _ _ _ => trivial) h hargs

namespace StockFunction

def Fits : StockFunction → Nat → Prop
  | constant value, n => value.index < n
  | _, _ => True

theorem fits_mono (f : StockFunction) (n n' : Nat) (h : f.Fits n) (hn : n ≤ n') : f.Fits n' := by
  cases f with
  | constant value => exact Nat.lt_of_lt_of_le h hn
  | _ => trivial

theorem serves_pick {a : Arena StockFunction} (h : a.Closed Fits)
    {arg : Except ArgumentError Argument} (harg : ∀ found, arg = .ok found →
      found.object.index < a.size) : Serves Fits a (pick arg, a) := by
  cases arg with
  | ok found => exact .returning h (harg found rfl)
  | error e => exact .refusal h rfl

theorem serves (f : StockFunction) (a : Arena StockFunction) (args : Arguments)
    (h : a.Closed Fits) (hf : f.Fits a.size) (hargs : InRange a.size args.handles) :
    Serves Fits a (f.call a args) := by
  obtain ⟨hpositional, hkeyword⟩ := inRange_append.mp hargs
  cases f with
  | builtin b => exact b.serves fits_mono h hargs
  | positional index =>
      refine serves_pick h fun found hfound => ?_
      unfold Arguments.getPositional at hfound
      split at hfound
      · rename_i hget
        cases hfound
        exact hpositional _ (List.mem_map_of_mem (List.mem_of_getElem? hget))
      · cases hfound
  | keyword name =>
      refine serves_pick h fun found hfound => ?_
      unfold Arguments.getKeyword at hfound
      split at hfound
      · rename_i hget
        cases hfound
        obtain ⟨left, right, hsplit, -⟩ := List.lookup_eq_some_iff.mp hget
        refine hkeyword _ (List.mem_map.mpr ⟨(name, found), ?_, rfl⟩)
        rw [hsplit]
        simp
      · cases hfound
  | nothing => exact .returning h h.nonempty
  | constant value => exact .returning h hf
  | collect => exact .answer fits_mono h hpositional
  | describe => exact .answer fits_mono h trivial
  | reject onPositional onKeyword onCall =>
      have hanswer : Serves Fits a (Builtin.answer a (.string "unused")) :=
        .answer fits_mono h trivial
      exact ⟨hanswer.closed, hanswer.size_le, fun _ => hanswer.value rfl⟩

instance : LawfulHost StockFunction where
  Fits := Fits
  fits_mono := fits_mono
  serves := serves

end StockFunction

end BuildScript
