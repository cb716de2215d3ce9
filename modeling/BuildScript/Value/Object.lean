namespace BuildScript

/-- The name of an object: its index in the arena it lives in. -/
structure Handle where
  index : Nat
deriving DecidableEq

namespace Handle

def null : Handle := ⟨0⟩

def isNull (h : Handle) : Bool := h == null

end Handle

theorem lookup_eq_none_iff_notMem {β : Type} {name : String} {entries : List (String × β)} :
    entries.lookup name = none ↔ name ∉ entries.map Prod.fst := by
  rw [List.lookup_eq_none_iff, List.mem_map]
  constructor
  · rintro hnone ⟨e, he, rfl⟩
    simpa using hnone e he
  · intro hnone e he
    simpa using fun hname => hnone ⟨e, he, Eq.symm hname⟩

theorem lookup_concat {β : Type} {name : String} {entries : List (String × β)}
    (hnew : name ∉ entries.map Prod.fst) (b : β) (other : String) :
    (entries ++ [(name, b)]).lookup other =
      if other = name then some b else entries.lookup other := by
  rw [List.lookup_append]
  by_cases hname : other = name
  · simp [hname, lookup_eq_none_iff_notMem.mpr hnew]
  · simp [hname, List.lookup_cons, beq_false_of_ne hname]

/-- Names with the handles they are bound to, in the order they were first
bound. No name occurs twice. -/
structure Bindings where
  entries : List (String × Handle)
  distinct : (entries.map Prod.fst).Nodup

namespace Bindings

def empty : Bindings := ⟨[], List.nodup_nil⟩

def names (b : Bindings) : List String := b.entries.map Prod.fst

def size (b : Bindings) : Nat := b.entries.length

def find? (b : Bindings) (name : String) : Option Handle := b.entries.lookup name

private theorem distinct_append {b : Bindings} {name : String} (h : name ∉ b.names)
    (handle : Handle) : ((b.entries ++ [(name, handle)]).map Prod.fst).Nodup := by
  rw [List.map_append, List.nodup_append]
  refine ⟨b.distinct, by simp, ?_⟩
  intro x hx y hy hxy
  have hy' : y = name := by simpa using hy
  exact h (hy' ▸ hxy ▸ hx)

def add? (b : Bindings) (name : String) (handle : Handle) : Option Bindings :=
  if h : name ∈ b.names then none
  else some ⟨b.entries ++ [(name, handle)], distinct_append h handle⟩

def rebind (name : String) (handle : Handle) (entries : List (String × Handle)) :
    List (String × Handle) :=
  entries.map fun e => if e.1 = name then (e.1, handle) else e

theorem map_fst_rebind (name : String) (handle : Handle) (entries : List (String × Handle)) :
    (rebind name handle entries).map Prod.fst = entries.map Prod.fst := by
  rw [rebind, List.map_map]
  apply List.map_congr_left
  intro e _
  by_cases h : e.1 = name <;> simp [h]

def set (b : Bindings) (name : String) (handle : Handle) : Bindings :=
  if h : name ∈ b.names then
    ⟨rebind name handle b.entries, (map_fst_rebind name handle b.entries).symm ▸ b.distinct⟩
  else ⟨b.entries ++ [(name, handle)], distinct_append h handle⟩

/-- Bindings made of pairs; of two pairs with one name the later counts. -/
def ofPairs (pairs : List (String × Handle)) : Bindings :=
  pairs.foldl (fun b pair => b.set pair.1 pair.2) empty

def insertByName (e : String × Handle) : List (String × Handle) → List (String × Handle)
  | [] => [e]
  | f :: fs => if e.1 ≤ f.1 then e :: f :: fs else f :: insertByName e fs

def sorted (b : Bindings) : List (String × Handle) :=
  b.entries.foldr insertByName []

@[simp] theorem find?_empty (name : String) : empty.find? name = none := rfl

theorem add?_eq_none_iff {b : Bindings} {name : String} {handle : Handle} :
    b.add? name handle = none ↔ name ∈ b.names := by
  unfold add?
  split <;> simp_all

theorem entries_of_add? {b b' : Bindings} {name : String} {handle : Handle}
    (h : b.add? name handle = some b') :
    name ∉ b.names ∧ b'.entries = b.entries ++ [(name, handle)] := by
  unfold add? at h
  split at h
  · cases h
  · rename_i hname
    cases h
    exact ⟨hname, rfl⟩

theorem find?_eq_none_iff {b : Bindings} {name : String} :
    b.find? name = none ↔ name ∉ b.names :=
  lookup_eq_none_iff_notMem

theorem perm_insertByName (e : String × Handle) (es : List (String × Handle)) :
    (insertByName e es).Perm (e :: es) := by
  induction es with
  | nil => exact .refl _
  | cons f fs ih =>
    rw [insertByName]
    split
    · exact .refl _
    · exact (ih.cons f).trans (.swap e f fs)

theorem perm_foldr_insertByName (es : List (String × Handle)) :
    (es.foldr insertByName []).Perm es := by
  induction es with
  | nil => exact .refl _
  | cons e es ih => exact (perm_insertByName e _).trans (ih.cons e)

theorem perm_sorted (b : Bindings) : b.sorted.Perm b.entries :=
  perm_foldr_insertByName b.entries

end Bindings

inductive ObjectType where
  | null
  | struct
  | function
  | string
  | list
deriving DecidableEq

def ObjectType.name : ObjectType → String
  | null => "null"
  | struct => "struct"
  | function => "function"
  | string => "string"
  | list => "list"

inductive Object (φ : Type) where
  | null
  | struct (attributes : Bindings)
  | function (body : φ)
  | string (text : String)
  | list (entries : List Handle)

inductive ObjectError where
  | unknownAttribute (name : String) (type : ObjectType)
  | notCallable (type : ObjectType)
  | notAString (type : ObjectType)
  | notAList (type : ObjectType)
deriving DecidableEq

def ObjectError.message : ObjectError → String
  | unknownAttribute name type =>
    "Unknown attribute '" ++ name ++ "' for type " ++ type.name
  | notCallable type => "Object of type " ++ type.name ++ " is not callable"
  | notAString type => "Object of type " ++ type.name ++ " is not a string"
  | notAList type => "Object of type " ++ type.name ++ " is not a list"

namespace Object

variable {φ : Type}

def type : Object φ → ObjectType
  | null => .null
  | struct _ => .struct
  | function _ => .function
  | string _ => .string
  | list _ => .list

/-- The attribute of a struct. No other object has any. -/
def attr (o : Object φ) (name : String) : Except ObjectError Handle :=
  match o with
  | struct attributes =>
    match attributes.find? name with
    | some handle => .ok handle
    | none => .error (.unknownAttribute name .struct)
  | o => .error (.unknownAttribute name o.type)

def isCallable : Object φ → Bool
  | function _ => true
  | _ => false

def asFunction : Object φ → Except ObjectError φ
  | function body => .ok body
  | o => .error (.notCallable o.type)

def asString : Object φ → Except ObjectError String
  | string text => .ok text
  | o => .error (.notAString o.type)

def asList : Object φ → Except ObjectError (List Handle)
  | list entries => .ok entries
  | o => .error (.notAList o.type)

end Object

end BuildScript
