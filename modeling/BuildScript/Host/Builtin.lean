import BuildScript.Call.Host
import BuildScript.Scope
import BuildScript.Journal

namespace BuildScript

inductive Builtin where
  | concat
  | join
  | struct
deriving DecidableEq

namespace Builtin

def all : List Builtin := [concat, join, struct]

def name : Builtin → String
  | concat => "concat"
  | join => "join"
  | struct => "struct"

def ofName? (name : String) : Option Builtin :=
  all.find? (·.name == name)

variable {φ : Type}

def answer (arena : Arena φ) (object : Object φ) : Reply × Arena φ :=
  let (handle, arena) := arena.create object
  (.returning handle, arena)

def stringErrors (arena : Arena φ) (args : List Argument) : List (Nat × String) :=
  args.filterMap fun arg =>
    match arena.asString arg.object with
    | .ok _ => none
    | .error e => some (arg.id, e.message)

def texts (arena : Arena φ) (handles : List Handle) : List String :=
  handles.filterMap fun h => (arena.asString h).toOption

/-- `concat(s ...)`: all positional strings, one after the other. -/
def callConcat (arena : Arena φ) (args : Arguments) : Reply × Arena φ :=
  match stringErrors arena args.positional with
  | [] => answer arena (.string (String.join (texts arena (args.positional.map (·.object)))))
  | errors => ({ argumentErrors := errors }, arena)

def separator (arena : Arena φ) (args : Arguments) : Except Reply String :=
  match args.getKeyword "sep" with
  | .error _ => .ok ""
  | .ok arg =>
    match arena.asString arg.object with
    | .ok text => .ok text
    | .error e => .error (.rejecting arg e.message)

theorem isSuccess_of_separator_eq_error {arena : Arena φ} {args : Arguments} {reply : Reply}
    (h : separator arena args = .error reply) : reply.isSuccess = false := by
  unfold separator at h
  split at h
  · cases h
  · split at h
    · cases h
    · cases h
      rfl

def entryTexts (arena : Arena φ) : List Handle → Except ObjectError (List String)
  | [] => .ok []
  | h :: hs =>
    match arena.asString h with
    | .error e => .error e
    | .ok text =>
      match entryTexts arena hs with
      | .error e => .error e
      | .ok more => .ok (text :: more)

/-- `join(list sep="")`: the strings of a list with `sep` between them. -/
def callJoin (arena : Arena φ) (args : Arguments) : Reply × Arena φ :=
  match args.getPositional 0 with
  | .error e => (.failure e.message, arena)
  | .ok list =>
    match separator arena args with
    | .error reply => (reply, arena)
    | .ok sep =>
      match arena.asList list.object with
      | .error e => (.rejecting list e.message, arena)
      | .ok entries =>
        match entryTexts arena entries with
        | .error e => (.rejecting list ("List entry: " ++ e.message), arena)
        | .ok parts => answer arena (.string (sep.intercalate parts))

/-- `struct(k=v ...)`: a struct with an attribute for each keyword. -/
def callStruct (arena : Arena φ) (args : Arguments) : Reply × Arena φ :=
  match args.positional with
  | [] => answer arena (.struct (.ofPairs (args.keyword.map fun e => (e.1, e.2.object))))
  | positional =>
    ({ argumentErrors :=
        positional.map fun arg => (arg.id, "struct only takes keyword arguments") }, arena)

def call : Builtin → Arena φ → Arguments → Reply × Arena φ
  | concat => callConcat
  | join => callJoin
  | struct => callStruct

instance : Host Builtin := ⟨Builtin.call⟩

/-- Makes the functions of a list and binds each under its name. The first
name that is already taken ends it; the functions made until then stay. -/
def bindAll (embed : Builtin → φ) :
    List Builtin → Arena φ → Scope → Except ScopeError Unit × Arena φ × Scope
  | [], arena, scope => (.ok (), arena, scope)
  | b :: bs, arena, scope =>
    let (handle, arena) := arena.create (.function (embed b))
    match scope.put b.name handle with
    | .ok scope => bindAll embed bs arena scope
    | .error e => (.error e, arena, scope)

/-- Installs all builtins. A host tells how they are among its functions. -/
def install (embed : Builtin → φ) (arena : Arena φ) (scope : Scope) (journal : Journal) :
    Except ScopeError Unit × Arena φ × Scope × Journal :=
  match bindAll embed all arena scope with
  | (.ok (), arena, scope) =>
    (.ok (), arena, scope, journal.record (.builtinsInstalled all.length))
  | (.error e, arena, scope) => (.error e, arena, scope, journal)

end Builtin

end BuildScript
