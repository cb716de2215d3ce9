import Mathlib.Algebra.Group.Nat.Defs
import BuildScript.Proofs.Loading

/-!
What a program imports, told by its syntax. An import asks for its specifier and
then for all that its program asks for. The body of a comprehension is read
twice, first as the first entry of a list, so what is imported in the bodies of
`n` comprehensions around it is asked for `2 ^ n` times.
-/

namespace BuildScript.Derivation

section Traces

variable (inner : String → List String)

mutual

/-- The specifiers that the reading of a value asks for, in order, where `inner`
tells what the program of a specifier asks for. -/
def Value.trace : Value → List String
  | .inclusion specifier => specifier :: inner specifier
  | .call _ arguments => argumentsTrace arguments
  | .object _ => []
  | .parenthesized _ => []
  | .list entries => entriesTrace entries
  | .listFor body _ source => body.trace ++ body.trace ++ source.trace
  | .string _ => []

def entriesTrace : List Value → List String
  | [] => []
  | value :: values => value.trace ++ entriesTrace values

def Argument.trace : Argument → List String
  | .keyword _ value => value.trace
  | .positional value => value.trace

def argumentsTrace : List Argument → List String
  | [] => []
  | argument :: arguments => argument.trace ++ argumentsTrace arguments

end

/-- A call that is a statement is no import, whatever it looks like. -/
def Statement.trace : Statement → List String
  | .assignment _ value => value.trace inner
  | .call _ arguments => argumentsTrace inner arguments

def programTrace (statements : List Statement) : List String :=
  statements.flatMap (Statement.trace inner)

end Traces

/-- An import with one more comprehension body around it. -/
def deepen (place : String × Nat) : String × Nat := (place.1, place.2 + 1)

section Places

variable (inner : String → List (String × Nat))

mutual

/-- The imports in a value, each once, with the number of comprehension bodies
around it. Here `inner` tells the imports in the program of a specifier. -/
def Value.places : Value → List (String × Nat)
  | .inclusion specifier => (specifier, 0) :: inner specifier
  | .call _ arguments => argumentsPlaces arguments
  | .object _ => []
  | .parenthesized _ => []
  | .list entries => entriesPlaces entries
  | .listFor body _ source => body.places.map deepen ++ source.places
  | .string _ => []

def entriesPlaces : List Value → List (String × Nat)
  | [] => []
  | value :: values => value.places ++ entriesPlaces values

def Argument.places : Argument → List (String × Nat)
  | .keyword _ value => value.places
  | .positional value => value.places

def argumentsPlaces : List Argument → List (String × Nat)
  | [] => []
  | argument :: arguments => argument.places ++ argumentsPlaces arguments

end

def Statement.places : Statement → List (String × Nat)
  | .assignment _ value => value.places inner
  | .call _ arguments => argumentsPlaces inner arguments

def programPlaces (statements : List Statement) : List (String × Nat) :=
  statements.flatMap (Statement.places inner)

end Places

/-- Each import as often as it is asked for: twice for each comprehension body
around it. -/
def repeated (places : List (String × Nat)) : List String :=
  places.flatMap fun place => List.replicate (2 ^ place.2) place.1

theorem repeated_append (places places' : List (String × Nat)) :
    repeated (places ++ places') = repeated places ++ repeated places' :=
  List.flatMap_append

theorem repeated_deepen (places : List (String × Nat)) :
    (repeated places ++ repeated places).Perm (repeated (places.map deepen)) := by
  induction places with
  | nil => exact .refl _
  | cons place places ih =>
      have hfirst : List.replicate (2 ^ (place.2 + 1)) place.1 =
          List.replicate (2 ^ place.2) place.1 ++ List.replicate (2 ^ place.2) place.1 := by
        rw [List.replicate_append_replicate, Nat.pow_succ, Nat.mul_two]
      have hplaces : repeated (place :: places) =
          List.replicate (2 ^ place.2) place.1 ++ repeated places := rfl
      have hdeepened : repeated ((place :: places).map deepen) =
          List.replicate (2 ^ (place.2 + 1)) place.1 ++ repeated (places.map deepen) := rfl
      rw [hplaces, hdeepened, hfirst, List.append_assoc, List.append_assoc]
      exact ((List.perm_append_comm_assoc _ _ _).trans (ih.append_left _)).append_left _

section Counting

variable {inner : String → List String} {below : String → List (String × Nat)}

mutual

/-- What a value asks for is each of its imports as often as it is repeated. -/
theorem Value.trace_perm : ∀ {value : Value},
    (∀ s ∈ value.specifiers, (inner s).Perm (repeated (below s))) →
      (value.trace inner).Perm (repeated (value.places below))
  | .inclusion specifier, h => (h specifier (List.mem_singleton_self _)).cons specifier
  | .call _ _, h => argumentsTrace_perm fun s hs => h s (List.mem_append_right _ hs)
  | .object _, _ => .refl _
  | .parenthesized _, _ => .refl _
  | .list _, h => entriesTrace_perm h
  | .listFor body _ source, h => by
      obtain ⟨hbody, hsource⟩ := List.forall_mem_append.mp h
      rw [Value.trace, Value.places, repeated_append]
      exact (((Value.trace_perm hbody).append (Value.trace_perm hbody)).trans
        (repeated_deepen _)).append (Value.trace_perm hsource)
  | .string _, _ => .refl _

theorem entriesTrace_perm : ∀ {values : List Value},
    (∀ s ∈ entrySpecifiers values, (inner s).Perm (repeated (below s))) →
      (entriesTrace inner values).Perm (repeated (entriesPlaces below values))
  | [], _ => .refl _
  | _ :: _, h => by
      obtain ⟨hvalue, hvalues⟩ := List.forall_mem_append.mp h
      rw [entriesTrace, entriesPlaces, repeated_append]
      exact (Value.trace_perm hvalue).append (entriesTrace_perm hvalues)

theorem Argument.trace_perm : ∀ {argument : Argument},
    (∀ s ∈ argument.specifiers, (inner s).Perm (repeated (below s))) →
      (argument.trace inner).Perm (repeated (argument.places below))
  | .keyword _ _, h => Value.trace_perm h
  | .positional _, h => Value.trace_perm h

theorem argumentsTrace_perm : ∀ {arguments : List Argument},
    (∀ s ∈ argumentSpecifiers arguments, (inner s).Perm (repeated (below s))) →
      (argumentsTrace inner arguments).Perm (repeated (argumentsPlaces below arguments))
  | [], _ => .refl _
  | _ :: _, h => by
      obtain ⟨hargument, harguments⟩ := List.forall_mem_append.mp h
      rw [argumentsTrace, argumentsPlaces, repeated_append]
      exact (Argument.trace_perm hargument).append (argumentsTrace_perm harguments)

end

theorem Statement.trace_perm {statement : Statement}
    (h : ∀ s ∈ statement.specifiers, (inner s).Perm (repeated (below s))) :
    (statement.trace inner).Perm (repeated (statement.places below)) := by
  cases statement with
  | assignment target value => exact Value.trace_perm h
  | call callee arguments => exact argumentsTrace_perm h

theorem programTrace_perm {statements : List Statement}
    (h : ∀ s ∈ programSpecifiers statements, (inner s).Perm (repeated (below s))) :
    (programTrace inner statements).Perm (repeated (programPlaces below statements)) := by
  induction statements with
  | nil => exact .refl _
  | cons statement statements ih =>
      obtain ⟨hstatement, hstatements⟩ := List.forall_mem_append.mp h
      rw [programTrace, programPlaces, List.flatMap_cons, List.flatMap_cons, repeated_append]
      exact (Statement.trace_perm hstatement).append (ih hstatements)

end Counting

end BuildScript.Derivation

namespace BuildScript

open BuildScript.Derivation

/-- What the reading of a source into a tree asks for, and the imports it does
this for. Both are told by the preferred derivation that the tree is of. -/
def AsksFor (resolve : String → Resolution) :
    (depth : Nat) → Source → Node → List String → List (String × Nat) → Prop
  | 0, _, _, _, _ => False
  | depth + 1, source, node, trace, places =>
      ∃ statements inner below, Derives source statements ∧
        (∀ statement ∈ statements, statement.Preferred) ∧
        ProgramHasTree (fun s tree => ∃ found, resolve s = .program found ∧
          AsksFor resolve depth found tree (inner s) (below s)) statements node ∧
        trace = programTrace inner statements ∧ places = programPlaces below statements

variable {resolve : String → Resolution} {depth : Nat} {source : Source} {node : Node}
  {trace : List String} {places : List (String × Nat)}

theorem AsksFor.trace_perm (h : AsksFor resolve depth source node trace places) :
    trace.Perm (repeated places) := by
  induction depth generalizing source node trace places with
  | zero => cases h
  | succ depth ih =>
      obtain ⟨statements, inner, below, -, hpreferred, ⟨_, _, -, htrees⟩, rfl, rfl⟩ := h
      refine programTrace_perm fun s hs => ?_
      obtain ⟨tree, found, -, hasks⟩ := included_of_mem_programSpecifiers htrees hpreferred s hs
      exact ih hasks

end BuildScript
