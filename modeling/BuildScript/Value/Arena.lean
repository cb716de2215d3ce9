import BuildScript.Text.Quoted
import BuildScript.Value.Object

namespace BuildScript

/-- All objects made so far, by index. The first one is null. -/
structure Arena (φ : Type) where
  objects : Array (Object φ)

namespace Arena

variable {φ : Type}

def empty : Arena φ := ⟨#[.null]⟩

def size (a : Arena φ) : Nat := a.objects.size

/-- The object of a handle. A handle of another arena may name nothing, which
is null. -/
def get (a : Arena φ) (h : Handle) : Object φ := a.objects.getD h.index .null

def create (a : Arena φ) (o : Object φ) : Handle × Arena φ :=
  (⟨a.size⟩, ⟨a.objects.push o⟩)

def attr (a : Arena φ) (h : Handle) (name : String) : Except ObjectError Handle :=
  (a.get h).attr name

def asString (a : Arena φ) (h : Handle) : Except ObjectError String := (a.get h).asString

def asList (a : Arena φ) (h : Handle) : Except ObjectError (List Handle) := (a.get h).asList

def asFunction (a : Arena φ) (h : Handle) : Except ObjectError φ := (a.get h).asFunction

@[simp] theorem size_create (a : Arena φ) (o : Object φ) :
    (a.create o).2.size = a.size + 1 := by
  simp [create, size]

theorem get_create (a : Arena φ) (o : Object φ) (h : Handle) :
    (a.create o).2.get h = if h.index = a.size then o else a.get h := by
  by_cases hlast : h.index = a.objects.size <;>
    simp [create, get, size, Array.getD_eq_getD_getElem?, Array.getElem?_push, hlast]

theorem get_create_self (a : Arena φ) (o : Object φ) :
    (a.create o).2.get (a.create o).1 = o := by
  rw [get_create]
  exact if_pos rfl

theorem get_create_of_lt {a : Arena φ} {o : Object φ} {h : Handle} (hlt : h.index < a.size) :
    (a.create o).2.get h = a.get h := by
  rw [get_create, if_neg (Nat.ne_of_lt hlt)]

/-- The text of an object, following handles at most `depth` deep. -/
def renderTo (a : Arena φ) : (depth : Nat) → Handle → String
  | 0, _ => ""
  | depth + 1, h =>
    match a.get h with
    | .null => "null"
    | .function _ => "<function>"
    | .string text => Quoted.quote text
    | .list entries => "[" ++ " ".intercalate (entries.map (a.renderTo depth)) ++ "]"
    | .struct attributes =>
      "\x7b" ++
        " ".intercalate (attributes.sorted.map fun e => e.1 ++ " = " ++ a.renderTo depth e.2) ++
        "\x7d"

/-- The text of an object: strings quoted, lists in brackets, structs in
braces with their attributes by name. Objects refer to earlier ones only, so
no chain of handles is longer than the index it starts from. -/
def render (a : Arena φ) (h : Handle) : String := a.renderTo (h.index + 1) h

end Arena

namespace Handle

def inspect (h : Handle) : String := "ObjectRef(" ++ toString h.index ++ ")"

end Handle

namespace Object

variable {φ : Type}

def inspect : Object φ → String
  | null => "Null"
  | function _ => "Function(..)"
  | string text => "String(" ++ Quoted.inspect text ++ ")"
  | list entries => "List([" ++ ", ".intercalate (entries.map Handle.inspect) ++ "])"
  | struct attributes =>
    "Struct(\x7b" ++
      ", ".intercalate (attributes.entries.map fun e =>
        Quoted.inspect e.1 ++ ": " ++ e.2.inspect) ++ "\x7d)"

end Object

end BuildScript
