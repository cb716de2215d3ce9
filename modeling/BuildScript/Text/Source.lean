import BuildScript.Text.Position

namespace BuildScript

/-- A named text. The serial number tells apart two documents that happen to
have the same name and the same contents. -/
structure Source where
  name : String
  text : String
  serial : Nat := 0
deriving DecidableEq

namespace Source

def ofText (text : String) : Source := ⟨"<input>", text, 0⟩

def sameContents (a b : Source) : Bool :=
  a.name == b.name && a.text == b.text

end Source

structure Location where
  source : Source
  position : Position
deriving DecidableEq

/-- What is left of a text once its first `n` bytes are gone. -/
def dropBytes : Nat → List Char → List Char
  | 0, cs => cs
  | _ + 1, [] => []
  | n + 1, c :: cs => dropBytes (n + 1 - c.utf8Size) cs

namespace Location

def startOf (source : Source) : Location := ⟨source, .start⟩

def label (l : Location) : String :=
  l.source.name ++ ":" ++ toString l.position.line ++ ":" ++ toString l.position.column

/-- The whole line a location is on, without its newline. -/
def lineText (l : Location) : String :=
  String.ofList ((dropBytes l.position.lineStart l.source.text.toList).takeWhile (· != '\n'))

/-- The line of a location with a caret under it and a message beside the
caret. -/
def annotate (l : Location) (message : String) : String :=
  l.lineText ++ "\n" ++ String.ofList (List.replicate (l.position.column - 1) ' ') ++
    "^-- " ++ message

end Location

end BuildScript
