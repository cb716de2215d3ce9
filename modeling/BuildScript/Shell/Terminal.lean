/-!
Text for logs, without what a terminal would obey. Controls other than line
layout are left out, and so are whole control sequences: an escape character
and what belongs to it.

A log that is being shown goes on until a character that cannot be shown. The
reader then takes up again where it last stood in a control sequence, so that
line layout inside a sequence is shown but does not end it for good.
-/

namespace BuildScript.Shell.Terminal

/-- Where in a control sequence a reader stands. -/
inductive Phase where
  /-- in no sequence -/
  | ground
  /-- after the escape character -/
  | escape
  /-- after the escape character and marks that belong to it -/
  | marked
  /-- in a sequence that ends with a letter -/
  | command
  /-- at the head of a device string: at its start, in its numbers, in its marks -/
  | deviceStart
  | deviceNumbers
  | deviceMarks
  /-- in a string that ends with a string terminator -/
  | string
  /-- in a string that also ends with a bell -/
  | systemString
deriving DecidableEq

/-- Tab, newline, form feed and carriage return. -/
def isLayout (c : Char) : Bool :=
  c == '\t' || c == '\n' || c.toNat == 12 || c == '\r'

def isShown (c : Char) : Bool :=
  isLayout c || (0x20 ≤ c.toNat && c.toNat != 0x7f)

/-- Whether one of the bytes that encode a character is the string terminator. -/
def holdsTerminator (c : Char) : Bool := (String.utf8EncodeChar c).contains 0x9c

/-- Where the escape character and a printable character `n` lead to. -/
def afterEscape (n : Nat) : Phase :=
  if n < 0x30 then .marked
  else if n = 0x50 then .deviceStart
  else if n = 0x58 || n = 0x5e || n = 0x5f then .string
  else if n = 0x5b then .command
  else if n = 0x5d then .systemString
  else .ground

def Phase.afterPrintable (phase : Phase) (n : Nat) : Phase :=
  match phase with
  | ground => ground
  | escape => afterEscape n
  | marked => if n < 0x30 then marked else ground
  | command => if n < 0x40 then command else ground
  | deviceStart =>
    if n < 0x30 then deviceMarks else if n < 0x40 then deviceNumbers else string
  | deviceNumbers =>
    if n < 0x30 then deviceMarks else if n < 0x3c then deviceNumbers else string
  | deviceMarks => if n < 0x30 then deviceMarks else string
  | string => string
  | systemString => systemString

def Phase.showsLayout : Phase → Bool
  | ground => true
  | escape => true
  | marked => true
  | command => true
  | _ => false

def Phase.read (phase : Phase) (c : Char) : Phase × Bool :=
  let n := c.toNat
  if n = 0x1b then (escape, false)
  else if n = 0x18 || n = 0x1a then (ground, false)
  else if n = 0x07 && phase = systemString then (ground, false)
  else if n < 0x20 then (phase, isLayout c && phase.showsLayout)
  else if n = 0x7f then (phase, false)
  else if n < 0x7f then (phase.afterPrintable n, phase = ground)
  else if phase = string && holdsTerminator c then (ground, false)
  else (phase, phase = ground)

/-- A reader of log text: whether the last character was shown, and the phase
to take up again. -/
structure Reader where
  showing : Bool := false
  phase : Phase := .ground

def Reader.read (r : Reader) (c : Char) : Reader × Bool :=
  if r.showing && isShown c then
    (⟨true, if c.toNat < 0x80 then r.phase else .ground⟩, true)
  else
    let (phase, shown) := r.phase.read c
    (⟨shown, phase⟩, shown)

def showAll (r : Reader) : List Char → List Char
  | [] => []
  | c :: cs =>
    let (r, shown) := r.read c
    if shown then c :: showAll r cs else showAll r cs

def plain (text : String) : String := String.ofList (showAll {} text.toList)

end BuildScript.Shell.Terminal
