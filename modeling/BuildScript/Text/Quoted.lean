import BuildScript.Text.Visibility

namespace BuildScript.Quoted

def isSpecial (c : Char) : Bool := c == '"' || c == '\\'

def encode : List Char → List Char
  | [] => []
  | c :: cs => if isSpecial c then '\\' :: c :: encode cs else c :: encode cs

/-- A text as a literal of the language. -/
def quote (text : String) : String :=
  String.ofList ('"' :: encode text.toList ++ ['"'])

def inspectChar (c : Char) : List Char :=
  if isSpecial c then ['\\', c]
  else if c == '\n' then ['\\', 'n']
  else if c == '\t' then ['\\', 't']
  else if c == '\r' then ['\\', 'r']
  else if c.toNat == 0 then ['\\', '0']
  else if Visibility.isVisible c then [c]
  else "\\u\x7b".toList ++ Nat.toDigits 16 c.toNat ++ "\x7d".toList

/-- A text as diagnostics show it: on one line, between quotes. -/
def inspect (text : String) : String :=
  String.ofList ('"' :: text.toList.flatMap inspectChar ++ ['"'])

end BuildScript.Quoted
