import BuildScript.Text.Source

namespace BuildScript

inductive TokenKind where
  | identifier (name : String)
  | string (text : String)
  | forKeyword
  | inKeyword
  | dot
  | bracketOpen
  | bracketClose
  | parenOpen
  | parenClose
  | assign
  | endOfStream
deriving DecidableEq

namespace TokenKind

def name : TokenKind → String
  | identifier _ => "IDENTIFIER"
  | string _ => "STRING"
  | forKeyword => "FOR"
  | inKeyword => "IN"
  | dot => "DOT"
  | bracketOpen => "BRACK_OPEN"
  | bracketClose => "BRACK_CLOSE"
  | parenOpen => "PAR_OPEN"
  | parenClose => "PAR_CLOSE"
  | assign => "ASSIGN"
  | endOfStream => "EOS"

def payload : TokenKind → Option String
  | identifier name => some name
  | string text => some text
  | _ => none

/-- Whether two kinds agree, whatever text they carry. -/
def sameKind : TokenKind → TokenKind → Bool
  | identifier _, identifier _ => true
  | string _, string _ => true
  | a, b => a == b

/-- The kind of a word: two words are reserved, all others are identifiers. -/
def ofWord (word : List Char) : TokenKind :=
  if word = ['f', 'o', 'r'] then forKeyword
  else if word = ['i', 'n'] then inKeyword
  else identifier (String.ofList word)

def ofChar? : Char → Option TokenKind
  | '.' => some dot
  | '[' => some bracketOpen
  | ']' => some bracketClose
  | '(' => some parenOpen
  | ')' => some parenClose
  | '=' => some assign
  | _ => none

end TokenKind

structure Token where
  kind : TokenKind
  location : Location
deriving DecidableEq

def Token.isEnd (t : Token) : Bool := t.kind == .endOfStream

inductive LexFault where
  | unexpectedCharacter (character : Char)
  | unexpectedEnd
deriving DecidableEq

def LexFault.message : LexFault → String
  | unexpectedCharacter c => "Unexpected character '" ++ c.toString ++ "'"
  | unexpectedEnd => "Unexpected end"

structure LexError where
  fault : LexFault
  location : Location
deriving DecidableEq

def LexError.message (e : LexError) : String := e.fault.message

end BuildScript
