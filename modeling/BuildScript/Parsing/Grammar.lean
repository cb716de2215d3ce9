import BuildScript.Parsing.Parser

/-!
The grammar.

    program     := statement* END
    statement   := assignment | call
    assignment  := binder '=' value
    value       := inclusion | call | object | '(' object ')'
                 | list | listFor | STRING
    list        := '[' value* ']'
    listFor     := '[' value 'for' binder 'in' value ']'
    object      := IDENTIFIER ('.' IDENTIFIER)*
    binder      := IDENTIFIER
    inclusion   := 'import' '(' STRING ')'
    call        := object '(' argument* ')'
    argument    := IDENTIFIER '=' value | value

Every rule but `value` is given the parser of the values inside it, so that
`value` alone is recursive. Its budget bounds how deep values nest and how
many items a repetition has.
-/

namespace BuildScript.Grammar

open BuildScript.Parser

variable {σ : Type} [TokenSupply σ]

def binder : Parser σ Node := do
  let (name, location) ← identifier
  return ⟨.binder, location, some name, []⟩

def stringLiteral : Parser σ Node := do
  let (text, location) ← stringToken
  return ⟨.string, location, some text, []⟩

def attributes (owner : Node) : (budget : Nat) → Parser σ Node
  | 0 => throw .exhausted
  | budget + 1 => do
    match ← optional (expect .dot) with
    | none => return owner
    | some _ =>
      let (name, location) ← identifier
      attributes ⟨.object, location, some name, [owner]⟩ budget

def object (budget : Nat) : Parser σ Node := do
  let (name, location) ← identifier
  attributes ⟨.object, location, some name, []⟩ budget

def parenthesized (budget : Nat) : Parser σ Node := do
  let _ ← expect .parenOpen
  let node ← object budget
  let _ ← expect .parenClose
  return node

/-- The inclusion of another program. `splice` gives the tree that stands for
a specifier, and is told where the inclusion begins. -/
def inclusion (splice : String → Location → Parser σ Node) : Parser σ Node := do
  let location ← expectIdentifier "import"
  let _ ← expect .parenOpen
  let (specifier, _) ← stringToken
  let _ ← expect .parenClose
  splice specifier location

def list (value : Parser σ Node) (budget : Nat) : Parser σ Node := do
  let location ← here
  let _ ← expect .bracketOpen
  let entries ← many value budget
  let _ ← expect .bracketClose
  return ⟨.list, location, none, entries⟩

def listFor (value : Parser σ Node) : Parser σ Node := do
  let location ← here
  let _ ← expect .bracketOpen
  let body ← value
  let _ ← expect .forKeyword
  let element ← binder
  let _ ← expect .inKeyword
  let source ← value
  let _ ← expect .bracketClose
  return ⟨.listFor, location, none, [body, element, source]⟩

def keywordArgument (value : Parser σ Node) : Parser σ Node := do
  let (name, location) ← identifier
  let _ ← expect .assign
  return ⟨.keyword, location, some name, [← value]⟩

def argument (value : Parser σ Node) : Parser σ Node :=
  firstOf (keywordArgument value) [value]

def call (value : Parser σ Node) (budget : Nat) : Parser σ Node := do
  let location ← here
  let callee ← object budget
  let _ ← expect .parenOpen
  let arguments ← many (argument value) budget
  let _ ← expect .parenClose
  return ⟨.call, location, none, callee :: arguments⟩

/-- A value, nested at most `budget` deep. -/
def value (splice : String → Location → Parser σ Node) : (budget : Nat) → Parser σ Node
  | 0 => throw .exhausted
  | budget + 1 =>
    let inner := value splice budget
    firstOf (inclusion splice)
      [call inner (budget + 1), object (budget + 1), parenthesized (budget + 1),
        list inner (budget + 1), listFor inner, stringLiteral]

def assignment (value : Parser σ Node) : Parser σ Node := do
  let location ← here
  let target ← binder
  let _ ← expect .assign
  return ⟨.assignment, location, none, [target, ← value]⟩

def statement (value : Parser σ Node) (budget : Nat) : Parser σ Node :=
  firstOf (assignment value) [call value budget]

/-- A whole program. What follows the last statement must be the end. -/
def program (value : Parser σ Node) (budget : Nat) : Parser σ Node := do
  let location ← here
  let statements ← many (statement value budget) budget
  let token ← peek
  if token.isEnd then return ⟨.program, location, none, statements⟩
  else throw (.fatal (.leftover token.location))

end BuildScript.Grammar
