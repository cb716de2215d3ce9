import BuildScript.Text.Quoted
import BuildScript.Tree.Node
import BuildScript.Parsing.Error

namespace BuildScript

inductive Level where
  | debug
  | trace
deriving DecidableEq

namespace Level

def name : Level → String
  | debug => "DEBUG"
  | trace => "TRACE"

def isKeptAt (l kept : Level) : Bool :=
  match kept, l with
  | debug, trace => false
  | _, _ => true

end Level

inductive Component where
  | lexer
  | parser
  | builtins
  | interpreter
  | shell
deriving DecidableEq

def Component.name : Component → String
  | lexer => "mkr::lexer"
  | parser => "mkr::parser"
  | builtins => "mkr::builtins"
  | interpreter => "mkr::interpreter"
  | shell => "mkr"

inductive Event where
  | tokenRead (token : Token)
  | parsing (source : Source)
  | parsed (statements : Nat)
  | parseFailed (error : ParseError)
  | resolvingImport (specifier : String)
  | importRemark (remark : String)
  | parsingImport (source : Source)
  | builtinsInstalled (count : Nat)
  | interpreting (statements : Nat)
  | interpretationStopped (errors : Nat)
  | executing (kind : NodeKind) (location : Location)
  | calling (location : Location) (arguments : Nat)
  | evaluatingImport (source : Source)

namespace Event

def level : Event → Level
  | tokenRead _ => .trace
  | parsing _ => .debug
  | parsed _ => .debug
  | parseFailed _ => .debug
  | resolvingImport _ => .trace
  | importRemark _ => .debug
  | parsingImport _ => .trace
  | builtinsInstalled _ => .debug
  | interpreting _ => .debug
  | interpretationStopped _ => .debug
  | executing _ _ => .trace
  | calling _ _ => .trace
  | evaluatingImport _ => .trace

def component : Event → Component
  | tokenRead _ => .lexer
  | parsing _ => .parser
  | parsed _ => .parser
  | parseFailed _ => .parser
  | resolvingImport _ => .parser
  | importRemark _ => .shell
  | parsingImport _ => .parser
  | builtinsInstalled _ => .builtins
  | interpreting _ => .interpreter
  | interpretationStopped _ => .interpreter
  | executing _ _ => .interpreter
  | calling _ _ => .interpreter
  | evaluatingImport _ => .interpreter

def message : Event → String
  | tokenRead t => "token " ++ t.kind.name ++ " at " ++ t.location.label
  | parsing s => "parsing " ++ s.name
  | parsed n => "parsed " ++ toString n ++ " top-level statements"
  | parseFailed e => "parse failed: " ++ e.message
  | resolvingImport s => "resolving import " ++ Quoted.inspect s
  | importRemark r => r
  | parsingImport s => "parsing imported program " ++ s.name
  | builtinsInstalled n => "installed " ++ toString n ++ " builtins"
  | interpreting n => "interpreting " ++ toString n ++ " statements"
  | interpretationStopped n => "interpretation stopped with " ++ toString n ++ " errors"
  | executing k l => "statement " ++ k.name ++ " at " ++ l.label
  | calling l n => "calling " ++ l.label ++ " with " ++ toString n ++ " arguments"
  | evaluatingImport s => "evaluating imported program from " ++ s.name

def specifier? : Event → Option String
  | resolvingImport s => some s
  | _ => none

/-- Reading a token is an event; meeting the end of the stream is none. -/
def ofToken? (token : Token) : Option Event :=
  if token.isEnd then none else some (.tokenRead token)

end Event

/-- Events in the order they happened. -/
structure Journal where
  events : Array Event := #[]

namespace Journal

def record (j : Journal) (e : Event) : Journal := ⟨j.events.push e⟩

def recordToken (j : Journal) (t : Token) : Journal :=
  match Event.ofToken? t with
  | some e => j.record e
  | none => j

/-- The specifiers that were asked for, in order and with repeats. -/
def resolved (j : Journal) : List String :=
  j.events.toList.filterMap Event.specifier?

def keptAt (j : Journal) (l : Level) : List Event :=
  j.events.toList.filter (·.level.isKeptAt l)

end Journal

end BuildScript
