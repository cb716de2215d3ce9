import BuildScript.Token.Basic

namespace BuildScript

/-- The one reason a program was not read. Nesting is too deep when imports
go round in a circle. -/
inductive ParseError where
  | lexical (error : LexError)
  | leftover (location : Location)
  | importFailed (specifier : String) (location : Location)
  | unknownImportType (specifier : String) (location : Location)
  | tooDeep (location : Location)
deriving DecidableEq

namespace ParseError

def location : ParseError → Location
  | lexical e => e.location
  | leftover l => l
  | importFailed _ l => l
  | unknownImportType _ l => l
  | tooDeep l => l

def message : ParseError → String
  | lexical e => e.message
  | leftover _ => "Unexpected end of statements"
  | importFailed _ _ => "Import failed"
  | unknownImportType _ _ => "Unknown import type"
  | tooDeep _ => "Nesting too deep"

def specifier? : ParseError → Option String
  | importFailed s _ => some s
  | unknownImportType s _ => some s
  | _ => none

end ParseError

end BuildScript
