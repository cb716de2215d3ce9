import BuildScript.Parsing.Grammar
import BuildScript.Parsing.Import

namespace BuildScript

abbrev Loader := Source → Journal → EStateM.Result Failure Journal Node

def splice {σ : Type} [TokenSupply σ] (resolve : String → Resolution) (load : Loader)
    (specifier : String) (location : Location) : Parser σ Node := do
  Parser.record (.resolvingImport specifier)
  match resolve specifier with
  | .program source =>
    Parser.record (.parsingImport source)
    fun s =>
      match load source s.journal with
      | .ok node journal => .ok node { s with journal }
      | .error failure journal => .error failure { s with journal }
  | .external => throw (.fatal (.unknownImportType specifier location))
  | .failed none => throw (.fatal (.importFailed specifier location))
  | .failed (some remark) =>
    Parser.record (.importRemark remark)
    throw (.fatal (.importFailed specifier location))

/-- How deep values can nest in a source and how many items a repetition can
have: every token takes a character. -/
def Source.budget (source : Source) : Nat := source.text.toList.length + 2

/-- Reads the tree of a program from the supply that is made of its
source. Imports may nest `depth` deep, the program itself included. -/
def loadWith {σ : Type} [TokenSupply σ] (supply : Source → σ) (resolve : String → Resolution) :
    (depth : Nat) → Loader
  | 0, _, journal => .error .exhausted journal
  | depth + 1, source, journal =>
    let value := Grammar.value (splice resolve (loadWith supply resolve depth)) source.budget
    match Grammar.program value source.budget ⟨supply source, journal⟩ with
    | .ok node s => .ok node s.journal
    | .error failure s => .error failure s.journal

def load (resolve : String → Resolution) (depth : Nat) : Loader :=
  loadWith (fun source => Rewindable.ofStream (Lexer.ofSource source)) resolve depth

/-- The error a failure is reported as. A program is never a mismatch. -/
def Failure.toError (source : Source) : Failure → ParseError
  | .mismatch token => .leftover token.location
  | .fatal e => e
  | .exhausted => .tooDeep (.startOf source)

def parse (resolve : String → Resolution) (depth : Nat) (source : Source) (journal : Journal) :
    Except ParseError Node × Journal :=
  match load resolve depth source (journal.record (.parsing source)) with
  | .ok node journal => (.ok node, journal.record (.parsed node.children.length))
  | .error failure journal =>
    let error := failure.toError source
    (.error error, journal.record (.parseFailed error))

def parseAlone (source : Source) (journal : Journal) : Except ParseError Node × Journal :=
  parse ImportTable.empty.resolve ImportTable.empty.depth source journal

end BuildScript
