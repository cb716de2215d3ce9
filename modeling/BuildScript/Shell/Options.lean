/-!
The options of the command line:

    [FILE] [--import-root DIR] [--dump-ast] [-v | --verbose]

Options and the file may come in any order, each at most once. After a lone
`--` every argument is a file.
-/

namespace BuildScript.Shell

structure Options where
  file : Option String := none
  importRoot : Option String := none
  dumpTree : Bool := false
  verbose : Bool := false
deriving DecidableEq

inductive UsageError where
  | unknownOption (option : String)
  | missingValue (option : String)
  | unwantedValue (option : String)
  | repeated (option : String)
  | extraFile (file : String)
  | emptyFile
deriving DecidableEq

def UsageError.message : UsageError → String
  | unknownOption option => "unknown option " ++ option
  | missingValue option => "option " ++ option ++ " needs a value"
  | unwantedValue option => "option " ++ option ++ " takes no value"
  | repeated option => "option " ++ option ++ " given more than once"
  | extraFile file => "more than one file: " ++ file
  | emptyFile => "the name of a file is empty"

namespace Options

def setFile (o : Options) (file : String) : Except UsageError Options :=
  if file.isEmpty then .error .emptyFile
  else match o.file with
    | some _ => .error (.extraFile file)
    | none => .ok { o with file := some file }

def setImportRoot (o : Options) (root : String) : Except UsageError Options :=
  if root.isEmpty then .error (.missingValue "--import-root")
  else match o.importRoot with
    | some _ => .error (.repeated "--import-root")
    | none => .ok { o with importRoot := some root }

def setDumpTree (o : Options) : Except UsageError Options :=
  if o.dumpTree then .error (.repeated "--dump-ast") else .ok { o with dumpTree := true }

def setVerbose (o : Options) : Except UsageError Options :=
  if o.verbose then .error (.repeated "--verbose") else .ok { o with verbose := true }

def readFiles : List String → Options → Except UsageError Options
  | [], o => .ok o
  | file :: rest, o => do readFiles rest (← o.setFile file)

def readLetters : List Char → Options → Except UsageError Options
  | [], o => .ok o
  | 'v' :: rest, o => do readLetters rest (← o.setVerbose)
  | c :: _, _ => .error (.unknownOption (String.ofList ['-', c]))

def setLong (o : Options) (name : String) (value : Option String) :
    Except UsageError Options :=
  match name, value with
  | "--import-root", some root => o.setImportRoot root
  | "--import-root", none => .error (.missingValue name)
  | "--dump-ast", none => o.setDumpTree
  | "--dump-ast", some _ => .error (.unwantedValue name)
  | "--verbose", none => o.setVerbose
  | "--verbose", some _ => .error (.unwantedValue name)
  | _, _ => .error (.unknownOption name)

def splitLong (arg : List Char) : String × Option String :=
  let name := String.ofList (arg.takeWhile (· != '='))
  match arg.dropWhile (· != '=') with
  | [] => (name, none)
  | _ :: value => (name, some (String.ofList value))

def isValue (arg : String) : Bool :=
  match arg.toList with
  | ['-'] => true
  | '-' :: _ => false
  | _ => true

def read : List String → Options → Except UsageError Options
  | [], o => .ok o
  | "--" :: rest, o => readFiles rest o
  | "--import-root" :: root :: rest, o =>
    if isValue root then do read rest (← o.setImportRoot root)
    else .error (.missingValue "--import-root")
  | arg :: rest, o =>
    match arg.toList with
    | '-' :: '-' :: _ => do
      let (name, value) := splitLong arg.toList
      read rest (← o.setLong name value)
    | '-' :: c :: letters => do read rest (← readLetters (c :: letters) o)
    | _ => do read rest (← o.setFile arg)

def ofArguments (args : List String) : Except UsageError Options := read args {}

end Options

end BuildScript.Shell
