import BuildScript.Parsing.Program
import BuildScript.Host.Builtin
import BuildScript.Evaluation.Evaluator
import BuildScript.Shell.Options
import BuildScript.Shell.FileTree
import BuildScript.Shell.Terminal

namespace BuildScript.Shell

structure Exit where
  code : Nat
  stdout : String
  stderr : String
deriving DecidableEq

/-- What a run can see: the texts of files, how deep the files can import each
other, and what comes in by standard input. -/
structure World where
  readText : String → Except ReadError String
  depth : Nat
  stdin : Except ReadError String

namespace World

def ofTree (tree : FileTree) (stdin : ByteArray) : World where
  readText := tree.readText
  depth := tree.files.length + 2
  stdin := decodeText stdin

def ofKnown (known : List (String × Except ReadError String))
    (stdin : Except ReadError String) : World where
  readText path := (known.lookup path).getD (.error .notFound)
  depth := known.length + 2
  stdin := stdin

end World

/-- The program of a run and the directory its imports are seen from, or what
could not be read and why. -/
def readProgram (world : World) (file : Option String) :
    Except (String × ReadError) (Source × String) :=
  let fromStdin :=
    match world.stdin with
    | .ok text => .ok (⟨"<stdin>", text, 0⟩, ".")
    | .error e => .error ("stdin", e)
  match file with
  | none => fromStdin
  | some path =>
    if Path.isStandardInput path then fromStdin
    else
      match world.readText path with
      | .ok text => .ok (⟨path, text, 0⟩, Path.parent path)
      | .error e => .error (path, e)

/-- An import stands for the file it names, seen from a directory. -/
def resolveFile (world : World) (root specifier : String) : Resolution :=
  let path := Path.join root specifier
  match world.readText path with
  | .ok text => .program ⟨path, text, 0⟩
  | .error e => .failed (some ("cannot import " ++ path ++ ": " ++ e.message))

/-- An event as a line of the log. Further lines of its message are indented,
and what a terminal would obey is left out. -/
def logLine (e : Event) : String :=
  let indent (c : Char) : List Char := if c = '\n' then "\n    ".toList else [c]
  Terminal.plain ("[" ++ e.level.name ++ " " ++ e.component.name ++ "] " ++
    String.ofList (e.message.toList.flatMap indent) ++ "\n")

def logOf (options : Options) (journal : Journal) : String :=
  if options.verbose then String.join ((journal.keptAt .debug).map logLine) else ""

def report (location : Location) (message : String) : String :=
  location.label ++ ": error: " ++ message ++ "\n" ++ location.annotate message ++ "\n"

/-- A line for each variable of a program, by name. The builtins are not the
program's own. -/
def bindingLines (arena : Arena Builtin) (scope : Scope) : String :=
  String.join <| (scope.bindings.sorted.filter fun e => (Builtin.ofName? e.1).isNone).map
    fun e => e.1 ++ " = " ++ arena.render e.2 ++ "\n"

def runProgram (options : Options) (program : Node) (journal : Journal) : Exit :=
  let tree := if options.dumpTree then program.render ++ "\n" else ""
  match Builtin.install id Arena.empty Scope.empty journal with
  | (.error e, _, _, journal) =>
    ⟨1, tree, logOf options journal ++
      "Error: Installing builtins\n\nCaused by:\n    " ++ e.message ++ "\n"⟩
  | (.ok (), arena, scope, journal) =>
    let result := interpret program scope ⟨arena, journal⟩
    let log := logOf options result.machine.journal
    match result.errors with
    | [] => ⟨0, tree ++ bindingLines result.machine.arena result.scope, log⟩
    | errors =>
      ⟨1, tree, log ++ String.join (errors.map fun e => report e.location e.message)⟩

def runWith (world : World) (options : Options) : Exit :=
  match readProgram world options.file with
  | .error (what, e) =>
    ⟨1, "", "Error: Reading " ++ what ++ "\n\nCaused by:\n    " ++ e.message ++ "\n"⟩
  | .ok (source, directory) =>
    let root := options.importRoot.getD directory
    match parse (resolveFile world root) world.depth source {} with
    | (.error e, journal) => ⟨1, "", logOf options journal ++ report e.location e.message⟩
    | (.ok program, journal) => runProgram options program journal

/-- The files a run asks for: its program, and whatever that imports. -/
def filesAskedFor (world : World) (options : Options) : List String :=
  let file := options.file.toList.filter (!Path.isStandardInput ·)
  match readProgram world options.file with
  | .error _ => file
  | .ok (source, directory) =>
    let root := options.importRoot.getD directory
    let (_, journal) := parse (resolveFile world root) world.depth source {}
    file ++ journal.resolved.map (Path.join root)

def run (world : World) (args : List String) : Except UsageError Exit := do
  return runWith world (← Options.ofArguments args)

end BuildScript.Shell
