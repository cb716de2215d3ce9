import BuildScript.Shell.Run

namespace BuildScript.Shell

def ReadError.ofSystem : IO.Error → ReadError
  | .noFileOrDirectory .. => .notFound
  | .inappropriateType _ code _ => if code = 21 then .isADirectory else .notADirectory
  | e => .other (toString e)

def readFile (path : String) : IO (Except ReadError String) := do
  try
    return decodeText (← IO.FS.readBinFile path)
  catch e =>
    return .error (.ofSystem e)

/-- Reads files until a run asks for none that is not known. -/
partial def discover (stdin : Except ReadError String) (options : Options)
    (known : List (String × Except ReadError String)) : IO World := do
  let world := World.ofKnown known stdin
  match (filesAskedFor world options).find? fun path => (known.lookup path).isNone with
  | none => return world
  | some path => discover stdin options ((path, ← readFile path) :: known)

end BuildScript.Shell

open BuildScript.Shell in
def main (args : List String) : IO UInt32 := do
  match Options.ofArguments args with
  | .error e =>
    IO.eprintln ("error: " ++ e.message)
    return 2
  | .ok options =>
    let readsStdin := options.file.all Path.isStandardInput
    let stdin ← if readsStdin then
        pure (decodeText (← (← IO.getStdin).readBinToEnd))
      else pure (.ok "")
    let exit := runWith (← discover stdin options []) options
    IO.print exit.stdout
    IO.eprint exit.stderr
    return exit.code.toUInt32
