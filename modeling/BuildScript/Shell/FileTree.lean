import BuildScript.Shell.Path

namespace BuildScript.Shell

inductive ReadError where
  | notFound
  | notADirectory
  | isADirectory
  | nameTooLong
  | nameWithNull
  | notText
  | other (message : String)
deriving DecidableEq

def ReadError.message : ReadError → String
  | notFound => "No such file or directory (os error 2)"
  | notADirectory => "Not a directory (os error 20)"
  | isADirectory => "Is a directory (os error 21)"
  | nameTooLong => "File name too long (os error 36)"
  | nameWithNull => "file name contained an unexpected NUL byte"
  | notText => "stream did not contain valid UTF-8"
  | other message => message

def decodeText (bytes : ByteArray) : Except ReadError String :=
  match String.fromUTF8? bytes with
  | some text => .ok text
  | none => .error .notText

/-- Files with their contents. A file is named by the directories it is in,
from the top, and its own name. -/
structure FileTree where
  files : List (List String × ByteArray)

namespace FileTree

def ofPaths (files : List (String × ByteArray)) : FileTree :=
  ⟨files.map fun file => ((Path.pieces file.1).filter (!Path.isSilent ·), file.2)⟩

def hasFile (tree : FileTree) (name : List String) : Bool :=
  tree.files.any (·.1 == name)

def hasDirectory (tree : FileTree) (name : List String) : Bool :=
  name.isEmpty || tree.files.any fun file => name.isPrefixOf file.1 && name != file.1

inductive Place where
  | inside (name : List String)
  | outside

def maxName : Nat := 255

def maxPath : Nat := 4095

/-- Follows one piece of a path. Only a directory can be followed on. -/
def step (tree : FileTree) (place : Place) (piece : String) : Except ReadError Place :=
  match place with
  | .outside =>
    if Path.isSilent piece || piece == ".." then .ok .outside
    else if maxName < piece.utf8ByteSize then .error .nameTooLong
    else .error .notFound
  | .inside name =>
    if tree.hasFile name then .error .notADirectory
    else if Path.isSilent piece then .ok place
    else if piece == ".." then
      .ok (if name.isEmpty then .outside else .inside name.dropLast)
    else if maxName < piece.utf8ByteSize then .error .nameTooLong
    else
      let next := name ++ [piece]
      if tree.hasFile next || tree.hasDirectory next then .ok (.inside next)
      else .error .notFound

def follow (tree : FileTree) : List String → Place → Except ReadError Place
  | [], place => .ok place
  | piece :: rest, place => do follow tree rest (← tree.step place piece)

/-- The bytes of the file at a place. What is there and is no file is a
directory. -/
def contents (tree : FileTree) : Place → Except ReadError ByteArray
  | .outside => .error .isADirectory
  | .inside name =>
    match tree.files.lookup name with
    | some bytes => .ok bytes
    | none => .error .isADirectory

/-- The bytes of the file a path leads to. The empty path leads nowhere. -/
def readBytes (tree : FileTree) (path : String) : Except ReadError ByteArray := do
  let start : Place := if Path.isAbsolute path then .outside else .inside []
  if path.toList.contains (Char.ofNat 0) then throw .nameWithNull
  else if path.isEmpty then throw .notFound
  else if maxPath < path.utf8ByteSize then throw .nameTooLong
  else tree.contents (← tree.follow (Path.pieces path) start)

def readText (tree : FileTree) (path : String) : Except ReadError String := do
  decodeText (← tree.readBytes path)

end FileTree

end BuildScript.Shell
