namespace BuildScript.Shell.Path

def splitSlashes : List Char → List (List Char)
  | [] => [[]]
  | c :: cs =>
    match splitSlashes cs with
    | [] => [[]]
    | piece :: more => if c = '/' then [] :: piece :: more else (c :: piece) :: more

def pieces (path : String) : List String :=
  (splitSlashes path.toList).map String.ofList

def isAbsolute (path : String) : Bool := path.toList.head? == some '/'

def isSilent (piece : String) : Bool := piece == "" || piece == "."

def components (path : String) : List String :=
  match pieces path with
  | [] => []
  | first :: rest => [first].filter (· != "") ++ rest.filter (!isSilent ·)

/-- The directory a path is in. The empty path is where one stands. -/
def parent (path : String) : String :=
  match pieces path with
  | [] => ""
  | first :: rest =>
    match rest.reverse.dropWhile isSilent with
    | [] => ""
    | _ :: before =>
      let kept := (before.dropWhile isSilent).reverse
      if kept.isEmpty && isAbsolute path then "/" else "/".intercalate (first :: kept)

/-- A path seen from a directory. An absolute path is the same from anywhere. -/
def join (directory path : String) : String :=
  if isAbsolute path || directory.isEmpty then path
  else if directory.toList.getLast? == some '/' then directory ++ path
  else directory ++ "/" ++ path

def isStandardInput (path : String) : Bool :=
  !isAbsolute path && components path == ["-"]

end BuildScript.Shell.Path
