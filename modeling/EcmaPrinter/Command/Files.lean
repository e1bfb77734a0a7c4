/-!
Files: a map from paths to bytes.

A path is the list of names from the root.  A directory is there as soon as something lies in it.
That may be an entry with an empty name, which no text leads to.  Paths in texts are resolved name
by name from the root, and only directories have names below them.
-/

namespace EcmaPrinter.Command

/-- The names on the way from the root to a file or directory. -/
abbrev Path := List String

/-- Files with their contents. -/
structure Files where
  entries : List (Path × ByteArray) := []

namespace Files

/-- The contents of a file. -/
def get? (fs : Files) (path : Path) : Option ByteArray :=
  (fs.entries.find? (·.1 == path)).map (·.2)

/-- Is the path a directory?  The root always is one. -/
def isDirectory (fs : Files) (path : Path) : Bool :=
  path.isEmpty || fs.entries.any fun (file, _) => path.isPrefixOf file && path != file

/-- The files with new contents at a path. -/
def put (fs : Files) (path : Path) (contents : ByteArray) : Files where
  entries := (path, contents) :: fs.entries.filter (·.1 != path)

/-! ### Paths in texts -/

/-- The names of a path text, split at slashes. -/
def splitPath (text : List Char) : List (List Char) :=
  text.foldr
    (fun c names => match c, names with
      | '/', _ => [] :: names
      | _, name :: rest => (c :: name) :: rest
      | _, [] => [[c]])
    [[]]

/-- The names of a path text. -/
def names (text : String) : List String :=
  (splitPath text.toList).map String.ofList

/-- Follow names from a path.  Above the root is the root. -/
def follow (fs : Files) : (names : List String) → (path : Path) → Option Path
  | [], path => some path
  | name :: names, path =>
    if !fs.isDirectory path then none
    else if name == "" || name == "." then fs.follow names path
    else if name == ".." then fs.follow names path.dropLast
    else fs.follow names (path ++ [name])

/-- The path that a text stands for. -/
def resolve? (fs : Files) (text : String) : Option Path :=
  fs.follow (names text) []

/-- Does a path text start at the root? -/
def isAbsolute (text : String) : Bool :=
  text.toList.head? == some '/'

/-- A path text seen from a directory. -/
def join (directory path : String) : String :=
  if isAbsolute path then path
  else if directory.isEmpty || directory.toList.getLast? == some '/' then directory ++ path
  else directory ++ "/" ++ path

/-! ### Reading and writing text -/

/-- The text of a file; files that are missing or no text cannot be read. -/
def readText? (fs : Files) (path : String) : Option String := do
  let contents ← fs.get? (← fs.resolve? path)
  String.fromUTF8? contents

/-- The files after writing a text, if the path is in a directory and not one itself. -/
def writeText? (fs : Files) (path : String) (text : String) : Option Files := do
  let place ← fs.resolve? path
  if fs.isDirectory place || !fs.isDirectory place.dropLast then none
  else some (fs.put place text.toUTF8)

end Files

end EcmaPrinter.Command
