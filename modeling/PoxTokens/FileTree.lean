/-!
# PoxTokens.FileTree

What is found at a path, and a tree of files kept in memory.  A path is read from
left to right, from the root if it starts with a slash and else from a given
directory; every name but the last one must be a directory, and so must the last
one if a slash follows it.
-/

namespace PoxTokens

/-- What is found at a path. -/
inductive FileStatus where
  /-- Nothing. -/
  | absent
  /-- Something that cannot be read, and why. -/
  | unreadable (reason : String)
  /-- A file with these bytes. -/
  | file (bytes : ByteArray)

/-- A directory is there, but it cannot be read as a file. -/
def FileStatus.directory : FileStatus := unreadable "Is a directory (os error 21)"

/-- Is there anything? -/
def FileStatus.isPresent : FileStatus → Bool
  | absent => false
  | _ => true

/-- Joins a name to the path of a directory. -/
def joinPath (directory name : String) : String :=
  if directory.isEmpty ∨ directory.endsWith "/" then directory ++ name
  else directory ++ "/" ++ name

/-- A tree of files.  The directories on the way to a file or a directory of the
tree belong to it too. -/
structure FileTree where
  files : List (List String × ByteArray)
  directories : List (List String)

namespace FileTree

/-- Is it the place of a directory? -/
def isDirectory (tree : FileTree) (place : List String) : Bool :=
  place.isEmpty ||
    tree.directories.any (place.isPrefixOf ·) ||
    tree.files.any fun (path, _) => place.isPrefixOf path.dropLast

/-- What is found at a place. -/
def status (tree : FileTree) (place : List String) : FileStatus :=
  if tree.isDirectory place then .directory
  else
    match tree.files.find? (·.1 == place) with
    | some (_, bytes) => .file bytes
    | none => .absent

/-- What is found when names lead from a place. -/
def walk (tree : FileTree) (place : List String) : List String → FileStatus
  | [] => tree.status place
  | name :: names =>
    if tree.isDirectory place then
      if name = "" ∨ name = "." then walk tree place names
      else if name = ".." then walk tree place.dropLast names
      else walk tree (place ++ [name]) names
    else .absent

/-- The names of a path, parted by slashes. -/
def names (path : String) : List String :=
  (path.toList.splitOn '/').map String.ofList

/-- What is found at a path that starts at a directory of the tree. -/
def look (tree : FileTree) (directory : List String) (path : String) : FileStatus :=
  if path.isEmpty then .absent
  else if path.startsWith "/" then tree.walk [] (names path)
  else tree.walk directory (names path)

/-- Adds a file, or a directory if a slash ends the path. -/
def add (tree : FileTree) (path : String) (bytes : ByteArray) : FileTree :=
  let place := (names path).filter (!·.isEmpty)
  if path.endsWith "/" then { tree with directories := place :: tree.directories }
  else { tree with files := (place, bytes) :: tree.files }

end FileTree

end PoxTokens
