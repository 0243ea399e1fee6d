/-!
# File trees

The files that a command can see: a directory has named entries, and a file has contents.  A path
is text with slashes.  It is followed from the working directory one segment at a time; every
segment, even an empty one, needs a directory to be followed from.  Paths lead nowhere above the
working directory.

* `FileTree.find?` follows a path.
* `FileTree.write` gives a file new contents and changes nothing else.
* `FileTree.insert` adds a file or a directory, with the directories that lead to it.
-/

namespace DeclLang

/-- The size in bytes up to which files are read. -/
def maxSourceSize : Nat := 104857600

/-- What a file holds.  A file over the size limit need not be loaded to be refused. -/
inductive FileContent where
  | bytes (data : ByteArray)
  | oversized (size : Nat) (tooLarge : maxSourceSize < size)

namespace FileContent

/-- The number of bytes of a file. -/
def size : FileContent → Nat
  | bytes data => data.size
  | oversized size _ => size

/-- The contents that consist of a text. -/
def ofText (text : String) : FileContent := bytes text.toUTF8

end FileContent

/-- A file, or a directory with its entries, whose names are all different. -/
inductive FileTree where
  | file (content : FileContent)
  | directory (entries : List (String × FileTree))

/-- Why a path leads nowhere. -/
inductive AccessError where
  /-- There is no entry of that name. -/
  | notFound
  /-- A file stands where a directory is needed. -/
  | notADirectory
deriving DecidableEq

/-- How the operating system puts it. -/
def AccessError.message : AccessError → String
  | notFound => "No such file or directory (os error 2)"
  | notADirectory => "Not a directory (os error 20)"

/-! ## Paths -/

namespace Path

/-- The parts of a text between slashes; there is one more than there are slashes. -/
def split : List Char → List (List Char)
  | [] => [[]]
  | c :: cs =>
    if c = '/' then [] :: split cs
    else match split cs with
      | [] => [[c]]
      | segment :: segments => (c :: segment) :: segments

/-- The segments of a path. -/
def segments (path : String) : List String := (split path.toList).map String.ofList

/-- The last segment of a path. -/
def name (path : String) : String := (segments path).getLast?.getD ""

/-- The path of an entry of a directory. -/
def child (directory name : String) : String :=
  if directory.toList.getLast? = some '/' then directory ++ name
  else directory ++ "/" ++ name

/-- The path that leads on from a directory through some segments. -/
def descend (directory : String) (segments : List String) : String :=
  segments.foldl child directory

end Path

namespace FileTree

/-! ## Following paths -/

/-- The entry of a directory that has the given name. -/
def child? (name : String) : FileTree → Option FileTree
  | file _ => none
  | directory entries => (entries.find? fun entry => entry.1 == name).map Prod.snd

/-- Where one has come to by a trail of named entries, the last one first. -/
def here (root : FileTree) (trail : List (String × FileTree)) : FileTree :=
  match trail with
  | [] => root
  | (_, tree) :: _ => tree

/-- Follows segments from the end of a trail. -/
def follow (root : FileTree) (trail : List (String × FileTree)) :
    List String → Except AccessError (List (String × FileTree))
  | [] => .ok trail
  | segment :: more =>
    match here root trail with
    | file _ => .error .notADirectory
    | directory entries =>
      if segment = "" ∨ segment = "." then follow root trail more
      else if segment = ".." then
        match trail with
        | [] => .error .notFound
        | _ :: outer => follow root outer more
      else match (directory entries).child? segment with
        | some tree => follow root ((segment, tree) :: trail) more
        | none => .error .notFound

/-- The trail that a path leads along.  The empty path leads nowhere, nor does one from the root
of the file system. -/
def trail? (root : FileTree) (path : String) : Except AccessError (List (String × FileTree)) :=
  if path = "" ∨ path.toList.head? = some '/' then .error .notFound
  else follow root [] (Path.segments path)

/-- What a path leads to. -/
def find? (root : FileTree) (path : String) : Except AccessError FileTree :=
  (root.trail? path).map root.here

/-! ## Changing files -/

/-- Gives new contents to the file that the names lead to; if they lead to none, nothing
changes. -/
def setContent (content : FileContent) : List String → FileTree → FileTree
  | [], file _ => file content
  | [], directory entries => directory entries
  | _ :: _, file old => file old
  | name :: more, directory entries =>
    directory (entries.map fun entry =>
      if entry.1 = name then (entry.1, setContent content more entry.2) else entry)

/-- Gives new contents to the file that a path leads to. -/
def write (root : FileTree) (path : String) (content : FileContent) : FileTree :=
  match root.trail? path with
  | .ok trail => setContent content (trail.reverse.map Prod.fst) root
  | .error _ => root

/-- Adds `new` where the names lead to, with the directories on the way.  A new empty directory
does not replace one that is there. -/
def insertAt (new : FileTree) : List String → FileTree → FileTree
  | [], old =>
    match new, old with
    | directory [], directory entries => directory entries
    | _, _ => new
  | name :: more, file _ => directory [(name, insertAt new more (directory []))]
  | name :: more, directory entries =>
    if entries.any fun entry => entry.1 == name then
      directory (entries.map fun entry =>
        if entry.1 = name then (entry.1, insertAt new more entry.2) else entry)
    else directory (entries ++ [(name, insertAt new more (directory []))])

/-- Adds a file or a directory at a path, with the directories on the way. -/
def insert (root : FileTree) (path : String) (new : FileTree) : FileTree :=
  insertAt new ((Path.segments path).filter fun segment => segment != "" && segment != ".") root

end FileTree

end DeclLang
