import PolicyBundle.Text.Basic
import PolicyBundle.Text.Utf8

/-!
# Trees of files

A tree of files, directories and symbolic links, with a current directory. Paths are resolved
segment by segment; a link that is passed on the way is replaced by its target, and at most forty
links may be passed.
-/

namespace PolicyBundle.Files

/-- A file, a directory with its entries by name, or a symbolic link. -/
inductive Node where
  | file (contents : Bytes)
  | dir (entries : List (String × Node))
  | link (target : String)

/-- Why a path cannot be used. -/
inductive Error where
  | notFound
  | notDirectory
  | isDirectory
  | tooManyLinks
  | nameTooLong
  | zeroByte
  | notText
  deriving DecidableEq, Repr

namespace Error

/-- The text of an error. -/
def message : Error → String
  | .notFound => "No such file or directory (os error 2)"
  | .notDirectory => "Not a directory (os error 20)"
  | .isDirectory => "Is a directory (os error 21)"
  | .tooManyLinks => "Too many levels of symbolic links (os error 40)"
  | .nameTooLong => "File name too long (os error 36)"
  | .zeroByte => "file name contained an unexpected NUL byte"
  | .notText => "stream did not contain valid UTF-8"

/-- The name of the kind of an error. -/
def kind : Error → String
  | .notFound => "NotFound"
  | .notDirectory => "NotADirectory"
  | .isDirectory => "IsADirectory"
  | .tooManyLinks => "FilesystemLoop"
  | .nameTooLong => "InvalidFilename"
  | .zeroByte => "InvalidInput"
  | .notText => "InvalidData"

end Error

/-- The names of the directories on the way from the root to a place, the root being the empty
list. -/
abbrev Location := List String

namespace Node

/-- The node at a location that is reached through directories alone. -/
def at? : Node → Location → Option Node
  | node, [] => some node
  | .dir entries, name :: rest => (entries.lookup name).bind fun child => at? child rest
  | _, _ :: _ => none

/-- Entries with `name` holding `node`, in the place of what it held before. -/
def setEntry (name : String) (node : Node) : List (String × Node) → List (String × Node)
  | [] => [(name, node)]
  | (other, old) :: rest =>
    if other = name then (name, node) :: rest else (other, old) :: setEntry name node rest

/-- The tree with another node at a location. The directories on the way must be there. -/
def setAt (tree : Node) : Location → Node → Node
  | [], node => node
  | name :: rest, node =>
    match tree with
    | .dir entries =>
      match entries.lookup name with
      | some child => .dir (setEntry name (setAt child rest node) entries)
      | none => if rest.isEmpty then .dir (setEntry name node entries) else tree
    | _ => tree

mutual

/-- How many directories a tree has. -/
def directories : Node → Nat
  | .dir entries => 1 + entryDirectories entries
  | _ => 0

/-- How many directories some entries have. -/
def entryDirectories : List (String × Node) → Nat
  | [] => 0
  | (_, node) :: rest => directories node + entryDirectories rest

end

end Node

/-- What a path leads to. -/
inductive Place where
  /-- A node, and where it really is. -/
  | found (location : Location) (node : Node)
  /-- Nothing yet, but a directory in which a node of this name may be made. -/
  | free (location : Location) (name : String)

/-- The most links that may be passed on the way. -/
def maxLinks : Nat := 40

/-- The segments of a path. An empty one stands for the directory reached so far. -/
def segments (path : String) : List String :=
  Text.split '/' path

/-- A path with one more segment. -/
def within (path name : String) : String :=
  if path.isEmpty || Text.endsWith path "/" then path ++ name else path ++ "/" ++ name

/-- A path as seen from a directory. An absolute path stays as it is. -/
def join (dir path : String) : String :=
  if Text.startsWith path "/" then path else within dir path

/-- Resolves segments from a location on. `links` is the number of links that may yet be passed, and
`follow` tells whether a link at the very end is passed too. The result has the number of links left
over. -/
def resolveFrom (root : Node) (follow : Bool) (links : Nat) (location : Location) :
    (rest : List String) → Except Error (Place × Nat)
  | [] =>
    match root.at? location with
    | some node => .ok (.found location node, links)
    | none => .error .notFound
  | segment :: rest =>
    match root.at? location with
    | some (.dir entries) =>
      if segment = "" || segment = "." then resolveFrom root follow links location rest
      else if segment = ".." then resolveFrom root follow links location.dropLast rest
      else if segment.utf8ByteSize > 255 then .error .nameTooLong
      else
        match entries.lookup segment with
        | some (.link target) =>
          if rest.isEmpty && !follow then
            .ok (.found (location ++ [segment]) (.link target), links)
          else
            match links with
            | 0 => .error .tooManyLinks
            | links + 1 =>
              let start := if Text.startsWith target "/" then [] else location
              resolveFrom root follow links start (segments target ++ rest)
        | some _ => resolveFrom root follow links (location ++ [segment]) rest
        | none => if rest.isEmpty then .ok (.free location segment, links) else .error .notFound
    | some _ => .error .notDirectory
    | none => .error .notFound
termination_by rest => (links, rest.length)

/-- A tree with a current directory, at which relative paths begin. -/
structure Tree where
  root : Node
  current : Location

namespace Tree

/-- The tree that has nothing but an empty current directory. -/
def empty : Tree := ⟨.dir [("work", .dir [])], ["work"]⟩

/-- What a path leads to, with the number of links left over. -/
def resolve (tree : Tree) (follow : Bool) (path : String) : Except Error (Place × Nat) :=
  if path.isEmpty then .error .notFound
  else if path.toList.contains (Char.ofNat 0) then .error .zeroByte
  else if path.utf8ByteSize > 4095 then .error .nameTooLong
  else
    let start := if Text.startsWith path "/" then [] else tree.current
    resolveFrom tree.root follow maxLinks start (segments path)

/-- The node at a path, where it really is and the number of links left over. -/
def node (tree : Tree) (follow : Bool) (path : String) : Except Error (Location × Node × Nat) := do
  match ← tree.resolve follow path with
  | (.found location node, links) => .ok (location, node, links)
  | (.free _ _, _) => .error .notFound

/-- Whether there is something at a path. -/
def pathExists (tree : Tree) (path : String) : Bool :=
  (tree.node true path).isOk

/-- Whether there is a file at a path. -/
def isFile (tree : Tree) (path : String) : Bool :=
  match tree.node true path with
  | .ok (_, .file _, _) => true
  | _ => false

/-- The contents of the file at a path. -/
def read (tree : Tree) (path : String) : Except Error Bytes := do
  match ← tree.node true path with
  | (_, .file contents, _) => .ok contents
  | (_, .dir _, _) => .error .isDirectory
  | (_, .link _, _) => .error .tooManyLinks

/-- The text of bytes that a file holds. -/
def textOf (contents : Bytes) : Except Error String :=
  match Text.ofUtf8? contents with
  | some text => .ok text
  | none => .error .notText

/-- The contents of the file at a path as text. -/
def readText (tree : Tree) (path : String) : Except Error String := do
  textOf (← tree.read path)

/-- The tree with another node at a location. -/
def setAt (tree : Tree) (location : Location) (node : Node) : Tree :=
  { tree with root := tree.root.setAt location node }

/-- Writes the file at a path, which is made if need be in a directory that is there. A path that
ends with a slash can only be a directory. -/
def write (tree : Tree) (path : String) (contents : Bytes) : Except Error Tree :=
  if Text.endsWith path "/" then
    match path.toList.reverse.dropWhile (· = '/') with
    | [] => .error .isDirectory
    | c :: rest => do
      let _ ← tree.resolve true (String.ofList (c :: rest).reverse)
      .error .isDirectory
  else do
    match ← tree.resolve true path with
    | (.found location (.file _), _) => .ok (tree.setAt location (.file contents))
    | (.found _ _, _) => .error .isDirectory
    | (.free location name, _) => .ok (tree.setAt (location ++ [name]) (.file contents))

end Tree

end PolicyBundle.Files
