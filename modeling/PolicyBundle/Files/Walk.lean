import PolicyBundle.Files.Tree

/-!
# Walks

The files below a path, depth first, with the entries of each directory in the order of their
names. A walk may pass over links or follow them. Where it follows them, a link to a directory
that the walk is inside of is an error, and so is a link that leads nowhere. The path that a walk
begins at is always followed to its directory.
-/

namespace PolicyBundle.Files

/-- Why a walk cannot go on. -/
inductive WalkFault where
  | unreadable (error : Error)
  /-- A link to a directory that it is inside of, given by its path. -/
  | loop (ancestor : String)
  deriving DecidableEq, Repr

/-- A walk that cannot go on, and the path at which it stops. -/
structure WalkError where
  path : String
  fault : WalkFault
  deriving DecidableEq, Repr

/-- The text of an error. -/
def WalkError.message (e : WalkError) : String :=
  match e.fault with
  | .unreadable error => "IO error for operation on " ++ e.path ++ ": " ++ error.message
  | .loop ancestor =>
    "File system loop found: " ++ e.path ++ " points to an ancestor " ++ ancestor

/-- A file that a walk comes upon. -/
structure Found where
  /-- The path by which it was reached. -/
  path : String
  /-- The path below the beginning of the walk; empty for the beginning itself. -/
  relative : String
  contents : Bytes

/-- What a walk comes upon: files, and the errors that end it. -/
abbrev Steps := List (Except WalkError Found)

/-- Which entries a walk keeps, by name, by whether they are directories, and by depth. -/
abbrev Keep := (name : String) → (isDir : Bool) → (depth : Nat) → Bool

/-- The name that a path ends with; empty when it ends with no name. -/
def fileName (path : String) : String :=
  match ((segments path).filter fun s => s ≠ "" && s ≠ ".").getLast? with
  | none => ""
  | some name => if name = ".." then "" else name

/-- What was found in a directory, in the order of the names. -/
def inOrder (found : List (String × Steps)) : Steps :=
  (found.mergeSort fun a b => a.1 ≤ b.1).flatMap (·.2)

/-- How far a walk has come: the path of a directory, its path below the beginning, and the depth of
its entries. -/
structure Spot where
  path : String
  relative : String
  depth : Nat

namespace Spot

/-- The spot of an entry. -/
def enter (s : Spot) (name : String) : Spot :=
  ⟨within s.path name, within s.relative name, s.depth + 1⟩

end Spot

mutual

/-- The files below a node, links being passed over. -/
def stillFiles (keep : Keep) (s : Spot) (name : String) : Node → Steps
  | .file contents =>
    if keep name false s.depth then [.ok ⟨s.path, s.relative, contents⟩] else []
  | .link _ => []
  | .dir entries => if keep name true s.depth then inOrder (stillEntries keep s entries) else []

/-- The files below some entries of a directory, links being passed over. -/
def stillEntries (keep : Keep) (s : Spot) : List (String × Node) → List (String × Steps)
  | [] => []
  | (name, node) :: rest =>
    (name, stillFiles keep (s.enter name) name node) :: stillEntries keep s rest

end

/-- A directory that a walk is inside of: where it really is, and its path in the walk. -/
structure Ancestor where
  location : Location
  path : String

/-- Where a node is reached in a walk that follows links: its real place, the links that may yet be
passed, and the directories around it. -/
structure Reach where
  location : Location
  links : Nat
  ancestors : List Ancestor

/-- The files below a node, links being followed. `depth` bounds the number of directories inside
each other. -/
def followedFiles (root : Node) (keep : Keep) :
    (depth : Nat) → Spot → Reach → (name : String) → Node → Steps
  | 0, _, _, _, _ => []
  | depth + 1, s, reach, name, node =>
    let enterDir (reach : Reach) (entries : List (String × Node)) : Steps :=
      if keep name true s.depth then
        let ancestors := ⟨reach.location, s.path⟩ :: reach.ancestors
        inOrder <| entries.map fun (child, node) =>
          let reach := ⟨reach.location ++ [child], reach.links, ancestors⟩
          (child, followedFiles root keep depth (s.enter child) reach child node)
      else []
    let file (contents : Bytes) : Steps :=
      if keep name false s.depth then [.ok ⟨s.path, s.relative, contents⟩] else []
    match node with
    | .file contents => file contents
    | .dir entries => enterDir reach entries
    | .link target =>
      let start := if Text.startsWith target "/" then [] else reach.location.dropLast
      match reach.links with
      | 0 => [.error ⟨s.path, .unreadable .tooManyLinks⟩]
      | links + 1 =>
        match resolveFrom root true links start (segments target) with
        | .error error => [.error ⟨s.path, .unreadable error⟩]
        | .ok (.found location (.dir entries), links) =>
          match reach.ancestors.find? (·.location = location) with
          | some ancestor => [.error ⟨s.path, .loop ancestor.path⟩]
          | none => enterDir { reach with location, links } entries
        | .ok (.found _ (.file contents), _) => file contents
        | .ok _ => [.error ⟨s.path, .unreadable .notFound⟩]

namespace Tree

/-- How many directories can be inside each other in a walk that follows links. Between two links a
walk goes down, and no link leads back to a directory around it. -/
def maxDepth (tree : Tree) : Nat :=
  (tree.root.directories + 2) * (tree.root.directories + 2)

/-- The files below a path. -/
def walk (tree : Tree) (follow : Bool) (keep : Keep) (path : String) : Steps :=
  let spot : Spot := ⟨path, "", 0⟩
  let name := fileName path
  match tree.node false path with
  | .error error => [.error ⟨path, .unreadable error⟩]
  | .ok (location, node, links) =>
    if follow then
      followedFiles tree.root keep tree.maxDepth spot ⟨location, links, []⟩ name node
    else
      match node with
      | .link _ =>
        match tree.node true path with
        | .error error => [.error ⟨path, .unreadable error⟩]
        | .ok (_, .dir entries, _) => inOrder (stillEntries keep spot entries)
        | .ok _ => []
      | node => stillFiles keep spot name node

end Tree

end PolicyBundle.Files
