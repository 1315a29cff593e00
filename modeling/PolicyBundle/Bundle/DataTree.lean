import PolicyBundle.Json.Basic
import PolicyBundle.Text.Basic

/-!
# Data trees

Data documents are mounted into one tree, each at its place. Objects are merged field by field in
the order of the names. An object without fields gives way to any value; every other collision is
a conflict, and then the tree keeps what was merged before it.
-/

namespace PolicyBundle

namespace Json

/-- The value of a field. -/
def field? (name : String) (fields : Fields) : Option Json :=
  fields.lookup name

end Json

namespace DataTree

open Json

/-- A tree after a merge, and the path of the conflict that ended it, if one did. -/
abbrev Merged := Json × Option (List String)

/-- The path of a conflict as it is seen from one level above. -/
def below (name : String) (merged : Merged) : Merged :=
  (merged.1, merged.2.map (name :: ·))

mutual

/-- A value merged into another one. -/
def merge (target : Json) : Json → Merged
  | .object incoming =>
    match target with
    | .object existing =>
      let (fields, conflict) := mergeFields existing incoming
      (.object fields, conflict)
    | target => (target, some [])
  | value => if target.isEmptyObject then (value, none) else (target, some [])

/-- Fields merged into others, one after the other, up to the first conflict. -/
def mergeFields (existing : Fields) : Fields → Fields × Option (List String)
  | [] => (existing, none)
  | (name, value) :: rest =>
    match existing.lookup name with
    | none => mergeFields (setField name value existing) rest
    | some old =>
      match merge old value with
      | (new, none) => mergeFields (setField name new existing) rest
      | (new, some conflict) => (setField name new existing, some (name :: conflict))

end

/-- A value merged into a tree at a path. Objects are made on the way where there is nothing. -/
def mountAt (target : Json) : (path : List String) → Json → Merged
  | [], value => merge target value
  | name :: rest, value =>
    match target with
    | .object fields =>
      let (new, conflict) := mountAt ((fields.lookup name).getD emptyObject) rest value
      (.object (setField name new fields), conflict.map (name :: ·))
    | target => (target, some [])

/-- A tree with a value merged into it at a path, and the dotted path of the conflict if any. -/
def mount (tree : Json) (path : List String) (value : Json) : Json × Option String :=
  let (tree, conflict) := mountAt tree path value
  (tree, conflict.map (Text.join "."))

/-- The path at which the data documents of a directory are mounted. -/
def pathOf (dir : String) : List String :=
  (Text.split '/' dir).filter fun s => s ≠ "" && s ≠ "."

/-- Whether a tree holds no documents. -/
def isEmpty : Json → Bool
  | .object fields => fields.isEmpty
  | _ => true

end DataTree

end PolicyBundle
