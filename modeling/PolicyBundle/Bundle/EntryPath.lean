import PolicyBundle.Text.Basic

/-!
# Names of bundle entries

A path becomes the name of an entry without backslashes, without a drive in front, and without
slashes and segments that lead nowhere.
-/

namespace PolicyBundle.EntryPath

/-- A path without a drive, which is a single letter before the first colon. -/
def dropDrive (path : List Char) : List Char :=
  match path with
  | c :: ':' :: rest => if c.isAlpha then rest else path
  | _ => path

/-- Whether a segment of a path leads anywhere. -/
def isProper (segment : String) : Bool :=
  segment ≠ "" && segment ≠ "."

/-- The name of the entry for a path. -/
def normalize (path : String) : String :=
  let slashed := (Text.replace '\\' '/' path).toList
  Text.join "/" ((Text.split '/' (String.ofList (dropDrive slashed))).filter isProper)

end PolicyBundle.EntryPath
