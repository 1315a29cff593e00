import PolicyBundle.Command.Run

/-!
# The program

The outermost layer: it takes the files that the arguments name and the variables of the
environment, runs the program on them, prints what the program prints and writes what it writes.
What cannot be read counts as missing.
-/

namespace PolicyBundle.Main

open Files Command

/-- The files taken so far, and the directories that were taken with all that they hold. -/
structure Taken where
  tree : Tree
  whole : List Location

/-- An action that takes files. -/
abbrev Taking := StateT Taken IO

/-- A location as an absolute path. -/
def pathOf (location : Location) : String :=
  "/" ++ Text.join "/" location

/-- The entry of a directory, by which the system knows it. -/
def entryOf (location : Location) (name : String) : IO.FS.DirEntry :=
  ⟨pathOf location, name⟩

/-- What comes of an action, if it succeeds. -/
def attempt (action : IO α) : IO (Option α) := do
  match ← action.toBaseIO with
  | .ok value => return some value
  | .error _ => return none

/-- Takes a node, unless there is one at its place. -/
def takeNode (location : Location) (node : Node) : Taking Unit :=
  modify fun taken =>
    if (taken.tree.root.at? location).isSome then taken
    else { taken with tree := taken.tree.setAt location node }

/-- Takes what some segments lead to from a directory on. Where `whole` is set, that is taken with
all that it holds. -/
partial def takeFrom (whole : Bool) (location : Location) : List String → Taking Unit
  | [] => do
    if whole && !(← get).whole.contains location then
      modify fun taken => { taken with whole := location :: taken.whole }
      let entries ← attempt (entryOf location ".").path.readDir
      for entry in entries.getD #[] do
        takeFrom true location [entry.fileName]
  | segment :: rest => do
    if segment = "" || segment = "." then takeFrom whole location rest
    else if segment = ".." then takeFrom whole location.dropLast rest
    else
      let path := (entryOf location segment).path
      let place := location ++ [segment]
      let kind : Option IO.FS.FileType := (← attempt path.symlinkMetadata).map (·.type)
      match kind with
      | none => return
      | some .dir =>
        takeNode place (.dir [])
        takeFrom whole place rest
      | some .symlink =>
        match ← attempt (IO.FS.realPath path) with
        | none => takeNode place (.link (pathOf place))
        | some target =>
          takeNode place (.link target.toString)
          takeFrom whole [] (segments target.toString ++ rest)
      | some _ =>
        if let some contents ← attempt (IO.FS.readBinFile path) then
          takeNode place (.file contents.toList)

/-- Takes what a path leads to. -/
def takePath (whole : Bool) (path : String) : Taking Unit := do
  takeFrom whole [] (segments (join (pathOf (← get).tree.current) path))

/-- Takes what the arguments name. Of the output only the way to it is taken. -/
def takeArguments : List String → Taking Unit
  | flag :: value :: rest => do
    match Valued.ofFlag? flag with
    | none => takeArguments (value :: rest)
    | some valued =>
      match valued with
      | .source | .bundleFile | .capabilities | .capabilitiesVersion => takePath true value
      | .output => takePath false value
      | _ => pure ()
      takeArguments rest
  | _ => return

/-- The filter for the events that go into no log. -/
def filterOf (text : Option String) : Log.Filter :=
  (text.bind Log.Filter.parse?).getD .warnings

/-- The values of the variables that the settings depend on. -/
def readEnvironment : IO (List (String × Bytes)) := do
  let mut found := []
  for name in Settings.variableNames do
    if let some value ← IO.getEnv name then
      found := (name, Text.utf8 value) :: found
  return found

/-- The files that the arguments and the settings name. -/
def takeFiles (settings : Settings) (arguments : List String) : IO Tree := do
  let current := (segments (← IO.currentDir).toString).filter (!·.isEmpty)
  let taking : Taking Unit := do
    takePath false "."
    settings.capabilitiesDir.forM (takePath true)
    takeArguments arguments
  let (_, taken) ← taking.run ⟨⟨.dir [], current⟩, []⟩
  return taken.tree

end PolicyBundle.Main

open PolicyBundle in
/-- Runs the program. -/
def main (arguments : List String) : IO UInt32 := do
  let environment ← Main.readEnvironment
  let settings := Settings.ofEnvironment fun name => environment.lookup name
  let files ← Main.takeFiles settings arguments
  let filter := Main.filterOf (← IO.getEnv "RUST_LOG")
  let report := Command.run ⟨files, settings⟩ filter arguments
  if let some (path, contents) := report.written then
    IO.FS.writeBinFile path ⟨contents.toArray⟩
  (← IO.getStderr).putStr report.errors
  (← IO.getStdout).putStr report.output
  return report.exit.toUInt32
