import PolicyBundle.Build.Error
import PolicyBundle.Build.Parameters

/-!
# Entrypoints

The decisions that a bundle is built for. An entrypoint is a package, a rule, or a dotted
beginning of either, and may be written with slashes. Those that a caller names come first; those
that the modules declare follow.
-/

namespace PolicyBundle.Build

open Log

/-- Whether a dotted path is another one or below it. -/
def isWithin (path outer : String) : Bool :=
  path = outer || Text.startsWith path (outer ++ ".")

/-- Whether one of two dotted paths is the other or below it. -/
def related (a b : String) : Bool :=
  isWithin a b || isWithin b a

/-- The dotted path of an entrypoint, without `data.` in front. -/
def normalizeEntrypoint (entrypoint : String) : String :=
  let trimmed := String.ofList (Text.dropEnds (· = '/') entrypoint.toList)
  Text.dropStart "data." (Text.replace '/' '.' trimmed)

/-- Whether a dotted path leads to a package or a rule of some modules. -/
def refersToDecision (modules : List Policy.Module) (path : String) : Bool :=
  modules.any fun m => isWithin m.package path || m.rulePaths.any fun rule => isWithin rule path

/-- The paths with one more behind them, unless it is among them. -/
def addOnce (paths : List String) (path : String) : List String :=
  if paths.contains path then paths else paths ++ [path]

/-- The paths of the entrypoints that a caller names. -/
def requestedEntrypoints (modules : List Policy.Module) (entrypoints : List String) :
    Except CompileError (List String) :=
  entrypoints.foldlM
    (fun paths entrypoint =>
      let path := normalizeEntrypoint entrypoint
      if path.isEmpty || !refersToDecision modules path then
        .error (.unknownEntrypoint entrypoint)
      else .ok (addOnce paths path))
    []

/-- What declares an entrypoint. -/
inductive Declaration where
  | package
  | rule
  deriving DecidableEq, Repr

/-- The entrypoints that a module declares. -/
def declaredEntrypoints (m : Policy.Module) : List (Declaration × String) :=
  (if m.packageEntrypoint then [(.package, m.package)] else []) ++
    (m.rules.filter (·.entrypoint)).map fun rule => (.rule, m.package ++ "." ++ rule.name)

/-- Tells what a compiler does. -/
def note (level : Level) (message : String) (values : List (String × Value)) : Traced Unit :=
  tell level "rego_build::compiler::bundle_compiler" message values

/-- Tells of a declared entrypoint. -/
def noteDeclared (declaration : Declaration) (path : String) : Traced Unit :=
  let message := match declaration with
    | .package => "Annotated package entrypoint"
    | .rule => "Annotated rule entrypoint"
  note .debug message [("entrypoint", .plain path)]

/-- The paths with a declared entrypoint behind them, which is told if it is new. -/
def addDeclared (debug : Bool) (paths : List String) (declared : Declaration × String) :
    Traced (List String) := do
  if debug && !paths.contains declared.2 then noteDeclared declared.1 declared.2
  return addOnce paths declared.2

/-- The entrypoints of a build. -/
def resolveEntrypoints (config : Config) (modules : List Policy.Module) :
    Attempt CompileError (List String) := do
  let requested ← Attempt.quiet (requestedEntrypoints modules config.entrypoints)
  let declared := if config.annotations then modules.flatMap declaredEntrypoints else []
  (declared.foldlM (addDeclared config.debug) requested : Traced _)

end PolicyBundle.Build
