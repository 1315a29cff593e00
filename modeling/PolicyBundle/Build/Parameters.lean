import PolicyBundle.Bundle.Basic
import PolicyBundle.Capability.Resolve
import PolicyBundle.Source.Filter

/-!
# Parameters of a build

What a caller asks for, and what a compiler is told of it: the source and the capabilities have been
acquired, and everything else is as the caller said.
-/

namespace PolicyBundle.Build

/-- What a caller asks of a build, wherever the sources are. -/
structure Parameters where
  /-- The name of the kind of output; empty for the usual one. -/
  target : String
  /-- A document of capabilities. -/
  capabilitiesDocument : Option String
  /-- A version of capabilities, or a file of them. -/
  capabilitiesVersion : Option String
  /-- Whether the source is a bundle. -/
  bundleMode : Bool
  entrypoints : List String
  /-- Whether the events of the build are collected in a log. -/
  debug : Bool
  optimization : Nat
  /-- Whether modules are dropped that the entrypoints do not reach. -/
  prune : Bool
  /-- A directory for work files. No build makes use of it. -/
  workDir : Option String
  /-- The revision of the output. -/
  revision : Option String
  /-- Patterns for the names of files that are left out. -/
  ignore : List String
  dialect : Policy.Dialect
  followLinks : Bool
  /-- Whether print statements are erased. -/
  erasePrints : Bool
  deriving DecidableEq, Repr

/-- The parameters of a caller that asks for nothing. -/
def Parameters.default : Parameters where
  target := ""
  capabilitiesDocument := none
  capabilitiesVersion := none
  bundleMode := false
  entrypoints := []
  debug := false
  optimization := 0
  prune := false
  workDir := none
  revision := none
  ignore := []
  dialect := .undefined
  followLinks := false
  erasePrints := false

/-- Where a caller has the sources. -/
inductive Request where
  /-- At a path, below which the compiler looks for them. -/
  | path (path : String)
  /-- In the bytes of a bundle archive. -/
  | bytes (bytes : Bytes)

/-- Where a compiler has the sources. -/
inductive SourceMode where
  | path (path : String)
  | bundle (bundle : Bundle)

/-- The name of the kind of a source. -/
def SourceMode.name : SourceMode → String
  | .path _ => "filesystem"
  | .bundle _ => "bundle"

/-- What a compiler is told. -/
structure Config where
  target : String
  bundleMode : Bool
  entrypoints : List String
  source : SourceMode
  capabilities : Capability.Resolved
  keepPrints : Bool
  prune : Bool
  optimization : Nat
  /-- Whether declarations of entrypoints count. -/
  annotations : Bool
  filter : Source.PathFilter
  dialect : Policy.Dialect
  followLinks : Bool
  revision : Option String
  /-- Whether progress is told in detail. -/
  debug : Bool

end PolicyBundle.Build
