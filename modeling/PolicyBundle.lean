import PolicyBundle.Boundary.Client
import PolicyBundle.Main
import PolicyBundle.Proofs.Build.Reachability
import PolicyBundle.Proofs.Policy.HarmlessErasure
import PolicyBundle.Proofs.Archive.Compressed
import PolicyBundle.Proofs.Archive.Fields
import PolicyBundle.Proofs.Archive.Headers
import PolicyBundle.Proofs.Archive.Paths
import PolicyBundle.Proofs.Archive.Unpacking
import PolicyBundle.Proofs.Bundle.DataTree
import PolicyBundle.Proofs.Bundle.DataUnion
import PolicyBundle.Proofs.Bundle.EntryPath
import PolicyBundle.Proofs.Bundle.Limits
import PolicyBundle.Proofs.Bundle.Manifest
import PolicyBundle.Proofs.Bundle.ReadBack
import PolicyBundle.Proofs.Archive.Names
import PolicyBundle.Proofs.Build.BuiltBundles
import PolicyBundle.Proofs.Build.CallCheck
import PolicyBundle.Proofs.Build.Pruning
import PolicyBundle.Proofs.Build.DirectoryBuild
import PolicyBundle.Proofs.Build.OutputDialect
import PolicyBundle.Proofs.Build.Rebuilding
import PolicyBundle.Proofs.Bundle.EntryOrder
import PolicyBundle.Proofs.Bundle.WriteBack
import PolicyBundle.Proofs.Build.ModuleOrder
import PolicyBundle.Proofs.Build.DataReach
import PolicyBundle.Proofs.Build.Granting
import PolicyBundle.Proofs.Policy.Rewording
import PolicyBundle.Proofs.Boundary.Answers
import PolicyBundle.Proofs.Boundary.PolicyTexts
import PolicyBundle.Proofs.Build.CompilerRuns
import PolicyBundle.Proofs.Source.Links
import PolicyBundle.Proofs.Policy.Entrypoints
import PolicyBundle.Proofs.Policy.Dialects
import PolicyBundle.Proofs.Policy.KeywordChecks
import PolicyBundle.Proofs.Policy.Remarks
import PolicyBundle.Proofs.Build.PlanContents
import PolicyBundle.Proofs.Build.Resolving
import PolicyBundle.Proofs.Source.Contents
import PolicyBundle.Proofs.Boundary.ClientPaths
import PolicyBundle.Proofs.Bundle.CanonicalNames
import PolicyBundle.Proofs.Command.Runs
import PolicyBundle.Proofs.Capability.Merging
import PolicyBundle.Proofs.Policy.NameSearch
