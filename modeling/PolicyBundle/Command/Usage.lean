import PolicyBundle.Text.Basic

/-!
# Usage

The text that tells how to use the program.
-/

namespace PolicyBundle.Command

/-- The lines that tell how to use the program. -/
def usageLines : List String := [
  "Usage: rego-build (--source <path> | --bundle-file <path>) [OPTIONS]",
  "",
  "Build a policy bundle.",
  "",
  "SOURCES:",
  "    --source <path>              File or directory of policy sources",
  "    --bundle-file <path>         Existing bundle archive (.tar.gz)",
  "",
  "OPTIONS:",
  "    --target <name>              Output target: rego or plan (default: rego)",
  "    --entrypoint <path>          Entrypoint rule, e.g. authz/allow (repeatable)",
  "    --bundle                     Treat --source as a bundle directory",
  "    --capabilities <file>        Capabilities JSON file",
  "    --capabilities-version <v>   Named capabilities version, e.g. v0.68.0",
  "    --rego-version <v>           Dialect: v0, v0v1 or v1 (default: v1)",
  "    --revision <rev>             Revision recorded in the manifest",
  "    --ignore <glob>              Skip matching files (repeatable)",
  "    --optimize <n>               Optimization level (default: 0)",
  "    --prune-unused               Drop modules unreachable from the entrypoints",
  "    --follow-symlinks            Follow symlinks while walking --source",
  "    --disable-print              Erase print() calls",
  "    --debug                      Print the captured debug log to stderr",
  "    --output <path>              Output bundle path (default: bundle.tar.gz)",
  "    --version                    Show version information",
  "    --help                       Show this help message",
  "",
  "ENVIRONMENT:",
  "    RUST_LOG                     CLI log filter (default: warn)",
  "    REGO_BUILD_LOG               Debug log filter (default: debug)",
  "    REGO_BUILD_CAPABILITIES_DIR  Extra directory of <version>.json capabilities",
  "",
  "EXAMPLES:",
  "    # Build a bundle directory with one entrypoint",
  "    rego-build --source ./policies --bundle --entrypoint authz/allow",
  "",
  "    # Rebuild an existing bundle against older capabilities",
  "    rego-build --bundle-file in.tar.gz --capabilities-version v0.68.0 --output out.tar.gz"]

/-- The text that tells how to use the program. -/
def usage : String :=
  String.join (usageLines.map (· ++ "\n"))

end PolicyBundle.Command
