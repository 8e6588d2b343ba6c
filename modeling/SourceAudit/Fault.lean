import SourceAudit.FileSystem

/-! What can go wrong with a scan as a whole. -/
namespace SourceAudit

/-- Why a scan or a command fails. -/
inductive Fault where
  /-- No path was given. -/
  | emptyPath
  /-- The path leads nowhere. -/
  | targetNotFound (path : String) (cause : FileError)
  /-- The path does not lead to a directory. -/
  | notADirectory (path : String)
  /-- A setting is not understood. -/
  | configuration (detail : String)
  /-- The report cannot be written. -/
  | output (detail : String)
  /-- A file that is needed cannot be read or written. -/
  | file (cause : FileError)
  /-- A configuration file is not TOML, or not a configuration. -/
  | malformedConfiguration
  deriving DecidableEq, Inhabited

namespace Fault

/-- What the user is told. -/
def message : Fault → String
  | .emptyPath => "Scan path required"
  | .targetNotFound path cause => "Cannot access scan path " ++ path ++ ": " ++ cause.message
  | .notADirectory path => "Scan path must be a directory: " ++ path
  | .configuration detail => "Configuration error: " ++ detail
  | .output detail => "Output error: " ++ detail
  | .file cause => "IO error: " ++ cause.message
  | .malformedConfiguration => "TOML parse error"

/-- The exit code of a command that fails. -/
def exitCode : Fault → Nat
  | _ => 1

end Fault
end SourceAudit
