import SourceAudit.Fault
import SourceAudit.Policy
import SourceAudit.Settings
import SourceAudit.Toml.Reader

/-! Configuration files. -/
namespace SourceAudit

/-- What a configuration file says. -/
structure Config where
  settings : Settings := {}
  policy : Policy := {}
  deriving DecidableEq, Inhabited

namespace Settings

def fieldNames : List String := ["languages", "exclude_dirs", "concurrency", "min_severity"]

/-- A setting that may be left out. -/
def setting? {α : Type} (r : Record Toml) (name : String) (read : Toml → Option α) :
    Option (Option α) :=
  r.optional name fun v => (read v).map some

/-- The settings in a configuration file. Keys that are not settings are refused. -/
def ofToml? (t : Toml) : Option Settings := do
  let r ← t.record? fieldNames
  if t.keys.all fieldNames.contains then
    return { languages := ← setting? r "languages" (Toml.list? (Toml.tag? Language.ofTag?))
             excludeDirs := ← setting? r "exclude_dirs" (Toml.list? Toml.string?)
             concurrency := ← setting? r "concurrency" Toml.count?
             leastSeverity := ← setting? r "min_severity" (Toml.tag? Severity.ofTag?) }
  else none

end Settings

namespace Policy

/-- The policy in a configuration file. -/
def ofToml? (t : Toml) : Option Policy := do
  let r ← t.record? ["fail_on"]
  return { failOn := ← r.defaulted "fail_on" none fun v =>
    (Toml.tag? Severity.ofTag? v).map some }

end Policy

namespace Config

/-- The name of the configuration file of a directory. -/
def fileName : String := ".securescan.toml"

/-- The configuration that a table stands for; other keys are ignored. -/
def ofToml? (t : Toml) : Option Config := do
  let r ← t.record? ["scan", "policy"]
  return { settings := ← r.defaulted "scan" {} Settings.ofToml?
           policy := ← r.defaulted "policy" {} Policy.ofToml? }

/-- The configuration at a path; without a file everything has its default. -/
def load (fs : FileSystem) (p : Path) : Except Fault Config :=
  if fs.exists? p then
    match fs.readText p with
    | .error cause => .error (.file cause)
    | .ok text =>
      match (Toml.ofText? text).bind ofToml? with
      | some c => .ok c
      | none => .error .malformedConfiguration
  else .ok {}

/-- A configuration file to begin with. -/
def starter : String :=
  "# securescan configuration\n" ++
  "\n" ++
  "[scan]\n" ++
  "# Languages to scan (javascript, typescript, python, go). Omit for all.\n" ++
  "# languages = [\"python\", \"go\"]\n" ++
  "\n" ++
  "# Directory names skipped anywhere in the tree.\n" ++
  "exclude_dirs = [\"node_modules\", \"vendor\", \".git\", \"dist\", \"build\"]\n" ++
  "\n" ++
  "# Worker threads. 0 or unset picks one per CPU (at least two).\n" ++
  "# concurrency = 4\n" ++
  "\n" ++
  "# Drop findings below this severity (info, low, medium, high, critical).\n" ++
  "# min_severity = \"low\"\n" ++
  "\n" ++
  "[policy]\n" ++
  "# Minimum severity that fails the scan with exit code 2.\n" ++
  "fail_on = \"high\"\n"

end Config
end SourceAudit
