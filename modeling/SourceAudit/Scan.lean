import SourceAudit.Config
import SourceAudit.Detector
import SourceAudit.Report
import SourceAudit.Scan.Discovery
import SourceAudit.Scan.Pipeline

/-! Scanning a directory. -/
namespace SourceAudit.Scan

/-- The outcome of scanning one file. -/
def scanFile (engine : Engine) (fs : FileSystem) (job : Job) : FileOutcome :=
  match fs.read job.path with
  | .ok content =>
    { path := job.path
      language := job.language
      lines := Text.countLines content
      findings := engine.run job.path job.language content
      error := none }
  | .error cause =>
    { path := job.path
      language := job.language
      lines := 0
      findings := []
      error := some cause.message }

/-- Refuses a root that is not a directory. -/
def validateRoot (fs : FileSystem) (root : Path) : Except Fault Unit :=
  if root.bytes.isEmpty then .error .emptyPath
  else
    match fs.entry root with
    | .error cause => .error (.targetNotFound root.display cause)
    | .ok (.directory _) => .ok ()
    | .ok _ => .error (.notADirectory root.display)

/-- The name of the scanned directory: the last component of its full path. -/
def projectName (fs : FileSystem) (root : Path) : String :=
  match (fs.canonical? root).bind List.getLast? with
  | some name => String.ofList (Text.Utf8.decodeLossy name)
  | none => root.display

/-- What a scan runs in. -/
structure Host where
  fs : FileSystem
  processors : Nat
  /-- What the report of the scan is stamped with. -/
  stamp : Stamp

/-- The pipeline over the files of a scan, when it has come to its end. -/
def outcome (engine : Engine) (host : Host) (root : Path) (settings : Settings)
    (cancelled : Bool) : Pipeline.State Job FileOutcome :=
  let resolved := settings.resolve host.processors
  Pipeline.run (scanFile engine host.fs) (2 * resolved.workers)
    (.initial (discover host.fs root resolved.languages resolved.exclude) resolved.workers
      cancelled)

/-- The report on a pipeline that has come to its end. -/
def reportOn (host : Host) (root : Path) (settings : Settings)
    (last : Pipeline.State Job FileOutcome) : Report :=
  (Tally.ofOutcomes (settings.resolve host.processors).least last.collected).finish host.stamp
    (projectName host.fs root) last.stopped

/-- Scans every file below a root. -/
def scanWith (engine : Engine) (host : Host) (root : Path) (settings : Settings)
    (cancelled : Bool) : Except Fault Report := do
  validateRoot host.fs root
  return reportOn host root settings (outcome engine host root settings cancelled)

/-! ### A scan with its configuration -/

/-- What the caller of a scan asks for; it counts more than the configuration file. -/
structure Options where
  /-- The configuration file, if not the one in the scanned directory. -/
  configPath : Option Path := none
  settings : Settings := {}
  failOn : Option Severity := none
  /-- Whether the scan is cancelled before it begins. -/
  cancelled : Bool := false

/-- The configuration of a scan, with what the caller asks for in place. -/
def configFor (host : Host) (root : Path) (options : Options) : Except Fault Config := do
  let name := Text.Utf8.encode Config.fileName.toList
  let config ← Config.load host.fs (options.configPath.getD (root.join name))
  return { settings := config.settings.override options.settings
           policy := { failOn := options.failOn.or config.policy.failOn } }

/-- Scans a directory with the standard rules and judges the result. -/
def scan (host : Host) (root : Path) (options : Options) : Except Fault (Report × Verdict) := do
  validateRoot host.fs root
  let config ← configFor host root options
  let report ← scanWith Engine.standard host root config.settings options.cancelled
  return (report, config.policy.evaluate report.findings)

end SourceAudit.Scan
