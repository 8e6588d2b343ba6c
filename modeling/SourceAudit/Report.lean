import SourceAudit.Policy
import SourceAudit.Tally

/-! The report of a scan. -/
namespace SourceAudit

/-- The numbers of a report. -/
structure Summary where
  totalFiles : Nat
  totalFindings : Nat
  bySeverity : Counts
  deriving DecidableEq, Inhabited

/-- What a scan found. -/
structure Report where
  scanId : String
  timestamp : String
  /-- The name of the scanned directory. -/
  project : String
  summary : Summary
  /-- The findings of at least the least severity, in the order in which they were added up. -/
  findings : List Finding
  /-- The files that were read; not a part of the written report. -/
  files : List FileOutcome := []
  /-- Whether the scan was cancelled before every file was looked at. -/
  truncated : Bool := false
  deriving DecidableEq, Inhabited

/-- What tells two scans of the same files apart. -/
structure Stamp where
  scanId : String
  timestamp : String
  deriving DecidableEq, Inhabited

/-- The report of a finished tally. -/
def Tally.finish (t : Tally) (stamp : Stamp) (project : String) (truncated : Bool) : Report :=
  { scanId := stamp.scanId
    timestamp := stamp.timestamp
    project
    summary :=
      { totalFiles := t.files.length
        totalFindings := t.findings.length
        bySeverity := t.counts }
    findings := t.findings
    files := t.files
    truncated }

namespace Report

/-- Whether a finding does not come after another one: by file, line, kind and id, where texts
are compared character by character. -/
def precedes (a b : Finding) : Bool :=
  match compare a.file b.file with
  | .lt => true
  | .gt => false
  | .eq =>
    match compare a.line b.line with
    | .lt => true
    | .gt => false
    | .eq =>
      match compare a.kind b.kind with
      | .lt => true
      | .gt => false
      | .eq => (compare a.id b.id).isLE

/-- The findings in an order that does not depend on when a file was scanned. -/
def canonicalFindings (r : Report) : List Finding := r.findings.mergeSort precedes

/-- The report with its findings in canonical order. -/
def canonical (r : Report) : Report := { r with findings := r.canonicalFindings }

end Report
end SourceAudit
