import SourceAudit.Finding

/-! Adding up what was found in each file.

A tally takes the outcomes of files one by one. Files that could not be read are left out,
and findings below a least severity are not counted. -/
namespace SourceAudit

/-- The outcome of scanning one file. -/
structure FileOutcome where
  path : Path
  language : Language
  /-- One more than the number of line feeds; zero if the file could not be read. -/
  lines : Nat
  /-- Every finding, of any severity. -/
  findings : List Finding
  /-- Why the file could not be read. -/
  error : Option String
  deriving DecidableEq, Inhabited

/-- How many findings there are of each severity. -/
structure Counts where
  critical : Nat := 0
  high : Nat := 0
  medium : Nat := 0
  low : Nat := 0
  info : Nat := 0
  deriving DecidableEq, Inhabited

namespace Counts

/-- Counts one finding more. -/
def record (c : Counts) : Severity → Counts
  | .critical => { c with critical := c.critical + 1 }
  | .high => { c with high := c.high + 1 }
  | .medium => { c with medium := c.medium + 1 }
  | .low => { c with low := c.low + 1 }
  | .info => { c with info := c.info + 1 }

def get (c : Counts) : Severity → Nat
  | .critical => c.critical
  | .high => c.high
  | .medium => c.medium
  | .low => c.low
  | .info => c.info

def total (c : Counts) : Nat := c.critical + c.high + c.medium + c.low + c.info

end Counts

/-- What has been added up so far. -/
structure Tally where
  /-- Findings below this severity are left out. -/
  least : Severity
  files : List FileOutcome := []
  findings : List Finding := []
  counts : Counts := {}
  deriving Inhabited

namespace Tally

/-- Adds a finding, unless it is below the least severity. -/
def addFinding (t : Tally) (f : Finding) : Tally :=
  if t.least ≤ f.severity then
    { t with findings := t.findings ++ [f], counts := t.counts.record f.severity }
  else t

/-- Adds the outcome of a file. -/
def add (t : Tally) (o : FileOutcome) : Tally :=
  if o.error.isSome then t
  else
    let t := o.findings.foldl addFinding t
    { t with files := t.files ++ [o] }

/-- The tally of a list of outcomes. -/
def ofOutcomes (least : Severity) (outcomes : List FileOutcome) : Tally :=
  outcomes.foldl add { least }

end Tally
end SourceAudit
