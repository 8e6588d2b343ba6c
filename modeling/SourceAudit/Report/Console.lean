import SourceAudit.Report

/-! The report as text for a terminal, the gravest findings first. -/
namespace SourceAudit.Report.Console

/-- The name of the program, as reports show it. -/
def programName : String := "securescan"

/-- The severities in the order in which their numbers are written. -/
def gravestFirst : List Severity := [.critical, .high, .medium, .low, .info]

/-- Whether a finding does not come after another one: graver ones first, then by file and
line. -/
def precedes (a b : Finding) : Bool :=
  if b.severity < a.severity then true
  else if a.severity < b.severity then false
  else
    match compare a.file b.file with
    | .lt => true
    | .gt => false
    | .eq => a.line ≤ b.line

/-- The severity of a finding in brackets, always ten characters. -/
def label : Severity → String
  | .critical => "[CRITICAL]"
  | .high => "[HIGH]    "
  | .medium => "[MEDIUM]  "
  | .low => "[LOW]     "
  | .info => "[INFO]    "

/-- How many findings there are of each severity. -/
def countsText (c : Counts) : String :=
  ", ".intercalate (gravestFirst.map fun s => s.tag ++ ": " ++ toString (c.get s))

/-- The three lines of a finding and an empty one. -/
def findingText (f : Finding) : String :=
  "  " ++ label f.severity ++ " " ++ f.kind ++ " " ++ f.message ++ " (" ++ f.cwe ++ ")\n" ++
  "           at " ++ f.file ++ ":" ++ toString f.line ++ "\n" ++
  "           " ++ f.snippet ++ "\n\n"

def findingsText (findings : List Finding) : String :=
  if findings.isEmpty then "\n  No security findings detected.\n\n"
  else "\n" ++ String.join ((findings.mergeSort precedes).map findingText)

/-- A severity, or `none`. -/
def severityText (s : Option Severity) : String := (s.map (·.tag)).getD "none"

def verdictText (v : Verdict) : String :=
  "  Result: " ++ (if v.pass then "PASS" else "FAIL") ++ " (threshold: " ++
    severityText v.threshold ++ ", highest: " ++ severityText v.highest ++ ")\n\n"

/-- The whole text. -/
def render (r : Report) (v : Verdict) : String :=
  "\n  " ++ programName ++ ": " ++ r.project ++ "\n" ++
  "  Files scanned: " ++ toString r.summary.totalFiles ++ "\n" ++
  (if r.truncated then "  Scan cancelled: results are partial.\n" else "") ++
  "  Findings: " ++ toString r.summary.totalFindings ++ " (" ++
    countsText r.summary.bySeverity ++ ")\n" ++
  findingsText r.findings ++ verdictText v

end SourceAudit.Report.Console
