import SourceAudit.Report.Console
import SourceAudit.Report.Document
import SourceAudit.Report.Sarif
import SourceAudit.Text.Lowercase

/-! The forms a report can be written in. -/
namespace SourceAudit.Report

/-- How a report is written. -/
inductive Format where
  | console
  | json
  | sarif
  deriving DecidableEq, Inhabited

namespace Format

def all : List Format := [.console, .json, .sarif]

def tag : Format → String
  | .console => "console"
  | .json => "json"
  | .sarif => "sarif"

/-- The format with exactly this tag. -/
def ofTag? (s : String) : Option Format := all.find? (·.tag = s)

def ofJson? : Json → Option Format := Json.tag? ofTag?

/-- The format a user names, in any letter case. -/
def ofName? (name : String) : Option Format :=
  match Text.lowered name with
  | "console" | "text" => some .console
  | "json" => some .json
  | "sarif" => some .sarif
  | _ => none

end Format

/-- The text of a report. -/
def render (r : Report) (v : Verdict) : Format → String
  | .console => Console.render r v
  | .json => r.toText
  | .sarif => Sarif.render r.findings r.project

end SourceAudit.Report
