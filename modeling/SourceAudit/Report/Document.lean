import SourceAudit.Construct
import SourceAudit.Json.Printer
import SourceAudit.Json.Reader
import SourceAudit.Json.Record
import SourceAudit.Report

/-! Findings, verdicts and reports as JSON values.

Each type has a writer and a reader, and the reader understands what the writer writes. -/
namespace SourceAudit

open Json (ofNat ofOption ofList)

/-! ### Names -/

namespace Severity

def toJson (s : Severity) : Json := .str s.tag

def ofJson? : Json → Option Severity := Json.tag? ofTag?

end Severity

namespace Language

def toJson (l : Language) : Json := .str l.tag

def ofJson? : Json → Option Language := Json.tag? ofTag?

end Language

namespace Shape

def toJson (s : Shape) : Json := .str s.tag

def ofJson? : Json → Option Shape := Json.tag? ofTag?

end Shape

/-! ### Sites, rules and findings -/

namespace Site

def fieldNames : List String := ["line", "column", "snippet"]

def toJson (s : Site) : Json :=
  .obj [("line", ofNat s.line), ("column", ofNat s.column), ("snippet", .str s.snippet)]

def ofJson? (j : Json) : Option Site := do
  let r ← j.record? fieldNames
  return { line := ← r.required "line" Json.count?
           column := ← r.required "column" Json.count?
           snippet := ← r.required "snippet" Json.string? }

end Site

namespace RuleInfo

def fieldNames : List String := ["kind", "name", "severity", "cwe", "message", "engine"]

def toJson (i : RuleInfo) : Json :=
  .obj [("kind", .str i.kind), ("name", .str i.name), ("severity", i.severity.toJson),
    ("cwe", .str i.cwe), ("message", .str i.message), ("engine", .str i.engine)]

def ofJson? (j : Json) : Option RuleInfo := do
  let r ← j.record? fieldNames
  return { kind := ← r.required "kind" Json.string?
           name := ← r.required "name" Json.string?
           severity := ← r.required "severity" Severity.ofJson?
           cwe := ← r.required "cwe" Json.string?
           message := ← r.required "message" Json.string?
           engine := ← r.required "engine" Json.string? }

end RuleInfo

namespace Finding

def fieldNames : List String :=
  ["id", "type", "severity", "file", "line", "column", "code_snippet", "message", "cwe",
   "language"]

/-- The column is left out if there is none. -/
def toJson (f : Finding) : Json :=
  .obj ([("id", .str f.id), ("type", .str f.kind), ("severity", f.severity.toJson),
      ("file", .str f.file), ("line", ofNat f.line)] ++
    (f.column.map fun c => ("column", ofNat c)).toList ++
    [("code_snippet", .str f.snippet), ("message", .str f.message), ("cwe", .str f.cwe),
      ("language", f.language.toJson)])

def ofJson? (j : Json) : Option Finding := do
  let r ← j.record? fieldNames
  return { id := ← r.required "id" Json.string?
           kind := ← r.required "type" Json.string?
           severity := ← r.required "severity" Severity.ofJson?
           file := ← r.required "file" Json.string?
           line := ← r.required "line" Json.count?
           column := ← r.defaulted "column" none (Json.nullable? Json.count?)
           snippet := ← r.required "code_snippet" Json.string?
           message := ← r.required "message" Json.string?
           cwe := ← r.required "cwe" Json.string?
           language := ← r.required "language" Language.ofJson? }

end Finding

/-! ### Policies and verdicts -/

namespace Policy

def fieldNames : List String := ["fail_on"]

def ofJson? (j : Json) : Option Policy := do
  let r ← j.record? fieldNames
  return { failOn := ← r.defaulted "fail_on" none (Json.nullable? Severity.ofJson?) }

end Policy

namespace Verdict

def fieldNames : List String := ["pass", "total_findings", "highest_severity", "fail_threshold"]

def toJson (v : Verdict) : Json :=
  .obj [("pass", .bool v.pass), ("total_findings", ofNat v.totalFindings),
    ("highest_severity", ofOption Severity.toJson v.highest),
    ("fail_threshold", ofOption Severity.toJson v.threshold)]

def ofJson? (j : Json) : Option Verdict := do
  let r ← j.record? fieldNames
  return { pass := ← r.required "pass" Json.bool?
           totalFindings := ← r.required "total_findings" Json.count?
           highest := ← r.optional "highest_severity" (Json.nullable? Severity.ofJson?)
           threshold := ← r.optional "fail_threshold" (Json.nullable? Severity.ofJson?) }

end Verdict

/-! ### Reports -/

namespace Counts

def fieldNames : List String := ["critical", "high", "medium", "low", "info"]

def toJson (c : Counts) : Json :=
  .obj [("critical", ofNat c.critical), ("high", ofNat c.high), ("medium", ofNat c.medium),
    ("low", ofNat c.low), ("info", ofNat c.info)]

def ofJson? (j : Json) : Option Counts := do
  let r ← j.record? fieldNames
  return { critical := ← r.required "critical" Json.count?
           high := ← r.required "high" Json.count?
           medium := ← r.required "medium" Json.count?
           low := ← r.required "low" Json.count?
           info := ← r.required "info" Json.count? }

end Counts

namespace Summary

def fieldNames : List String := ["total_files", "total_vulnerabilities", "by_severity"]

def toJson (s : Summary) : Json :=
  .obj [("total_files", ofNat s.totalFiles), ("total_vulnerabilities", ofNat s.totalFindings),
    ("by_severity", s.bySeverity.toJson)]

def ofJson? (j : Json) : Option Summary := do
  let r ← j.record? fieldNames
  return { totalFiles := ← r.required "total_files" Json.count?
           totalFindings := ← r.required "total_vulnerabilities" Json.count?
           bySeverity := ← r.required "by_severity" Counts.ofJson? }

end Summary

namespace Report

def fieldNames : List String :=
  ["scan_id", "timestamp", "project", "summary", "vulnerabilities", "truncated"]

/-- The files are not written, and a report that is complete does not say so. -/
def toJson (r : Report) : Json :=
  .obj ([("scan_id", .str r.scanId), ("timestamp", .str r.timestamp), ("project", .str r.project),
      ("summary", r.summary.toJson), ("vulnerabilities", ofList Finding.toJson r.findings)] ++
    if r.truncated then [("truncated", .bool true)] else [])

def ofJson? (j : Json) : Option Report := do
  let r ← j.record? fieldNames
  return { scanId := ← r.required "scan_id" Json.string?
           timestamp := ← r.required "timestamp" Json.string?
           project := ← r.required "project" Json.string?
           summary := ← r.required "summary" Summary.ofJson?
           findings := ← r.required "vulnerabilities" (Json.list? Finding.ofJson?)
           truncated := ← r.defaulted "truncated" false Json.bool? }

/-- The report as indented text. -/
def toText (r : Report) : String := r.toJson.toText

/-- The report that a text stands for. -/
def ofText? (text : String) : Option Report := (Json.ofText? text.toList).bind ofJson?

end Report
end SourceAudit
