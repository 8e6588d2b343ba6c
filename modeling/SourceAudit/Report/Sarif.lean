import SourceAudit.Json.Printer
import SourceAudit.Report.Console

/-! The report in the static analysis results interchange format, version 2.1.0.

The rules are the kinds of the findings, each described by the first finding of its kind. The
fields of every object stand in alphabetic order. -/
namespace SourceAudit.Report.Sarif

def schema : String :=
  "https://docs.oasis-open.org/sarif/sarif/v2.1.0/errata01/os/schemas/sarif-schema-2.1.0.json"

/-- The version of the program. -/
def programVersion : String := "0.1.0"

/-- The three levels of the format. -/
def level : Severity → String
  | .critical | .high => "error"
  | .medium => "warning"
  | .low | .info => "note"

/-- The page that describes a weakness. -/
def helpUri? (cwe : String) : Option String :=
  if cwe.isEmpty then none
  else
    let number := if "CWE-".toList.isPrefixOf cwe.toList then cwe.toList.drop 4 else cwe.toList
    some ("https://cwe.mitre.org/data/definitions/" ++ String.ofList number ++ ".html")

/-- Puts a finding into a list sorted by kind, unless its kind is there already. -/
def insertKind (f : Finding) : List Finding → List Finding
  | [] => [f]
  | g :: gs =>
    match compare f.kind g.kind with
    | .lt => f :: g :: gs
    | .eq => g :: gs
    | .gt => g :: insertKind f gs

/-- The first finding of each kind, sorted by kind. -/
def firstOfKind (findings : List Finding) : List Finding :=
  findings.foldl (fun found f => insertKind f found) []

def text (s : String) : Json := .obj [("text", .str s)]

/-- The rule that a finding is the first one of. -/
def ruleJson (f : Finding) : Json :=
  .obj ([("defaultConfiguration", .obj [("level", .str (level f.severity))])] ++
    ((helpUri? f.cwe).map fun uri => ("helpUri", Json.str uri)).toList ++
    [("id", .str f.kind), ("name", .str f.kind),
     ("properties", .obj [("tags", .arr [.str "security", .str f.cwe, .str f.language.tag])]),
     ("shortDescription", text f.message)])

def regionJson (f : Finding) : Json :=
  .obj ((f.column.map fun c => ("startColumn", Json.ofNat c)).toList ++
    [("startLine", Json.ofNat f.line)])

def resultJson (f : Finding) : Json :=
  .obj [("level", .str (level f.severity)),
    ("locations", .arr [.obj [("physicalLocation", .obj
      [("artifactLocation", .obj [("uri", .str f.file)]), ("region", regionJson f)])]]),
    ("message", text (f.message ++ ": " ++ f.snippet)),
    ("partialFingerprints", .obj [("securescanId/v1", .str f.id)]),
    ("ruleId", .str f.kind)]

def rulesJson (findings : List Finding) : Json := Json.ofList ruleJson (firstOfKind findings)

def toolJson (findings : List Finding) : Json :=
  .obj [("driver", .obj
    [("name", .str Console.programName), ("rules", rulesJson findings),
     ("semanticVersion", .str programVersion), ("version", .str programVersion)])]

/-- The whole document. -/
def toJson (findings : List Finding) (project : String) : Json :=
  .obj [("$schema", .str schema),
    ("runs", .arr [.obj
      [("automationDetails", .obj [("id", .str (Console.programName ++ "/" ++ project))]),
       ("results", Json.ofList resultJson findings), ("tool", toolJson findings)]]),
    ("version", .str "2.1.0")]

def render (findings : List Finding) (project : String) : String :=
  (toJson findings project).toText

end SourceAudit.Report.Sarif
