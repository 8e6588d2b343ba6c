import SourceAudit.Grammar
import SourceAudit.Lowering
import SourceAudit.Rule.Line
import SourceAudit.Rule.Structural
import SourceAudit.Text.Search

/-! Detectors, and the engine that runs them.

A detector looks at one file and reports findings; it never fails. An engine is a list of
detectors, whose findings it gives one detector after the other. -/
namespace SourceAudit

/-- Something that finds weaknesses in a file. -/
structure Detector where
  /-- The tag of what it reports. -/
  kind : String
  severity : Severity
  cwe : String
  /-- The rules it applies. -/
  rules : List RuleInfo
  detect : Path → Language → List UInt8 → List Finding

namespace Detector

/-! ### Lines -/

/-- The detector of a line rule. -/
def ofLineRule (rule : LineRule) : Detector :=
  { kind := rule.info.kind
    severity := rule.info.severity
    cwe := rule.info.cwe
    rules := [rule.info]
    detect := rule.detect }

/-- The sites of a text in a list of lines numbered from `first` on. Like `literal`, it is no part of
the standard engine. -/
def literalSites (needle : List Char) (first : Nat) : List (List Char) → List Site
  | [] => []
  | line :: rest =>
    ((Text.find? needle line).map fun offset =>
      Site.ofText first (offset + 1) (String.ofList line)).toList ++
      literalSites needle (first + 1) rest

/-- The detector that reports every line in which a text stands. No rule of the catalog is made of it;
it lets an engine be tried with a detector of another's making. -/
def literal (needle : String) (info : RuleInfo) : Detector :=
  { kind := info.kind
    severity := info.severity
    cwe := info.cwe
    rules := [info]
    detect := fun path language content =>
      (literalSites needle.toList 1 (Text.pieces (Text.Utf8.decodeLossy content))).map
        (Finding.ofSite info path.display language) }

/-! ### Structure -/

/-- How source texts become trees. -/
abbrev TreeReader := Language → Dialect → List Char → Syntax.Tree

/-- The constructs of a source text. -/
def constructsOf (read : TreeReader) (path : Path) (language : Language) (text : List Char) :
    Constructs :=
  (read language (Dialect.ofPath path) text).constructs (Syntax.Source.ofText text) language

/-- The detector that applies all structural rules to the tree of a file. -/
def structural (read : TreeReader) : Detector :=
  { kind := "ast_engine"
    severity := .critical
    cwe := ""
    rules := StructuralRule.catalog.map (·.info)
    detect := fun path language content =>
      StructuralRule.allFindings path.display language
        (constructsOf read path language (Text.Utf8.decodeLossy content)) }

end Detector

/-- The detectors to run on each file, in this order. -/
abbrev Engine := List Detector

namespace Engine

/-- The findings of all detectors in a file. -/
def run (engine : Engine) (path : Path) (language : Language) (content : List UInt8) :
    List Finding :=
  engine.flatMap fun d => d.detect path language content

/-- The rules of all detectors. -/
def rules (engine : Engine) : List RuleInfo := engine.flatMap (·.rules)

/-- The line rules alone. -/
def lineRules : Engine := LineRule.catalog.map Detector.ofLineRule

/-- The line rules, then the structural rules over the trees of a reader. -/
def withReader (read : Detector.TreeReader) : Engine :=
  lineRules ++ [Detector.structural read]

/-- The rules that every scan applies. -/
def standard : Engine := withReader Grammar.parse

end Engine
end SourceAudit
