import SourceAudit.Finding
import SourceAudit.Pattern
import SourceAudit.Text.Lines

/-! Line rules: a pattern looked for in each line of a file. -/
namespace SourceAudit

/-- A rule that reports every line in which its pattern is found. -/
structure LineRule where
  info : RuleInfo
  pattern : Pattern

namespace LineRule

/-- The site of the pattern in a line, if it is found there. -/
def site? (p : Pattern) (number : Nat) (line : List Char) : Option Site :=
  (p.find? line).map fun offset => Site.ofText number (offset + 1) (String.ofList line)

/-- The sites in a list of lines numbered from `first` on. -/
def sitesFrom (p : Pattern) (first : Nat) : List (List Char) → List Site
  | [] => []
  | line :: rest => (site? p first line).toList ++ sitesFrom p (first + 1) rest

/-- The findings of a rule in a file. -/
def detect (rule : LineRule) (path : Path) (language : Language) (content : List UInt8) :
    List Finding :=
  (sitesFrom rule.pattern 1 (Text.lines (Text.Utf8.decodeLossy content))).map
    (Finding.ofSite rule.info path.display language)

/-! ### The rules -/

/-- Any number of blanks. -/
def blanks : Pattern := .star (.char .blank)

/-- At least one blank. -/
def gap : Pattern := .plus (.char .blank)

/-- At least one character. -/
def anything : Pattern := .plus (.char .notNewline)

/-- The characters of a written-out secret. -/
def secretChar : CharSet :=
  ⟨[(65, 90), (97, 122), (48, 57), (95, 95), (45, 45), (0x17F, 0x17F), (0x212A, 0x212A)]⟩

def quoteChar : Pattern := .char (.ofList ['"', '\x27'])

/-- A name such as `api_key` or `password`, a colon or an equals sign, and at least sixteen
characters in quotes. -/
def secretPattern : Pattern :=
  .sequence
    [.choice
      [.sequence [.word "api".toList, .option (.char (.ofList ['_', '-'])), .word "key".toList],
       .word "password".toList, .word "secret".toList, .word "token".toList],
     blanks, .char (.ofList [':', '=']), blanks, quoteChar, .atLeast 16 (.char secretChar),
     quoteChar]

/-- A selection from a table, and after the table a plus sign, a place holder or an opening
brace. -/
def queryPattern : Pattern :=
  .sequence
    [.word "select".toList, gap, anything, gap, .word "from".toList, gap, anything, blanks,
     .choice [.char (.ofList ['+']), .word ['%', 's'], .char (.ofList ['\x7b'])]]

/-- An assignment to the inner markup of an element. -/
def markupPattern : Pattern :=
  .sequence [.word "innerHTML".toList, blanks, .char (.ofList ['='])]

def lineInfo (kind name : String) (severity : Severity) (cwe message : String) : RuleInfo :=
  { kind, name, severity, cwe, message, engine := "line" }

/-- The line rules, in reporting order. -/
def catalog : List LineRule :=
  [⟨lineInfo "hardcoded_secret" "Hardcoded Secret" .critical "CWE-798" "Hardcoded secret detected",
     secretPattern⟩,
   ⟨lineInfo "sql_injection" "SQL Injection" .high "CWE-89"
     "Possible SQL injection via string concatenation", queryPattern⟩,
   ⟨lineInfo "xss" "Cross-Site Scripting" .high "CWE-79"
     "Potential XSS: unescaped HTML assignment", markupPattern⟩]

end LineRule
end SourceAudit
