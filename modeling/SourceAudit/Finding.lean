import SourceAudit.Digest.Sha256
import SourceAudit.Language
import SourceAudit.Severity
import SourceAudit.Site

/-! Findings, and the rules they come from. -/
namespace SourceAudit

/-- What a rule says about itself. -/
structure RuleInfo where
  /-- The tag its findings carry. -/
  kind : String
  name : String
  severity : Severity
  cwe : String
  message : String
  /-- The engine that applies it. -/
  engine : String
  deriving DecidableEq, Inhabited

/-- A reported weakness. -/
structure Finding where
  id : String
  kind : String
  severity : Severity
  file : String
  line : Nat
  column : Option Nat
  snippet : String
  message : String
  cwe : String
  language : Language
  deriving DecidableEq, Inhabited

namespace Finding

/-- The text that identifies the findings of one kind on one line of a file. -/
def identity (file kind : String) (line : Nat) : String :=
  String.ofList (file.toList ++ '|' :: kind.toList ++ '|' :: Nat.toDigits 10 line)

/-- The first eight bytes of the digest of the identity, in hexadecimal. -/
def idOf (file kind : String) (line : Nat) : String :=
  let text := Text.Utf8.encode (identity file kind line).toList
  String.ofList (Digest.Sha256.hex ((Digest.Sha256.digest text).take 8))

/-- The finding of a rule at a site. -/
def ofSite (info : RuleInfo) (file : String) (language : Language) (site : Site) : Finding :=
  { id := idOf file info.kind site.line
    kind := info.kind
    severity := info.severity
    file := file
    line := site.line
    column := some site.column
    snippet := site.snippet
    message := info.message
    cwe := info.cwe
    language := language }

end Finding
end SourceAudit
