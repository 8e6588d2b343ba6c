import SourceAudit.Finding

/-! The policy that decides whether a scan passes. -/
namespace SourceAudit

/-- What a scan is held to. -/
structure Policy where
  /-- The least grave finding that fails a scan; without it no scan fails. -/
  failOn : Option Severity := none
  deriving DecidableEq, Inhabited

/-- The decision about a scan. -/
structure Verdict where
  pass : Bool
  totalFindings : Nat
  highest : Option Severity
  threshold : Option Severity
  deriving DecidableEq, Inhabited

namespace Policy

/-- The gravest of some findings. -/
def highest : List Finding → Option Severity
  | [] => none
  | f :: fs =>
    match highest fs with
    | none => some f.severity
    | some s => some (f.severity.max s)

/-- Whether a finding is grave enough to fail the scan. -/
def rejects (p : Policy) (f : Finding) : Bool :=
  p.failOn.any (· ≤ f.severity)

/-- The verdict on some findings. -/
def evaluate (p : Policy) (findings : List Finding) : Verdict :=
  { pass := !findings.any p.rejects
    totalFindings := findings.length
    highest := highest findings
    threshold := p.failOn }

end Policy
end SourceAudit
