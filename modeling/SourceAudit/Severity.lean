import SourceAudit.Text.Blank
import SourceAudit.Text.Lowercase

/-! How grave a finding is. -/
namespace SourceAudit

/-- The grades of a finding, from the least grave on. -/
inductive Severity where
  | info
  | low
  | medium
  | high
  | critical
  deriving DecidableEq, Inhabited

namespace Severity

/-- Every grade, from the least grave on. -/
def all : List Severity := [.info, .low, .medium, .high, .critical]

/-- One for the least grave, five for the gravest. -/
def rank : Severity → Nat
  | .info => 1
  | .low => 2
  | .medium => 3
  | .high => 4
  | .critical => 5

/-- The rank of a grade that may be unknown; unknown lies below every grade. -/
def rankOf (s : Option Severity) : Nat := (s.map rank).getD 0

instance : LE Severity := ⟨fun a b => a.rank ≤ b.rank⟩

instance : LT Severity := ⟨fun a b => a.rank < b.rank⟩

instance (a b : Severity) : Decidable (a ≤ b) := inferInstanceAs (Decidable (a.rank ≤ b.rank))

instance (a b : Severity) : Decidable (a < b) := inferInstanceAs (Decidable (a.rank < b.rank))

/-- The name of a grade. -/
def tag : Severity → String
  | .info => "info"
  | .low => "low"
  | .medium => "medium"
  | .high => "high"
  | .critical => "critical"

/-- The grade with exactly this name. -/
def ofTag? (s : String) : Option Severity :=
  all.find? (·.tag = s)

/-- The grade a user names, in any letter case and with blanks around it. -/
def ofName? (name : String) : Option Severity :=
  match Text.lowered (Text.trimmed name) with
  | "info" => some .info
  | "low" => some .low
  | "medium" | "med" => some .medium
  | "high" => some .high
  | "critical" | "crit" => some .critical
  | _ => none

/-- The graver of two grades. -/
def max (a b : Severity) : Severity := if a ≤ b then b else a

end Severity
end SourceAudit
