import SourceAudit.Json.Basic
import SourceAudit.Record
import SourceAudit.Word

/-! Reading records from JSON values. -/
namespace SourceAudit.Json

/-! ### Values without parts -/

def string? : Json → Option String
  | .str s => some s
  | _ => none

def bool? : Json → Option Bool
  | .bool b => some b
  | _ => none

/-- A count of at most 64 bits. -/
def count? : Json → Option Nat
  | .int (.ofNat n) => if n < Word.unsignedLimit then some n else none
  | _ => none

/-- A list whose items can all be read. -/
def list? {α : Type} (read : Json → Option α) : Json → Option (List α)
  | .arr items => items.mapM read
  | _ => none

/-- A value that may be `null`. -/
def nullable? {α : Type} (read : Json → Option α) : Json → Option (Option α)
  | .null => some none
  | j => (read j).map some

/-- One of a list of names, alone or as the only field of an object that holds nothing. -/
def tag? {α : Type} (ofTag? : String → Option α) : Json → Option α
  | .str s => ofTag? s
  | .obj [(s, .null)] => ofTag? s
  | _ => none

/-- The record with these fields that a value stands for. An object gives none of them twice, and
its other fields are ignored; a list holds no more than the fields. -/
def record? (names : List String) : Json → Option (Record Json)
  | .obj fields =>
    if names.all fun name => (fields.map (·.1)).count name ≤ 1 then some (.ofFields fields) else none
  | .arr items => if items.length ≤ names.length then some (.ofItems names items) else none
  | _ => none

end SourceAudit.Json
