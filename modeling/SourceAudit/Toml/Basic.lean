import SourceAudit.Record

/-! Values of configuration files in TOML. -/
namespace SourceAudit

/-- A value. Numbers with a fraction and moments in time keep the text they are written in. -/
inductive Toml where
  | str (s : String)
  | int (n : Int)
  | float (text : List Char)
  | bool (b : Bool)
  | moment (text : List Char)
  | arr (items : List Toml)
  | table (entries : List (String × Toml))
  deriving Inhabited

namespace Toml

def string? : Toml → Option String
  | .str s => some s
  | _ => none

/-- A number that counts something. -/
def count? : Toml → Option Nat
  | .int (.ofNat n) => some n
  | _ => none

/-- A list whose items can all be read. -/
def list? {α : Type} (read : Toml → Option α) : Toml → Option (List α)
  | .arr items => items.mapM read
  | _ => none

/-- Whether a value is a table or a list without anything in it. -/
def isEmpty : Toml → Bool
  | .arr [] => true
  | .table [] => true
  | _ => false

/-- One of a list of names, alone or as the only key of a table that holds nothing. -/
def tag? {α : Type} (ofTag? : String → Option α) : Toml → Option α
  | .str s => ofTag? s
  | .table [(s, v)] => if v.isEmpty then ofTag? s else none
  | _ => none

/-- The record with these fields that a value stands for. A moment counts as a table, but has
none of the fields. -/
def record? (names : List String) : Toml → Option (Record Toml)
  | .table entries => some (.ofFields entries)
  | .arr items => some (.ofItems names items)
  | .moment _ => some (.ofFields [])
  | _ => none

/-- The keys of a table; a moment has one that nothing else has. -/
def keys : Toml → List String
  | .table entries => entries.map (·.1)
  | .moment _ => ["$__toml_private_datetime"]
  | _ => []

end Toml
end SourceAudit
