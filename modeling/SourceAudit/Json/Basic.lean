/-! JSON values.

A number is an integer of 64 bits, signed or not, or else it keeps its digits as they are
written. An object is the list of its fields in the order in which they stand. -/
namespace SourceAudit

/-- A JSON value. -/
inductive Json where
  | null
  | bool (b : Bool)
  | int (n : Int)
  | decimal (digits : String)
  | str (s : String)
  | arr (items : List Json)
  | obj (fields : List (String × Json))
  deriving Inhabited

namespace Json

/-- A count. -/
def ofNat (n : Nat) : Json := .int n

/-- The value of an optional part, `null` if it is missing. -/
def ofOption (f : α → Json) : Option α → Json
  | some a => f a
  | none => .null

/-- A list of values. -/
def ofList (f : α → Json) (xs : List α) : Json := .arr (xs.map f)

/-- The first field of this name. -/
def field? (name : String) : Json → Option Json
  | .obj fields => fields.lookup name
  | _ => none

end Json
end SourceAudit
