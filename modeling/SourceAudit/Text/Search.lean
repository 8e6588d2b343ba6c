import SourceAudit.Text.Utf8

/-! Looking for a text inside another one. -/
namespace SourceAudit.Text

/-- Whether `needle` stands somewhere in a text. -/
def contains (needle : List Char) : List Char → Bool
  | [] => needle.isEmpty
  | c :: r => needle.isPrefixOf (c :: r) || contains needle r

/-- How many bytes stand before the first place where `test` holds of the rest. -/
def firstOffset? (test : List Char → Bool) : List Char → Option Nat
  | [] => if test [] then some 0 else none
  | c :: r => if test (c :: r) then some 0 else (firstOffset? test r).map (· + c.utf8Size)

/-- How many bytes stand before the first occurrence of `needle`. -/
def find? (needle text : List Char) : Option Nat :=
  firstOffset? needle.isPrefixOf text

end SourceAudit.Text
