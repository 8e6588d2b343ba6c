/-! Lines of a text.

A line ends at a line feed, and a carriage return right before the line feed belongs to
the line's end. What follows the last line feed is a line too, unless it is empty. -/
namespace SourceAudit.Text

/-- The pieces between line feeds: one more than there are line feeds. -/
def pieces : List Char → List (List Char)
  | [] => [[]]
  | c :: r =>
    if c = '\n' then [] :: pieces r
    else match pieces r with
      | [] => [[c]]
      | p :: ps => (c :: p) :: ps

/-- A piece without one carriage return at its end. -/
def dropReturn (piece : List Char) : List Char :=
  if piece.getLast? = some '\r' then piece.dropLast else piece

/-- The lines of a text. -/
def lines (text : List Char) : List (List Char) :=
  let ps := pieces text
  ps.dropLast.map dropReturn ++ ps.getLast?.toList.filter (· ≠ [])

/-- The number of lines of a file: one more than its line feeds. -/
def countLines (bytes : List UInt8) : Nat :=
  bytes.count 10 + 1

end SourceAudit.Text
