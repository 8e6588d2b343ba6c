import SourceAudit.Text.Blank

/-! Excerpts of source text shown with a finding. -/
namespace SourceAudit.Text

/-- The trimmed text; if it is longer than `limit`, its first `limit` characters and
an ellipsis. -/
def excerpt (limit : Nat) (text : List Char) : List Char :=
  let t := trim text
  if t.length ≤ limit then t else t.take limit ++ ['.', '.', '.']

/-- `excerpt` on strings. -/
def snippet (limit : Nat) (s : String) : String :=
  String.ofList (excerpt limit s.toList)

end SourceAudit.Text
