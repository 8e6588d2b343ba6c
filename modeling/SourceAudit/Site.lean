import SourceAudit.Syntax.Source
import SourceAudit.Text.Snippet

/-! Where in a file something was found. -/
namespace SourceAudit

/-- A position, with an excerpt of what stands there. -/
structure Site where
  /-- Counted from one. -/
  line : Nat
  /-- Counted from one, in bytes. -/
  column : Nat
  snippet : String
  deriving DecidableEq, Inhabited

namespace Site

/-- The greatest number of characters kept of an excerpt. -/
def snippetLimit : Nat := 120

/-- The site of a text. -/
def ofText (line column : Nat) (text : String) : Site :=
  ⟨line, column, Text.snippet snippetLimit text⟩

/-- The site of a node. -/
def ofTree (source : Syntax.Source) (t : Syntax.Tree) : Site :=
  ofText (source.lineOf t.start) (source.columnOf t.start) (source.textOf t)

end Site
end SourceAudit
