import SourceAudit.Syntax.Tree
import SourceAudit.Text.Utf8

/-! The source that a syntax tree describes. -/
namespace SourceAudit.Syntax

/-- The bytes of a source file. -/
structure Source where
  bytes : List UInt8

namespace Source

/-- The source of a text. -/
def ofText (text : List Char) : Source := ⟨Text.Utf8.encode text⟩

/-- The bytes from one offset to another. -/
def slice (s : Source) (start stop : Nat) : List UInt8 :=
  (s.bytes.drop start).take (stop - start)

/-- The text that a node spans; empty if its bytes are not UTF-8. -/
def textOf (s : Source) (t : Tree) : String :=
  String.ofList ((Text.Utf8.decode? (s.slice t.start t.stop)).getD [])

/-- The line of an offset, counted from one. -/
def lineOf (s : Source) (offset : Nat) : Nat :=
  (s.bytes.take offset).count 10 + 1

/-- The column of an offset: one more than the bytes since the line began. -/
def columnOf (s : Source) (offset : Nat) : Nat :=
  ((s.bytes.take offset).reverse.takeWhile (· ≠ 10)).length + 1

end Source
end SourceAudit.Syntax
