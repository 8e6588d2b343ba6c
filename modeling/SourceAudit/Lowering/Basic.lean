import SourceAudit.Construct
import SourceAudit.Text.Blank

/-! What the lowerings of all languages share.

A lowering reads the nodes of one grammar: it classifies expressions and tells which nodes
are calls and which are assignments. -/
namespace SourceAudit

open Syntax

/-- How the nodes of a grammar become constructs. -/
structure Lowering where
  /-- The class of an expression. -/
  value : Source → Tree → Value
  /-- The call that a node is, if it is one. -/
  call? : Source → Tree → Option Call
  /-- The assignment that a node is, if it is one. -/
  assignment? : Source → Tree → Option Assignment

namespace Lowering

/-- The constructs found so far, with the call and the assignment that a node is. -/
def record (l : Lowering) (source : Source) (found : Constructs) (t : Tree) : Constructs :=
  { calls := found.calls ++ (l.call? source t).toList
    assignments := found.assignments ++ (l.assignment? source t).toList }

/-- Every call and every assignment among the nodes of a tree, found on one walk. -/
def constructs (l : Lowering) (source : Source) (t : Tree) : Constructs :=
  Tree.walk (l.record source) ⟨[], []⟩ #[t]

/-- The text of a callee without blanks. -/
def calleeText (source : Source) (t : Tree) : String :=
  Text.squeezed (source.textOf t)

/-- The quotes that may stand around a key. -/
def isQuote (c : Char) : Bool := c = '"' || c = '\x27' || c = '\x60'

/-- The trimmed text without one pair of equal quotes around it. -/
def unquote (text : List Char) : List Char :=
  let t := Text.trim text
  match t.head?, t.getLast? with
  | some a, some b => if isQuote a && a = b && 2 ≤ t.length then (t.drop 1).dropLast else t
  | _, _ => t

/-- `unquote` of the text of a node. -/
def keyText (source : Source) (t : Tree) : String :=
  String.ofList (unquote (source.textOf t).toList)

end Lowering
end SourceAudit
