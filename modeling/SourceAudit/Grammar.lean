import SourceAudit.Grammar.EcmaStatement
import SourceAudit.Grammar.GolangStatement
import SourceAudit.Grammar.PythonStatement
import SourceAudit.Language

/-! Reading a source text of any language. -/
namespace SourceAudit.Grammar

open Syntax

/-- The member of the ECMAScript family that a dialect belongs to; without types, tags are
always expressions. -/
def flavor (language : Language) (dialect : Dialect) : Ecma.Flavor :=
  match language, dialect with
  | .typescript, .standard => .typed
  | .typescript, .jsx => .typedMarkup
  | _, _ => .script

/-- The syntax tree of a source text. -/
def parse (language : Language) (dialect : Dialect) (text : List Char) : Tree :=
  match language with
  | .javascript | .typescript => Ecma.parse (flavor language dialect) text
  | .python => Python.parse text
  | .go => Golang.parse text

/-- Whether a part of the text could not be read. -/
def hasErrors (t : Tree) : Bool := t.nodes.any (·.kind = "ERROR")

end SourceAudit.Grammar
