import SourceAudit.Language
import SourceAudit.Lowering.Ecmascript
import SourceAudit.Lowering.Golang
import SourceAudit.Lowering.Python

/-! The lowering of each language. -/
namespace SourceAudit

/-- The lowering for the trees of a language. -/
def Language.lowering : Language → Lowering
  | .javascript | .typescript => Lowering.Ecmascript.lowering
  | .python => Lowering.Python.lowering
  | .go => Lowering.Golang.lowering

/-- The calls and assignments of a tree in a language. -/
def Syntax.Tree.constructs (t : Syntax.Tree) (source : Syntax.Source) (language : Language) :
    Constructs :=
  language.lowering.constructs source t

end SourceAudit
