import SourceAudit.Path
import SourceAudit.Text.Blank
import SourceAudit.Text.Lowercase

/-! The languages a source file may be written in. -/
namespace SourceAudit

/-- A language whose files are scanned. -/
inductive Language where
  | javascript
  | typescript
  | python
  | go
  deriving DecidableEq, Inhabited

namespace Language

/-- Every language. -/
def all : List Language := [.javascript, .typescript, .python, .go]

/-- The name used in findings and configuration. -/
def tag : Language → String
  | .javascript => "javascript"
  | .typescript => "typescript"
  | .python => "python"
  | .go => "go"

/-- The language with exactly this tag. -/
def ofTag? (s : String) : Option Language :=
  all.find? (·.tag = s)

/-- The two languages of the ECMAScript family share their constructs. -/
def isEcmascript : Language → Bool
  | .javascript | .typescript => true
  | _ => false

/-- The language of files with this extension, in any letter case. -/
def ofExtension? (ext : String) : Option Language :=
  match Text.lowered ext with
  | "js" | "jsx" | "mjs" | "cjs" => some .javascript
  | "ts" | "tsx" => some .typescript
  | "py" => some .python
  | "go" => some .go
  | _ => none

/-- The language a user names, in any letter case and with blanks around it. -/
def ofName? (name : String) : Option Language :=
  match Text.lowered (Text.trimmed name) with
  | "javascript" | "js" => some .javascript
  | "typescript" | "ts" => some .typescript
  | "python" | "py" => some .python
  | "go" | "golang" => some .go
  | _ => none

/-- The language of a file, by the extension of its path. An extension that is not
UTF-8 belongs to none. -/
def ofPath? (p : Path) : Option Language := do
  let ext ← p.extension?
  let text ← Text.Utf8.decode? ext
  ofExtension? (String.ofList text)

end Language

/-- Whether a file of the ECMAScript family may hold markup among its expressions. -/
inductive Dialect where
  | standard
  | jsx
  deriving DecidableEq, Inhabited

namespace Dialect

/-- A byte with the capitals `A` to `Z` made small. -/
def lowerByte (b : UInt8) : UInt8 :=
  if 65 ≤ b && b ≤ 90 then b + 32 else b

/-- Markup is allowed in files ending in `tsx` or `jsx`, in any letter case. -/
def ofPath (p : Path) : Dialect :=
  match p.extension? with
  | some ext =>
    let small : List UInt8 := ext.map lowerByte
    if small = Text.Utf8.encode ['t', 's', 'x'] || small = Text.Utf8.encode ['j', 's', 'x'] then .jsx
    else .standard
  | none => .standard

end Dialect
end SourceAudit
