import SourceAudit.Text.Utf8

/-! Paths: byte strings whose components stand between slashes. -/
namespace SourceAudit

/-- A path, as the bytes it is written in. -/
structure Path where
  bytes : List UInt8
  deriving DecidableEq, Inhabited

namespace Path

def slash : UInt8 := 47

def dot : UInt8 := 46

/-- The path that a string spells. -/
def ofString (s : String) : Path := ⟨Text.Utf8.encode s.toList⟩

/-- The text of a path, with U+FFFD for what is not UTF-8. -/
def text (p : Path) : List Char := Text.Utf8.decodeLossy p.bytes

/-- The text of a path as a string. -/
def display (p : Path) : String := String.ofList p.text

/-- The components between slashes; empty ones and single dots name nothing. -/
def components (p : Path) : List (List UInt8) :=
  (p.bytes.splitOn slash).filter fun c => c ≠ [] && c ≠ [dot]

/-- The last component, unless it leads upwards. -/
def fileName? (p : Path) : Option (List UInt8) :=
  p.components.getLast?.filter (· ≠ [dot, dot])

/-- The bytes after the last dot of a name, if something stands before that dot. -/
def extensionOf? (name : List UInt8) : Option (List UInt8) :=
  let tail := (name.reverse.takeWhile (· ≠ dot)).reverse
  if tail.length + 1 < name.length then some tail else none

/-- The extension of the file name. -/
def extension? (p : Path) : Option (List UInt8) :=
  p.fileName?.bind extensionOf?

def isAbsolute (p : Path) : Bool := p.bytes.head? = some slash

/-- The path of an entry of the directory `p`. -/
def join (p : Path) (name : List UInt8) : Path :=
  if p.bytes = [] || p.bytes.getLast? = some slash then ⟨p.bytes ++ name⟩
  else ⟨p.bytes ++ slash :: name⟩

end Path
end SourceAudit
