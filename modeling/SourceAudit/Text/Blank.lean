/-! Blank characters: the Unicode property `White_Space`. -/
namespace SourceAudit.Text

/-- The characters with the property `White_Space`. -/
def isBlank (c : Char) : Bool :=
  let n := c.toNat
  (9 ≤ n && n ≤ 13) || n == 0x20 || n == 0x85 || n == 0xA0 || n == 0x1680 ||
    (0x2000 ≤ n && n ≤ 0x200A) || n == 0x2028 || n == 0x2029 || n == 0x202F || n == 0x205F ||
    n == 0x3000

/-- A text without the blanks it ends in. -/
def trimRight (text : List Char) : List Char :=
  (text.reverse.dropWhile isBlank).reverse

/-- A text without the blanks it begins and ends with. -/
def trim (text : List Char) : List Char :=
  trimRight (text.dropWhile isBlank)

/-- A text without any blank. -/
def squeeze (text : List Char) : List Char :=
  text.filter (!isBlank ·)

/-- A string without the blanks it begins and ends with. -/
def trimmed (s : String) : String :=
  String.ofList (trim s.toList)

/-- A string without any blank. -/
def squeezed (s : String) : String :=
  String.ofList (squeeze s.toList)

end SourceAudit.Text
