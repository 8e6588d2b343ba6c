import SourceAudit.Json.Basic

/-! JSON text.

`compact` writes a value on one line without blanks; `pretty` gives each item and each
field a line of its own, indented by two blanks a level, and writes an empty list or
object as its two brackets. In a string only the quote, the backslash and the control
characters below U+0020 are escaped. -/
namespace SourceAudit.Json

/-- A lowercase hexadecimal digit. -/
def hexDigit (n : Nat) : Char := Nat.digitChar (n % 16)

/-- How a character stands inside a string. -/
def escapeChar (c : Char) : List Char :=
  if c = '"' then ['\\', '"']
  else if c = '\\' then ['\\', '\\']
  else if c = '\n' then ['\\', 'n']
  else if c = '\r' then ['\\', 'r']
  else if c = '\t' then ['\\', 't']
  else if c = '\x08' then ['\\', 'b']
  else if c = '\x0c' then ['\\', 'f']
  else if c.toNat < 0x20 then ['\\', 'u', '0', '0', hexDigit (c.toNat / 16), hexDigit c.toNat]
  else [c]

/-- A string in quotes. -/
def quote (s : String) : List Char :=
  '"' :: s.toList.flatMap escapeChar ++ ['"']

/-- The decimal digits of an integer. -/
def intText : Int → List Char
  | .ofNat n => Nat.toDigits 10 n
  | .negSucc n => '-' :: Nat.toDigits 10 (n + 1)

/-- A value that has no parts. -/
def boolText (b : Bool) : List Char :=
  if b then ['t', 'r', 'u', 'e'] else ['f', 'a', 'l', 's', 'e']

def nullText : List Char := ['n', 'u', 'l', 'l']

mutual
/-- A value on one line. -/
def compact : Json → List Char
  | .null => nullText
  | .bool b => boolText b
  | .int n => intText n
  | .decimal digits => digits.toList
  | .str s => quote s
  | .arr [] => ['[', ']']
  | .arr (x :: xs) => '[' :: compact x ++ compactItems xs ++ [']']
  | .obj [] => ['\x7b', '\x7d']
  | .obj ((k, v) :: fs) => '\x7b' :: quote k ++ ':' :: compact v ++ compactFields fs ++ ['\x7d']
termination_by structural j => j

def compactItems : List Json → List Char
  | [] => []
  | x :: xs => ',' :: compact x ++ compactItems xs
termination_by structural xs => xs

def compactFields : List (String × Json) → List Char
  | [] => []
  | (k, v) :: fs => ',' :: quote k ++ ':' :: compact v ++ compactFields fs
termination_by structural fs => fs
end

/-- A line break and the indentation of a level. -/
def lineBreak (level : Nat) : List Char :=
  '\n' :: List.replicate (2 * level) ' '

mutual
/-- A value over several lines, at a level of indentation. -/
def pretty (level : Nat) : Json → List Char
  | .null => nullText
  | .bool b => boolText b
  | .int n => intText n
  | .decimal digits => digits.toList
  | .str s => quote s
  | .arr [] => ['[', ']']
  | .arr (x :: xs) =>
    '[' :: lineBreak (level + 1) ++ pretty (level + 1) x ++ prettyItems (level + 1) xs ++
      lineBreak level ++ [']']
  | .obj [] => ['\x7b', '\x7d']
  | .obj ((k, v) :: fs) =>
    '\x7b' :: lineBreak (level + 1) ++ quote k ++ ':' :: ' ' :: pretty (level + 1) v ++
      prettyFields (level + 1) fs ++ lineBreak level ++ ['\x7d']
termination_by structural j => j

def prettyItems (level : Nat) : List Json → List Char
  | [] => []
  | x :: xs => ',' :: lineBreak level ++ pretty level x ++ prettyItems level xs
termination_by structural xs => xs

def prettyFields (level : Nat) : List (String × Json) → List Char
  | [] => []
  | (k, v) :: fs =>
    ',' :: lineBreak level ++ quote k ++ ':' :: ' ' :: pretty level v ++ prettyFields level fs
termination_by structural fs => fs
end

/-- A value as one line of text. -/
def toLine (j : Json) : String := String.ofList (compact j)

/-- A value as indented text. -/
def toText (j : Json) : String := String.ofList (pretty 0 j)

end SourceAudit.Json
