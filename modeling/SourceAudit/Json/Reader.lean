import SourceAudit.Json.Basic
import SourceAudit.Word

/-! Reading JSON text.

Each reader takes a text and gives the value that stands at its beginning with the text
after it. Values nest, so the reader of values counts down from a number of steps; the
length of the text is always enough. -/
namespace SourceAudit.Json

/-- The four blanks of JSON. -/
def isSpace (c : Char) : Bool := c = ' ' || c = '\n' || c = '\r' || c = '\t'

def skipSpace (text : List Char) : List Char := text.dropWhile isSpace

/-- The value of a hexadecimal digit of either case. -/
def hexValue? (c : Char) : Option Nat :=
  if c.isDigit then some (c.toNat - 48)
  else if 'a' ≤ c && c ≤ 'f' then some (c.toNat - 87)
  else if 'A' ≤ c && c ≤ 'F' then some (c.toNat - 55)
  else none

/-- The value of four hexadecimal digits. -/
def hexValue4? (a b c d : Char) : Option Nat := do
  return ((← hexValue? a) * 16 + (← hexValue? b)) * 256 + ((← hexValue? c) * 16 + (← hexValue? d))

def isHighSurrogate (n : Nat) : Bool := 0xD800 ≤ n && n < 0xDC00

def isLowSurrogate (n : Nat) : Bool := 0xDC00 ≤ n && n < 0xE000

/-- What a backslash and this character stand for. -/
def escaped? : Char → Option Char
  | '"' => some '"'
  | '\\' => some '\\'
  | '/' => some '/'
  | 'b' => some '\x08'
  | 'f' => some '\x0c'
  | 'n' => some '\n'
  | 'r' => some '\r'
  | 't' => some '\t'
  | _ => none

/-- The rest of a string after its opening quote: its characters, then the text after the
closing quote. -/
def readString : List Char → Option (List Char × List Char)
  | [] => none
  | '"' :: r => some ([], r)
  | '\\' :: 'u' :: a :: b :: c :: d :: r =>
    match hexValue4? a b c d with
    | none => none
    | some n =>
      if isLowSurrogate n then none
      else if isHighSurrogate n then
        match r with
        | '\\' :: 'u' :: e :: f :: g :: h :: s =>
          match hexValue4? e f g h with
          | none => none
          | some m =>
            if isLowSurrogate m then
              (readString s).map fun (cs, t) =>
                (Char.ofNat (0x10000 + (n - 0xD800) * 0x400 + (m - 0xDC00)) :: cs, t)
            else none
        | _ => none
      else (readString r).map fun (cs, t) => (Char.ofNat n :: cs, t)
  | '\\' :: c :: r =>
    match escaped? c with
    | none => none
    | some e => (readString r).map fun (cs, t) => (e :: cs, t)
  | c :: r =>
    if c.toNat < 0x20 || c = '\\' then none
    else (readString r).map fun (cs, t) => (c :: cs, t)

/-- The digits at the beginning of a text. -/
def digits (text : List Char) : List Char × List Char := text.span Char.isDigit

/-- The fraction of a number, if the text begins with one; `none` for a point without digits. -/
def readFraction : List Char → Option (List Char × List Char)
  | '.' :: r =>
    match digits r with
    | ([], _) => none
    | (ds, s) => some ('.' :: ds, s)
  | r => some ([], r)

/-- The exponent of a number, if the text begins with one; `none` for a mark without digits. -/
def readExponent : List Char → Option (List Char × List Char)
  | c :: r =>
    if c = 'e' || c = 'E' then
      let (sign, s) := match r with
        | '+' :: s => (['+'], s)
        | '-' :: s => (['-'], s)
        | s => ([], s)
      match digits s with
      | ([], _) => none
      | (ds, t) => some (c :: sign ++ ds, t)
    else some ([], c :: r)
  | [] => some ([], [])

/-- An integer of 64 bits, or else the digits as written. -/
def ofInteger (negative : Bool) (ds : List Char) : Json :=
  let n := (Nat.ofDigitChars 10 ds 0 : Nat)
  if negative then
    if 0 < n && n ≤ Word.signedLimit then .int (-n) else .decimal (String.ofList ('-' :: ds))
  else if n < Word.unsignedLimit then .int n else .decimal (String.ofList ds)

/-- A number without its sign: digits without a leading zero, then fraction and exponent. -/
def readNumber (negative : Bool) (text : List Char) : Option (Json × List Char) :=
  match digits text with
  | ([], _) => none
  | ('0' :: _ :: _, _) => none
  | (ds, r) => do
    let (fraction, s) ← readFraction r
    let (exponent, t) ← readExponent s
    if fraction.isEmpty && exponent.isEmpty then return (ofInteger negative ds, t)
    let sign := if negative then ['-'] else []
    return (.decimal (String.ofList (sign ++ ds ++ fraction ++ exponent)), t)

/-- The text after `word`, if it begins with it. -/
def skipWord (word text : List Char) : Option (List Char) :=
  if word.isPrefixOf text then some (text.drop word.length) else none

mutual
/-- The value at the beginning of a text. -/
def readValue : Nat → List Char → Option (Json × List Char)
  | 0, _ => none
  | steps + 1, text =>
    match skipSpace text with
    | '"' :: r => (readString r).map fun (cs, s) => (.str (String.ofList cs), s)
    | '[' :: r =>
      match skipSpace r with
      | ']' :: s => some (.arr [], s)
      | _ => do
        let (x, s) ← readValue steps r
        let (xs, t) ← readItems steps s
        return (.arr (x :: xs), t)
    | '\x7b' :: r =>
      match skipSpace r with
      | '\x7d' :: s => some (.obj [], s)
      | _ => do
        let (f, s) ← readField steps r
        let (fs, t) ← readFields steps s
        return (.obj (f :: fs), t)
    | '-' :: r => readNumber true r
    | 't' :: r => (skipWord ['r', 'u', 'e'] r).map fun s => (.bool true, s)
    | 'f' :: r => (skipWord ['a', 'l', 's', 'e'] r).map fun s => (.bool false, s)
    | 'n' :: r => (skipWord ['u', 'l', 'l'] r).map fun s => (.null, s)
    | r => readNumber false r

/-- The items after the first one, up to the closing bracket. -/
def readItems : Nat → List Char → Option (List Json × List Char)
  | 0, _ => none
  | steps + 1, text =>
    match skipSpace text with
    | ']' :: r => some ([], r)
    | ',' :: r => do
      let (x, s) ← readValue steps r
      let (xs, t) ← readItems steps s
      return (x :: xs, t)
    | _ => none

/-- A name, a colon and a value. -/
def readField : Nat → List Char → Option ((String × Json) × List Char)
  | 0, _ => none
  | steps + 1, text =>
    match skipSpace text with
    | '"' :: r => do
      let (k, s) ← readString r
      match skipSpace s with
      | ':' :: t => (readValue steps t).map fun (v, u) => ((String.ofList k, v), u)
      | _ => none
    | _ => none

/-- The fields after the first one, up to the closing brace. -/
def readFields : Nat → List Char → Option (List (String × Json) × List Char)
  | 0, _ => none
  | steps + 1, text =>
    match skipSpace text with
    | '\x7d' :: r => some ([], r)
    | ',' :: r => do
      let (f, s) ← readField steps r
      let (fs, t) ← readFields steps s
      return (f :: fs, t)
    | _ => none
end

/-- The value that a whole text stands for. -/
def ofText? (text : List Char) : Option Json := do
  let (j, r) ← readValue (2 * text.length + 2) text
  if (skipSpace r).isEmpty then return j else none

end SourceAudit.Json
