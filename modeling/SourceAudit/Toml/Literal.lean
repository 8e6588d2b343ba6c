import SourceAudit.Json.Reader
import SourceAudit.Toml.Moment

/-! Strings and numbers in TOML.

Each reader takes a text and gives what stands at its beginning with the text after it. -/
namespace SourceAudit.Toml

/-! ### Characters -/

def isBlank (c : Char) : Bool := c = ' ' || c = '\t'

/-- The characters that may stand in a comment. -/
def isPlain (c : Char) : Bool := c = '\t' || (0x20 ≤ c.toNat && c.toNat ≠ 0x7F)

/-- The text after a line end, if it begins with one. -/
def afterNewline : List Char → Option (List Char)
  | '\n' :: r => some r
  | '\r' :: '\n' :: r => some r
  | _ => none

/-! ### Strings -/

/-- The character with this number, unless it is a surrogate or too large. -/
def charOf? (n : Nat) : Option Char :=
  if n < 0x110000 && !(0xD800 ≤ n && n < 0xE000) then some (Char.ofNat n) else none

/-- The number that hexadecimal digits make. -/
def hexNumber? (ds : List Char) : Option Nat :=
  ds.foldlM (fun n d => (Json.hexValue? d).map (n * 16 + ·)) 0

/-- The character that `n` hexadecimal digits stand for. -/
def hexChar? (n : Nat) (text : List Char) : Option (Char × List Char) := do
  if (text.take n).length = n then
    return (← charOf? (← hexNumber? (text.take n)), text.drop n)
  else none

/-- The character after a backslash. -/
def readEscape : List Char → Option (Char × List Char)
  | 'b' :: r => some ('\x08', r)
  | 't' :: r => some ('\t', r)
  | 'n' :: r => some ('\n', r)
  | 'f' :: r => some ('\x0c', r)
  | 'r' :: r => some ('\r', r)
  | '"' :: r => some ('"', r)
  | '\\' :: r => some ('\\', r)
  | 'u' :: r => hexChar? 4 r
  | 'U' :: r => hexChar? 8 r
  | _ => none

/-- A string after its opening double quote. -/
def readBasic : Nat → List Char → Option (List Char × List Char)
  | 0, _ => none
  | steps + 1, text =>
    match text with
    | [] => none
    | '"' :: r => some ([], r)
    | '\\' :: r => do
      let (c, s) ← readEscape r
      let (cs, t) ← readBasic steps s
      return (c :: cs, t)
    | c :: r =>
      if isPlain c then (readBasic steps r).map fun (cs, t) => (c :: cs, t) else none

/-- A string after its opening single quote. -/
def readRaw : List Char → Option (List Char × List Char)
  | [] => none
  | c :: r =>
    if c = '\x27' then some ([], r)
    else if isPlain c then (readRaw r).map fun (cs, t) => (c :: cs, t)
    else none

/-- The text after the blanks and line ends that a backslash joins to the next line, if a line
ends right after it. -/
def afterJoint (text : List Char) : Option (List Char) :=
  (afterNewline (text.dropWhile isBlank)).bind fun r => some (skip r)
where
  skip : List Char → List Char
    | '\n' :: r => skip r
    | '\r' :: '\n' :: r => skip r
    | c :: r => if isBlank c then skip r else c :: r
    | [] => []

/-- The quotes at the end of a string over several lines: three of them close it, and up to
two more before those belong to it. -/
def closingQuotes (quote : Char) (text : List Char) : Option (List Char × List Char) :=
  let run := (text.takeWhile (· = quote)).length
  if 3 ≤ run then
    let inner := min (run - 3) 2
    some (List.replicate inner quote, text.drop (inner + 3))
  else none

/-- A string over several lines after its opening quotes. Only double quotes give backslashes
a meaning. -/
def readLong (quote : Char) : Nat → List Char → Option (List Char × List Char)
  | 0, _ => none
  | steps + 1, text =>
    match closingQuotes quote text with
    | some found => some found
    | none =>
      match afterNewline text with
      | some r => (readLong quote steps r).map fun (cs, t) => ('\n' :: cs, t)
      | none =>
        match text with
        | [] => none
        | c :: r =>
          if c = '\\' && quote = '"' then
            match afterJoint r with
            | some s => readLong quote steps s
            | none => do
              let (e, s) ← readEscape r
              let (cs, t) ← readLong quote steps s
              return (e :: cs, t)
          else if isPlain c then (readLong quote steps r).map fun (cs, t) => (c :: cs, t)
          else none

/-- A string on one line. -/
def readShort : List Char → Option (List Char × List Char)
  | '"' :: r => readBasic (r.length + 1) r
  | '\x27' :: r => readRaw r
  | _ => none

/-- A string of any kind. A line end right after three quotes is not a part of it. -/
def readString (text : List Char) : Option (List Char × List Char) :=
  match text with
  | a :: b :: c :: r =>
    if (a = '"' || a = '\x27') && b = a && c = a then
      let body := (afterNewline r).getD r
      readLong a (body.length + 1) body
    else readShort text
  | _ => readShort text

/-! ### Numbers -/

/-- Digits that pass a test, single underscores between them: the digits, and the text after
them. -/
def digitRun (test : Char → Bool) : List Char → List Char × List Char
  | [] => ([], [])
  | '_' :: c :: r =>
    if test c then
      let (ds, s) := digitRun test r
      (c :: ds, s)
    else ([], '_' :: c :: r)
  | c :: r =>
    if test c then
      let (ds, s) := digitRun test r
      (c :: ds, s)
    else ([], c :: r)

/-- At least one digit, beginning with a digit. -/
def readDigits (test : Char → Bool) : List Char → Option (List Char × List Char)
  | c :: r => if test c then some (digitRun test (c :: r)) else none
  | [] => none

/-- The sign before a number. -/
def readSign : List Char → List Char × List Char
  | '+' :: r => (['+'], r)
  | '-' :: r => (['-'], r)
  | r => ([], r)

/-- The digits of a whole number: a zero alone, or digits that do not begin with one. -/
def readWhole : List Char → Option (List Char × List Char)
  | '0' :: r => some (['0'], r)
  | text => readDigits Char.isDigit text

/-- A number in some radix. -/
def readRadix (radix : Nat) (text : List Char) : Option (Int × List Char) := do
  let test (c : Char) := (Json.hexValue? c).any (· < radix)
  let (ds, r) ← readDigits test text
  let value := ds.foldl (fun n d => n * radix + (Json.hexValue? d).getD 0) 0
  if value < Word.signedLimit then return (value, r) else none

/-- A whole number of 64 bits. -/
def readInteger : List Char → Option (Int × List Char)
  | '0' :: 'x' :: r => readRadix 16 r
  | '0' :: 'o' :: r => readRadix 8 r
  | '0' :: 'b' :: r => readRadix 2 r
  | text => do
    let (sign, r) := readSign text
    let (ds, s) ← readWhole r
    let n : Int := (Nat.ofDigitChars 10 ds 0 : Nat)
    let value := if sign = ['-'] then -n else n
    let limit : Int := Word.signedLimit
    if -limit ≤ value && value < limit then return (value, s) else none

/-- Whether digits with a decimal exponent are too large for a number of 64 bits. -/
def overflows (ds : List Char) (exponent : Int) : Bool :=
  let digits := ds.dropWhile (· = '0')
  let size : Int := digits.length + exponent
  if digits.isEmpty || size < 300 then false
  else if 320 < size then true
  else
    let n := Nat.ofDigitChars 10 digits 0
    let bound := Nat.pow 2 1024 - Nat.pow 2 970
    if 0 ≤ exponent then bound ≤ n * Nat.pow 10 exponent.toNat
    else bound * Nat.pow 10 (-exponent).toNat ≤ n

/-- The exponent of a number: its text, its value and the text after it. -/
def readExponent : List Char → Option (Int × List Char)
  | e :: r => do
    if e = 'e' || e = 'E' then
      let (sign, s) := readSign r
      let (ds, t) ← readDigits Char.isDigit s
      let n : Int := (Nat.ofDigitChars 10 ds 0 : Nat)
      return (if sign = ['-'] then -n else n, t)
    else none
  | [] => none

/-- Skips a number with a fraction or an exponent, or one that is no number. -/
def skipFloat (text : List Char) : Option (List Char) := do
  let (sign, r) := readSign text
  if "inf".toList.isPrefixOf r || "nan".toList.isPrefixOf r then return r.drop 3
  let (whole, s) ← readWhole r
  let (fraction, exponent, t) ← match readExponent s with
    | some (e, t) => some ([], e, t)
    | none =>
      match s with
      | '.' :: u => do
        let (ds, v) ← readDigits Char.isDigit u
        match readExponent v with
        | some (e, w) => some (ds, e, w)
        | none => some (ds, 0, v)
      | _ => none
  if sign ≠ ['-'] && overflows (whole ++ fraction) (exponent - fraction.length) then none
  else return t

end SourceAudit.Toml
