/-! Dates and times, as they are written in TOML. -/
namespace SourceAudit.Toml

/-- The number that `n` digits at the beginning of a text make, within bounds, and the text
after them. -/
def digitsWithin (n least most : Nat) (text : List Char) : Option (Nat × List Char) :=
  let ds := text.take n
  let value := Nat.ofDigitChars 10 ds 0
  if ds.length = n && ds.all Char.isDigit && least ≤ value && value ≤ most then
    some (value, text.drop n)
  else none

/-- The text after a character, if it begins with it. -/
def afterChar (c : Char) : List Char → Option (List Char)
  | d :: r => if c = d then some r else none
  | [] => none

def isLeapYear (year : Nat) : Bool :=
  year % 4 = 0 && (year % 100 ≠ 0 || year % 400 = 0)

def daysOfMonth (year month : Nat) : Nat :=
  if month = 2 then (if isLeapYear year then 29 else 28)
  else if [4, 6, 9, 11].contains month then 30
  else 31

/-- Skips a date. -/
def skipDate (text : List Char) : Option (List Char) := do
  let (year, r) ← digitsWithin 4 0 9999 text
  let (month, r) ← digitsWithin 2 1 12 (← afterChar '-' r)
  let (_, r) ← digitsWithin 2 1 (daysOfMonth year month) (← afterChar '-' r)
  return r

/-- Skips the fraction of a second, if there is one. -/
def skipFraction (text : List Char) : List Char :=
  match text with
  | '.' :: r => if r.head?.any Char.isDigit then r.dropWhile Char.isDigit else text
  | _ => text

/-- Skips a time of day. -/
def skipTime (text : List Char) : Option (List Char) := do
  let (_, r) ← digitsWithin 2 0 23 text
  let (_, r) ← digitsWithin 2 0 59 (← afterChar ':' r)
  let (_, r) ← digitsWithin 2 0 60 (← afterChar ':' r)
  return skipFraction r

/-- Skips the offset of a time zone. -/
def skipOffset : List Char → Option (List Char)
  | c :: r =>
    if c = 'Z' || c = 'z' then some r
    else if c = '+' || c = '-' then do
      let (_, r) ← digitsWithin 2 0 23 r
      let (_, r) ← digitsWithin 2 0 59 (← afterChar ':' r)
      return r
    else none
  | [] => none

/-- Skips a moment: a date, a time of day, or both with or without an offset. -/
def skipMoment (text : List Char) : Option (List Char) :=
  match skipDate text with
  | none => skipTime text
  | some r =>
    let time? := match r with
      | c :: s => if c = 'T' || c = 't' || c = ' ' then skipTime s else none
      | [] => none
    match time? with
    | none => some r
    | some s => some ((skipOffset s).getD s)

end SourceAudit.Toml
