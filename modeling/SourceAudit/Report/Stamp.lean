import SourceAudit.Json.Printer
import SourceAudit.Report

/-! The stamp of a scan: a random id and the time at which the scan ended. -/
namespace SourceAudit.Stamp

/-- A number in decimal digits, with zeros before it up to a width. -/
def digits (width n : Nat) : List Char :=
  let ds := Nat.toDigits 10 n
  List.replicate (width - ds.length) '0' ++ ds

/-- A date of the civil calendar. -/
structure Date where
  year : Nat
  month : Nat
  day : Nat
  deriving DecidableEq, Inhabited

/-- The date some days after 1 January 1970. Years are counted from March on, so that the day
that is added in a leap year is the last one. -/
def Date.ofDays (days : Nat) : Date :=
  let shifted := days + 719468
  let era := shifted / 146097
  let dayOfEra := shifted % 146097
  let yearOfEra := (dayOfEra - dayOfEra / 1460 + dayOfEra / 36524 - dayOfEra / 146096) / 365
  let dayOfYear := dayOfEra - (365 * yearOfEra + yearOfEra / 4 - yearOfEra / 100)
  let fromMarch := (5 * dayOfYear + 2) / 153
  let month := if fromMarch < 10 then fromMarch + 3 else fromMarch - 9
  { year := era * 400 + yearOfEra + (if month ≤ 2 then 1 else 0)
    month
    day := dayOfYear - (153 * fromMarch + 2) / 5 + 1 }

/-- The time some seconds after the beginning of 1970, in universal time. -/
def timeText (seconds : Nat) : String :=
  let date := Date.ofDays (seconds / 86400)
  let clock := seconds % 86400
  String.ofList (digits 4 date.year ++ '-' :: digits 2 date.month ++ '-' :: digits 2 date.day ++
    'T' :: digits 2 (clock / 3600) ++ ':' :: digits 2 (clock / 60 % 60) ++
    ':' :: digits 2 (clock % 60) ++ ['Z'])

/-- The two hexadecimal digits of a byte. -/
def hexPair (b : UInt8) : List Char := [Json.hexDigit (b.toNat / 16), Json.hexDigit b.toNat]

/-- The bytes of an id with its version and its variant in their places. -/
def markBytes (bytes : List UInt8) : List UInt8 :=
  bytes.mapIdx fun i b =>
    if i = 6 then (b &&& 0x0f) ||| 0x40
    else if i = 8 then (b &&& 0x3f) ||| 0x80
    else b

/-- A random id of sixteen bytes, in five groups. -/
def idText (bytes : List UInt8) : String :=
  let marked := (markBytes bytes).flatMap hexPair
  let group (start length : Nat) : List Char := (marked.drop start).take length
  String.ofList (group 0 8 ++ '-' :: group 8 4 ++ '-' :: group 12 4 ++ '-' :: group 16 4 ++
    '-' :: group 20 12)

/-- The stamp of a scan. -/
def of (bytes : List UInt8) (seconds : Nat) : Stamp :=
  { scanId := idText bytes, timestamp := timeText seconds }

end SourceAudit.Stamp
