/-! UTF-8 text as a list of bytes.

A byte string is read left to right into units: a character where a well-formed
sequence stands, and `none` for each maximal ill-formed part, that is, the longest
run of bytes that could still have begun a character. Strict decoding refuses any
ill-formed part; lossy decoding writes U+FFFD for each of them. -/
namespace SourceAudit.Text.Utf8

/-- Bytes `80` to `BF`, which continue a character. -/
def isContinuation (b : UInt8) : Bool := 0x80 ≤ b && b < 0xC0

/-- The low six bits of a continuation byte. -/
def payload (b : UInt8) : Nat := b.toNat % 64

/-- The bytes that may stand second after `a`, a first byte of a three-byte
character: surrogates and forms longer than needed are left out. -/
def isSecondOfThree (a b : UInt8) : Bool :=
  if a == 0xE0 then 0xA0 ≤ b && b < 0xC0
  else if a == 0xED then 0x80 ≤ b && b < 0xA0
  else isContinuation b

/-- The bytes that may stand second after `a`, a first byte of a four-byte
character: forms longer than needed and values above U+10FFFF are left out. -/
def isSecondOfFour (a b : UInt8) : Bool :=
  if a == 0xF0 then 0x90 ≤ b && b < 0xC0
  else if a == 0xF4 then 0x80 ≤ b && b < 0x90
  else isContinuation b

def twoBytes (a b : UInt8) : Char :=
  Char.ofNat (a.toNat % 32 * 64 + payload b)

def threeBytes (a b c : UInt8) : Char :=
  Char.ofNat (a.toNat % 16 * 4096 + payload b * 64 + payload c)

def fourBytes (a b c d : UInt8) : Char :=
  Char.ofNat (a.toNat % 8 * 262144 + payload b * 4096 + payload c * 64 + payload d)

/-- Characters and maximal ill-formed parts, in order. -/
def units : List UInt8 → List (Option Char)
  | [] => []
  | a :: r =>
    if a < 0x80 then some (Char.ofNat a.toNat) :: units r
    else if a < 0xC2 then none :: units r
    else if a < 0xE0 then
      match r with
      | [] => [none]
      | b :: s => if isContinuation b then some (twoBytes a b) :: units s else none :: units (b :: s)
    else if a < 0xF0 then
      match r with
      | [] => [none]
      | b :: s =>
        if isSecondOfThree a b then
          match s with
          | [] => [none]
          | c :: t =>
            if isContinuation c then some (threeBytes a b c) :: units t else none :: units (c :: t)
        else none :: units (b :: s)
    else if a < 0xF5 then
      match r with
      | [] => [none]
      | b :: s =>
        if isSecondOfFour a b then
          match s with
          | [] => [none]
          | c :: t =>
            if isContinuation c then
              match t with
              | [] => [none]
              | d :: u =>
                if isContinuation d then some (fourBytes a b c d) :: units u
                else none :: units (d :: u)
            else none :: units (c :: t)
        else none :: units (b :: s)
    else none :: units r

/-- The text of well-formed bytes, `none` if any part is ill-formed. -/
def decode? (bytes : List UInt8) : Option (List Char) :=
  (units bytes).mapM id

/-- The text of any bytes, with U+FFFD for each maximal ill-formed part. -/
def decodeLossy (bytes : List UInt8) : List Char :=
  (units bytes).map (·.getD '�')

/-- The bytes of a text. -/
def encode (text : List Char) : List UInt8 :=
  text.flatMap String.utf8EncodeChar

/-- How many bytes a text takes. -/
def byteLength (text : List Char) : Nat :=
  text.foldr (fun c n => c.utf8Size + n) 0

end SourceAudit.Text.Utf8
