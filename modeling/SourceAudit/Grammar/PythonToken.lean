import SourceAudit.Grammar.Basic
import SourceAudit.Text.Utf8

/-! The tokens of Python.

A line that is not inside brackets begins with a token that holds its indentation; blank lines
and lines with only a comment have none. A string token holds the tokens of the expressions
that are substituted in it. -/
namespace SourceAudit.Grammar.Python

/-- A token with the bytes it spans. -/
inductive Token where
  /-- A name, a keyword, a number or an operator. -/
  | plain (kind : TokenKind) (text : String) (start stop : Nat)
  /-- A string with its substituted parts. -/
  | string (start stop : Nat) (parts : List Token)
  /-- A substituted part: its tokens, and the parts substituted in its format. -/
  | interpolation (start stop : Nat) (inner spec : List Token)
  /-- The beginning of a line. -/
  | line (indent position : Nat)
  deriving Inhabited

namespace Token

def start : Token → Nat
  | .plain _ _ s _ => s
  | .string s _ _ => s
  | .interpolation s _ _ _ => s
  | .line _ p => p

def stop : Token → Nat
  | .plain _ _ _ e => e
  | .string _ e _ => e
  | .interpolation _ e _ _ => e
  | .line _ p => p

instance : Spanned Token := ⟨start, stop⟩

def isPlain (kind : TokenKind) (text : String) : Token → Bool
  | .plain k t _ _ => k = kind && t = text
  | _ => false

end Token

/-- The operators and brackets, longer ones before their beginnings. -/
def operators : List String :=
  ["**=", "//=", ">>=", "<<=", "...", "!=", "->", ":=", "==", "<=", ">=", "<>", "**", "//", "<<",
   ">>", "+=", "-=", "*=", "/=", "%=", "&=", "|=", "^=", "@=", "+", "-", "*", "/", "%", "&", "|",
   "^", "~", "<", ">", "=", "(", ")", "[", "]", "\x7b", "\x7d", ",", ":", ".", ";", "@", "!"]

def isLetter (c : Char) : Bool := c.isAlpha || c = '_' || 128 ≤ c.toNat

def isWordChar (c : Char) : Bool := isLetter c || c.isDigit

/-- Blanks inside a line. -/
def isGap (c : Char) : Bool :=
  c = ' ' || (9 ≤ c.toNat && c.toNat ≤ 13) || c.toNat = 0xFEFF || c.toNat = 0x2060 ||
    c.toNat = 0x200B

/-- The indentation of the next line that is not blank, the text from there on and its
position. A tab counts for eight blanks; `comment` tells whether a comment is being skipped. -/
def indentation (comment : Bool) : List Char → Nat → Nat → Nat × List Char × Nat
  | [], p, _ => (0, [], p)
  | c :: r, p, n =>
    if c = '\n' then indentation false r (p + 1) 0
    else if comment then indentation true r (p + c.utf8Size) n
    else if c = ' ' then indentation false r (p + 1) (n + 1)
    else if c = '\t' then indentation false r (p + 1) (n + 8)
    else if c = '\r' || c = '\x0c' then indentation false r (p + 1) 0
    else if c = '#' then indentation true r (p + 1) n
    else if c.toNat = 0xFEFF then indentation false r (p + 3) n
    else (n, c :: r, p)

/-- Digits, with underscores among them. -/
def digitRun (text : List Char) : Nat := (text.takeWhile fun c => c.isDigit || c = '_').length

/-- The length and the kind of the number at the beginning of a text. -/
def number (text : List Char) : Nat × TokenKind :=
  let radix := match text with
    | '0' :: x :: _ => ['x', 'X', 'o', 'O', 'b', 'B'].contains x
    | _ => false
  if radix then ((text.takeWhile fun c => c.isAlphanum || c = '_').length, .integer)
  else
    let whole := digitRun text
    let (fraction, isFloat) := match text.drop whole with
      | '.' :: r => (1 + digitRun r, true)
      | _ => (0, false)
    let (exponent, hasExponent) := match text.drop (whole + fraction) with
      | e :: r =>
        if e = 'e' || e = 'E' then
          match r with
          | s :: d :: _ =>
            if (s = '+' || s = '-') && d.isDigit then (2 + digitRun (r.drop 1), true)
            else if s.isDigit then (1 + digitRun r, true)
            else (0, false)
          | [d] => if d.isDigit then (2, true) else (0, false)
          | [] => (0, false)
        else (0, false)
      | [] => (0, false)
    let n := whole + fraction + exponent
    let suffix := match text.drop n with
      | c :: _ => if ['j', 'J', 'l', 'L'].contains c then 1 else 0
      | [] => 0
    (n + suffix, if isFloat || hasExponent then .float else .integer)

/-- The letters before the quote of a string, if a string begins here. -/
def stringMarks? (text : List Char) : Option (List Char) :=
  let marks := text.takeWhile fun c =>
    ['r', 'R', 'b', 'B', 'u', 'U', 'f', 'F', 't', 'T'].contains c
  match text.drop marks.length with
  | q :: _ => if (q = '"' || q = '\x27' || q = '\x60') && marks.length ≤ 3 then some marks else none
  | [] => none

/-- How a string is delimited and what stands in it. -/
structure StringStyle where
  quote : Char
  triple : Bool
  raw : Bool
  format : Bool

/-- The text after the closing quotes of a string, if it begins with them. -/
def StringStyle.closing? (style : StringStyle) (text : List Char) : Option (Nat × List Char) :=
  if style.triple then
    match text with
    | a :: b :: c :: r =>
      if a = style.quote && b = style.quote && c = style.quote then some (3, r) else none
    | _ => none
  else
    match text with
    | a :: r => if a = style.quote then some (1, r) else none
    | [] => none

mutual
/-- Reads tokens. `depth` counts the open brackets; inside a substituted part, reading stops
where the expression ends. Gives the tokens, the text after them and its position. -/
def scan : Nat → Bool → Nat → List Char → Nat → List Token → List Token × List Char × Nat
  | 0, _, _, text, p, found => (found.reverse, text, p)
  | steps + 1, inside, depth, text, p, found =>
    match text with
    | [] => (found.reverse, [], p)
    | c :: r =>
      if c = '\n' then
        if inside || 0 < depth then scan steps inside depth r (p + 1) found
        else
          let (indent, rest, q) := indentation false r (p + 1) 0
          scan steps inside depth rest q (.line indent q :: found)
      else if isGap c then scan steps inside depth r (p + c.utf8Size) found
      else if c = '#' then
        let comment := text.takeWhile (· ≠ '\n')
        scan steps inside depth (text.drop comment.length) (p + Text.Utf8.byteLength comment) found
      else if c = '\\' then scan steps inside depth (r.dropWhile isGap) (p + 1 +
        Text.Utf8.byteLength (r.takeWhile isGap)) found
      else if inside && depth = 0 &&
          (c = '\x7d' || (c = ':') || (c = '!' && r.head? ≠ some '=')) then
        (found.reverse, text, p)
      else match stringMarks? text with
        | some marks =>
          let n := marks.length
          let opening := text.drop n
          let quote := opening.headD '"'
          let triple := opening.take 3 = [quote, quote, quote]
          let style : StringStyle :=
            { quote, triple
              raw := marks.any fun m => m = 'r' || m = 'R'
              format := marks.any fun m => ['f', 'F', 't', 'T'].contains m }
          let width := if triple then 3 else 1
          let (parts, rest, q) :=
            stringBody steps style (opening.drop width) (p + n + width) []
          scan steps inside depth rest q (.string p q parts :: found)
        | none =>
          let (n, kind) :=
            if isLetter c then ((text.takeWhile isWordChar).length, TokenKind.word)
            else if c.isDigit || (c = '.' && r.head?.any Char.isDigit) then number text
            else match operators.find? fun op => op.toList.isPrefixOf text with
              | some op => (op.toList.length, .punct)
              | none => (1, .punct)
          let word := text.take n
          let q := p + Text.Utf8.byteLength word
          let next :=
            if c = '(' || c = '[' || c = '\x7b' then depth + 1
            else if c = ')' || c = ']' || c = '\x7d' then depth - 1
            else depth
          scan steps inside next (text.drop n) q
            (.plain kind (String.ofList word) p q :: found)

/-- Reads a string after its opening quotes: the substituted parts, the text after the closing
quotes and its position. -/
def stringBody : Nat → StringStyle → List Char → Nat → List Token → List Token × List Char × Nat
  | 0, _, text, p, parts => (parts.reverse, text, p)
  | steps + 1, style, text, p, parts =>
    match style.closing? text with
    | some (width, rest) => (parts.reverse, rest, p + width)
    | none =>
      match text with
      | [] => (parts.reverse, [], p)
      | '\\' :: c :: r => stringBody steps style r (p + 1 + c.utf8Size) parts
      | c :: r =>
        if style.format && c = '\x7b' then
          match r with
          | '\x7b' :: s => stringBody steps style s (p + 2) parts
          | _ =>
            let (part, rest, q) := interpolation steps r p
            stringBody steps style rest q (part :: parts)
        else if c = '\n' && !style.triple then (parts.reverse, text, p)
        else stringBody steps style r (p + c.utf8Size) parts

/-- Reads a substituted part after its opening brace, which stands at `p`. -/
def interpolation : Nat → List Char → Nat → Token × List Char × Nat
  | 0, text, p => (.interpolation p (p + 1) [] [], text, p + 1)
  | steps + 1, text, p =>
    let (inner, rest, q) := scan steps true 0 text (p + 1) []
    let (rest, q) := match rest with
      | '!' :: r =>
        let conversion := r.takeWhile isWordChar
        (r.drop conversion.length, q + 1 + Text.Utf8.byteLength conversion)
      | _ => (rest, q)
    let (spec, rest, q) := match rest with
      | ':' :: r => formatSpec steps r (q + 1) []
      | _ => ([], rest, q)
    match rest with
    | '\x7d' :: r => (.interpolation p (q + 1) inner spec, r, q + 1)
    | _ => (.interpolation p q inner spec, rest, q)

/-- Reads a format: the parts substituted in it, the text after it and its position. -/
def formatSpec : Nat → List Char → Nat → List Token → List Token × List Char × Nat
  | 0, text, p, parts => (parts.reverse, text, p)
  | steps + 1, text, p, parts =>
    match text with
    | [] => (parts.reverse, [], p)
    | c :: r =>
      if c = '\x7b' then
        let (part, rest, q) := interpolation steps r p
        formatSpec steps rest q (part :: parts)
      else if c = '\x7d' || c = '\n' then (parts.reverse, text, p)
      else formatSpec steps r (p + c.utf8Size) parts
end

/-- The tokens of a source text. -/
def tokens (text : List Char) : List Token :=
  let (indent, rest, p) := indentation false text 0 0
  (scan (4 * text.length + 16) false 0 rest p [.line indent p]).1

end SourceAudit.Grammar.Python
