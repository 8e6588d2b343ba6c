import SourceAudit.Grammar.Basic
import SourceAudit.Text.Utf8

/-! The words, signs and literals of the ECMAScript family.

What a character means depends on where it stands: a slash divides or opens a regular
expression, and text between tags is no code at all. So the tokens are read one by one, each
from the place the parser has reached. -/
namespace SourceAudit.Grammar.Ecma

open Syntax

/-- The place a parser has reached. -/
structure Input where
  /-- The text from here on. -/
  rest : List Char
  /-- The number of bytes before it. -/
  offset : Nat
  /-- The number of bytes of the whole text. -/
  size : Nat
  /-- Where the last token ended. -/
  last : Nat
  /-- Whether a line ended after the last token. -/
  newline : Bool
  /-- Whether the expression stands in brackets, where the end of a line means nothing. -/
  grouped : Bool
  /-- Whether the word `in` may join two operands. -/
  joinsIn : Bool
  /-- Whether a colon may give the result type of a function without a name. -/
  arrowTypes : Bool

/-- A parser of the ECMAScript family. -/
abbrev P := Parser Input

/-! ### Characters -/

def isLineEnd (c : Char) : Bool :=
  c = '\n' || c = '\r' || c.toNat = 0x2028 || c.toNat = 0x2029

/-- Blanks between tokens. -/
def isGap (c : Char) : Bool :=
  c = ' ' || (9 ≤ c.toNat && c.toNat ≤ 13) ||
    (128 ≤ c.toNat &&
      (c.toNat = 0x85 || c.toNat = 0xA0 || c.toNat = 0x1680 ||
        (0x2000 ≤ c.toNat && c.toNat ≤ 0x200B) || c.toNat = 0x2028 || c.toNat = 0x2029 ||
        c.toNat = 0x202F || c.toNat = 0x205F || c.toNat = 0x2060 || c.toNat = 0x3000 ||
        c.toNat = 0xFEFF))

/-- The characters that words are made of. -/
def isWordChar (c : Char) : Bool :=
  c.isAlphanum || c = '_' || c = '$' || c = '\\' || c.toNat = 0x7F ||
    (128 ≤ c.toNat && !isGap c)

/-! ### Gaps -/

/-- What is being skipped. -/
inductive Skipping where
  | blanks
  | lineComment
  /-- The flag tells whether the last character was a star. -/
  | blockComment (star : Bool)

/-- Skips blanks and comments. Tells whether a line ended, then gives the text after the gap
and its position. -/
def gap (what : Skipping) (newline : Bool) : List Char → Nat → Bool × List Char × Nat
  | [], p => (newline, [], p)
  | c :: r, p =>
    match what with
    | .lineComment =>
      if isLineEnd c then gap .blanks true r (p + c.utf8Size)
      else gap .lineComment newline r (p + c.utf8Size)
    | .blockComment star =>
      if star && c = '/' then gap .blanks newline r (p + 1)
      else gap (.blockComment (c = '*')) (newline || isLineEnd c) r (p + c.utf8Size)
    | .blanks =>
      if isGap c then gap .blanks (newline || isLineEnd c) r (p + c.utf8Size)
      else if c = '/' then
        match r with
        | '/' :: s => gap .lineComment newline s (p + 2)
        | '*' :: s => gap (.blockComment false) newline s (p + 2)
        | _ => (newline, c :: r, p)
      else (newline, c :: r, p)

/-- Moves over some characters as they are. -/
def advance (n : Nat) : P Unit := fun i =>
  let p := i.offset + Text.Utf8.byteLength (i.rest.take n)
  some ((), { i with rest := i.rest.drop n, offset := p, last := p, newline := false })

/-- Moves over the gap before the next token. -/
def settle : P Unit := fun i =>
  let (newline, rest, p) := gap .blanks i.newline i.rest i.offset
  some ((), { i with rest, offset := p, newline })

/-! ### Reading -/

/-- The text that is left. -/
def text : P (List Char) := fun i => some (i.rest, i)

def position : P Nat := fun i => some (i.offset, i)

/-- A bound on the number of tokens that are left. -/
def remaining : P Nat := fun i => some (i.size - i.offset, i)

/-- Whether a line ended before the next token. -/
def afterLine : P Bool := fun i => some (i.newline, i)

/-- Whether the end of a line before the next token ends the expression. -/
def lineEndsHere : P Bool := fun i => some (i.newline && !i.grouped, i)

/-- A node from a position up to the last token read. -/
def close (kind : String) (start : Nat) (children : List Tree) : P Tree := fun i =>
  some (named kind start i.last children, i)

/-- Reads some characters as a token. -/
def lexeme (kind : TokenKind) (n : Nat) : P Token := do
  let start ← position
  let word := (← text).take n
  advance n
  settle
  return ⟨kind, String.ofList word, start, start + Text.Utf8.byteLength word⟩

def leaf (kind : String) (t : Token) : Tree := named kind t.start t.stop []

/-- Runs a parser between brackets, or outside of them. -/
def withGrouping {α : Type} (grouped : Bool) (p : P α) : P α := fun i =>
  match p { i with grouped, joinsIn := true, arrowTypes := true } with
  | some (a, j) =>
    some (a, { j with grouped := i.grouped, joinsIn := i.joinsIn, arrowTypes := i.arrowTypes })
  | none => none

/-- Runs a parser where the word `in` joins nothing. -/
def withoutIn {α : Type} (p : P α) : P α := fun i =>
  match p { i with joinsIn := false } with
  | some (a, j) => some (a, { j with joinsIn := i.joinsIn })
  | none => none

/-- Runs a parser where functions without names have no result types. -/
def withoutArrowTypes {α : Type} (p : P α) : P α := fun i =>
  match p { i with arrowTypes := false } with
  | some (a, j) => some (a, { j with arrowTypes := i.arrowTypes })
  | none => none

/-! ### Signs -/

/-- The length of the operator or bracket at the beginning of a text. -/
def signLength : List Char → Nat
  | '>' :: '>' :: '>' :: '=' :: _ => 4
  | '.' :: '.' :: '.' :: _ => 3
  | '=' :: '=' :: '=' :: _ => 3
  | '!' :: '=' :: '=' :: _ => 3
  | '*' :: '*' :: '=' :: _ => 3
  | '<' :: '<' :: '=' :: _ => 3
  | '>' :: '>' :: '=' :: _ => 3
  | '>' :: '>' :: '>' :: _ => 3
  | '&' :: '&' :: '=' :: _ => 3
  | '|' :: '|' :: '=' :: _ => 3
  | '?' :: '?' :: '=' :: _ => 3
  | '?' :: '.' :: c :: _ => if c.isDigit then 1 else 2
  | '?' :: '?' :: _ => 2
  | '=' :: '>' :: _ => 2
  | '+' :: '+' :: _ => 2
  | '-' :: '-' :: _ => 2
  | '*' :: '*' :: _ => 2
  | '&' :: '&' :: _ => 2
  | '|' :: '|' :: _ => 2
  | '<' :: '<' :: _ => 2
  | '>' :: '>' :: _ => 2
  | c :: '=' :: _ =>
    if ['=', '!', '<', '>', '+', '-', '*', '/', '%', '&', '|', '^'].contains c then 2 else 1
  | c :: _ => if isWordChar c then 0 else 1
  | [] => 0

/-- The operator or bracket here, or an empty text. -/
def sign : P String := do
  let t ← text
  return String.ofList (t.take (signLength t))

/-- Reads an operator or a bracket. -/
def punct (s : String) : P Token := do
  Parser.require ((← sign) = s)
  lexeme .punct s.length

/-- Reads one of some operators. -/
def punctOf (list : List String) : P Token := do
  let s ← sign
  Parser.require (list.contains s)
  lexeme .punct s.length

def atPunct (s : String) : P Bool := do return (← sign) = s

/-- Reads one character, even if it is a part of a longer operator. -/
def character (c : Char) : P Token := do
  Parser.require ((← text).head? = some c)
  lexeme .punct 1

/-- Reads one character and stays right behind it. -/
def rawCharacter (c : Char) : P Unit := do
  Parser.require ((← text).head? = some c)
  advance 1

/-! ### Words -/

/-- The length of the word at the beginning of a text; braces may only hold the digits of an
escaped character. -/
def wordLength : List Char → Nat
  | '\\' :: 'u' :: '\x7b' :: r =>
    let digits := (r.takeWhile Char.isAlphanum).length
    4 + digits + ((r.drop (digits + 1)).takeWhile isWordChar).length
  | t => (t.takeWhile isWordChar).length

/-- The word here, or an empty text. -/
def wordHere : P String := do
  let t ← text
  let begins := t.head?.any fun c => isWordChar c && !c.isDigit
  return if begins then String.ofList (t.take (wordLength t)) else ""

/-- Any word. -/
def word : P Token := do
  let w ← wordHere
  Parser.require (w ≠ "")
  lexeme .word w.length

def keyword (s : String) : P Token := do
  Parser.require ((← wordHere) = s)
  lexeme .word s.length

def atKeyword (s : String) : P Bool := do return (← wordHere) = s

/-- One of some words. -/
def keywordOf (list : List String) : P Token := do
  let w ← wordHere
  Parser.require (list.contains w)
  lexeme .word w.length

/-- The words that cannot name a variable. -/
def keywords : List String :=
  ["break", "case", "catch", "class", "const", "continue", "debugger", "default", "delete", "do",
   "else", "export", "extends", "finally", "for", "function", "if", "import", "in", "instanceof",
   "new", "return", "super", "switch", "this", "throw", "try", "typeof", "var", "void", "while",
   "with", "null", "true", "false", "await", "yield", "enum"]

/-- A word that may name a variable. -/
def identifierToken : P Token := do
  Parser.require (!keywords.contains (← wordHere))
  word

/-- The name of a variable. -/
def identifier : P Tree := do
  let t ← identifierToken
  return leaf (if t.text = "undefined" then "undefined" else "identifier") t

/-- The name of a private member. -/
def privateName : P Tree := do
  let t ← text
  match t with
  | '#' :: r =>
    let n := wordLength r
    Parser.require (0 < n)
    return leaf "private_property_identifier" (← lexeme .word (n + 1))
  | _ => failure

/-! ### Literals -/

/-- The number of characters of a string up to and including its closing quote. A line ends
an unclosed string. -/
def stringLength (quote : Char) : List Char → Nat
  | [] => 0
  | '\\' :: '\r' :: '\n' :: r => 3 + stringLength quote r
  | '\\' :: _ :: r => 2 + stringLength quote r
  | c :: r =>
    if c = quote then 1 else if c = '\n' || c = '\r' then 0 else 1 + stringLength quote r

def stringLiteral : P Tree := do
  match ← text with
  | c :: r =>
    Parser.require (c = '"' || c = '\x27')
    return leaf "string" (← lexeme .string (1 + stringLength c r))
  | [] => failure

/-- The length of the number at the beginning of a text. -/
def numberLength (t : List Char) : Nat :=
  let digits (s : List Char) := (s.takeWhile fun c => c.isDigit || c = '_').length
  let radix := match t with
    | '0' :: x :: _ => ['x', 'X', 'o', 'O', 'b', 'B'].contains x
    | _ => false
  if radix then (t.takeWhile fun c => c.isAlphanum || c = '_').length
  else
    let whole := digits t
    let fraction := match t.drop whole with
      | '.' :: r => 1 + digits r
      | _ => 0
    let n := whole + fraction
    let exponent := match t.drop n with
      | e :: r =>
        if e = 'e' || e = 'E' then
          match r with
          | s :: d :: u =>
            if (s = '+' || s = '-') && d.isDigit then 2 + digits (d :: u)
            else if s.isDigit then 1 + digits r
            else 0
          | [d] => if d.isDigit then 2 else 0
          | [] => 0
        else 0
      | [] => 0
    let suffix := match t.drop (n + exponent) with
      | 'n' :: _ => 1
      | _ => 0
    n + exponent + suffix

def numberLiteral : P Tree := do
  match ← text with
  | '.' :: d :: r =>
    Parser.require d.isDigit
    return leaf "number" (← lexeme .integer (numberLength ('.' :: d :: r)))
  | d :: r =>
    Parser.require d.isDigit
    return leaf "number" (← lexeme .integer (numberLength (d :: r)))
  | [] => failure

/-- The number of characters of a regular expression up to and including its closing slash,
if it has one on this line. `inClass` tells whether the characters of a class are listed. -/
def regexLength? (inClass : Bool) : List Char → Option Nat
  | [] => none
  | '\\' :: _ :: r => (regexLength? inClass r).map (2 + ·)
  | c :: r =>
    if isLineEnd c then none
    else if c = '/' && !inClass then some 1
    else if c = '[' then (regexLength? true r).map (1 + ·)
    else if c = ']' then (regexLength? false r).map (1 + ·)
    else (regexLength? inClass r).map (1 + ·)

def regexLiteral : P Tree := do
  match ← text with
  | '/' :: r =>
    match regexLength? false r with
    | some n =>
      let flags := ((r.drop n).takeWhile Char.isAlpha).length
      return leaf "regex" (← lexeme .string (1 + n + flags))
    | none => failure
  | _ => failure

/-! ### The ends of statements -/

/-- The end of a statement: a semicolon, the end of a line, a closing brace or the end of
the file. -/
def semicolon : P Unit := do
  match ← text with
  | [] => pure ()
  | c :: _ =>
    if c = ';' then
      let _ ← lexeme .punct 1
    else
      let line ← afterLine
      Parser.require (line || c = '\x7d')

/-- Comments of old pages: from `<!--` or `-->` to the end of the line. -/
def pageComment : P Unit := do
  let t ← text
  Parser.require ("<!--".toList.isPrefixOf t || "-->".toList.isPrefixOf t)
  advance (t.takeWhile fun c => !isLineEnd c).length
  settle

/-- The place where a text begins; a first line that names an interpreter is skipped. -/
def Input.ofText (text : List Char) : Input :=
  let size := Text.Utf8.byteLength text
  let first := match text with
    | '#' :: '!' :: _ => text.takeWhile fun c => !isLineEnd c
    | _ => []
  let (newline, rest, offset) :=
    gap .blanks true (text.drop first.length) (Text.Utf8.byteLength first)
  { rest, offset, size, newline, last := 0, grouped := false, joinsIn := true, arrowTypes := true }

end SourceAudit.Grammar.Ecma
