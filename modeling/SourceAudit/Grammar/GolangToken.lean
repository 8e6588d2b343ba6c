import SourceAudit.Grammar.Basic
import SourceAudit.Text.Utf8

/-! The tokens of Go.

A line that ends in a name, a literal, one of the words `break`, `continue`, `fallthrough`
and `return`, one of the operators `++` and `--`, or a closing bracket ends a statement. -/
namespace SourceAudit.Grammar.Golang

/-- The words that are not names. -/
def keywords : List String :=
  ["break", "case", "chan", "const", "continue", "default", "defer", "else", "fallthrough", "for",
   "func", "go", "goto", "if", "import", "interface", "map", "package", "range", "return",
   "select", "struct", "switch", "type", "var"]

/-- The operators and brackets, longer ones before their beginnings. -/
def operators : List String :=
  ["<<=", ">>=", "&^=", "...", "&&", "||", "<-", "++", "--", "==", "!=", "<=", ">=", ":=", "+=",
   "-=", "*=", "/=", "%=", "&=", "|=", "^=", "<<", ">>", "&^", "+", "-", "*", "/", "%", "&", "|",
   "^", "<", ">", "=", "!", "(", ")", "[", "]", "\x7b", "\x7d", ",", ";", ".", ":", "~"]

def isLetter (c : Char) : Bool := c.isAlpha || c = '_' || 128 ≤ c.toNat

def isWordChar (c : Char) : Bool := isLetter c || c.isDigit

/-- A line that ends in this token ends a statement. -/
def endsStatement (t : Token) : Bool :=
  match t.kind with
  | .word =>
    !keywords.contains t.text ||
      ["break", "continue", "fallthrough", "return"].contains t.text
  | .punct => ["++", "--", ")", "]", "\x7d"].contains t.text
  | .newline => false
  | _ => true

/-- The characters of a text up to the quote that ends it, both counted; `none` if the text or
its line ends before. -/
def quoted (quote : Char) (escapes multiline : Bool) : List Char → Nat → Option Nat
  | [], _ => none
  | c :: r, n =>
    if c = quote then some (n + 1)
    else if c = '\\' && escapes then
      match r with
      | _ :: s => quoted quote escapes multiline s (n + 2)
      | [] => none
    else if c = '\n' && !multiline then none
    else quoted quote escapes multiline r (n + 1)

/-- The characters of a comment up to its end. -/
def blockComment : List Char → Nat → Nat
  | '*' :: '/' :: _, n => n + 2
  | _ :: r, n => blockComment r (n + 1)
  | [], n => n

/-- The number of characters of a number, with fraction, exponent and suffix. -/
def numberLength (text : List Char) : Nat :=
  let hexadecimal := match text with
    | '0' :: x :: _ => x = 'x' || x = 'X'
    | _ => false
  go hexadecimal text 0
where
  go (hexadecimal : Bool) : List Char → Nat → Nat
    | [], n => n
    | c :: r, n =>
      let exponent := if hexadecimal then c = 'p' || c = 'P' else c = 'e' || c = 'E'
      if exponent then
        match r with
        | d :: s => if d = '+' || d = '-' then go hexadecimal s (n + 2) else go hexadecimal (d :: s) (n + 1)
        | [] => n + 1
      else if c.isAlphanum || c = '_' || c = '.' then go hexadecimal r (n + 1)
      else n

/-- The kind of a number. -/
def numberKind (digits : List Char) : TokenKind :=
  let hexadecimal := match digits with
    | '0' :: x :: _ => x = 'x' || x = 'X'
    | _ => false
  if digits.getLast? = some 'i' then .imaginary
  else if digits.contains '.' || digits.any (fun c => c = 'p' || c = 'P') ||
      (!hexadecimal && digits.any fun c => c = 'e' || c = 'E') then .float
  else .integer

/-- What stands at the beginning of a text. -/
inductive Lexeme where
  /-- Blanks or a comment of so many characters; the flag tells whether a line ends in it. -/
  | gap (length : Nat) (lineEnds : Bool)
  | token (kind : TokenKind) (length : Nat)

/-- The lexeme at the beginning of a text that is not empty. -/
def lexeme (text : List Char) : Lexeme :=
  match text with
  | [] => .gap 0 false
  | c :: r =>
    if c = '\n' then .gap 1 true
    else if c = ' ' || (9 ≤ c.toNat && c.toNat ≤ 13) || c.toNat = 0xFEFF then .gap 1 false
    else if c = '/' && r.head? = some '/' then .gap (text.takeWhile (· ≠ '\n')).length false
    else if c = '/' && r.head? = some '*' then
      let n := 2 + blockComment (r.drop 1) 0
      .gap n ((text.take n).contains '\n')
    else if isLetter c then .token .word (text.takeWhile isWordChar).length
    else if c.isDigit || (c = '.' && (r.head?.any Char.isDigit)) then
      let n := numberLength text
      .token (numberKind (text.take n)) n
    else if c = '"' then .token .string (1 + (quoted '"' true false r 0).getD r.length)
    else if c = '\x60' then .token .rawString (1 + (quoted '\x60' false true r 0).getD r.length)
    else if c = '\x27' then .token .character (1 + (quoted '\x27' true false r 0).getD r.length)
    else match operators.find? fun op => op.toList.isPrefixOf text with
      | some op => .token .punct op.toList.length
      | none => .token .punct 1

/-- The token that ends a statement at a position, if the last token asks for it. -/
def statementEnd (last : Option Token) (position : Nat) : List Token :=
  match last with
  | some t => if endsStatement t then [⟨.newline, "\n", position, position⟩] else []
  | none => []

/-- The tokens of a text that begins at a byte position; `found` holds the tokens before it,
the last one first. -/
def scan : Nat → List Char → Nat → List Token → List Token
  | 0, _, _, found => found.reverse
  | steps + 1, text, position, found =>
    if text.isEmpty then (statementEnd found.head? position ++ found).reverse
    else match lexeme text with
      | .gap n lineEnds =>
        let next := position + Text.Utf8.byteLength (text.take n)
        let ends := if lineEnds then statementEnd found.head? position else []
        scan steps (text.drop n) next (ends ++ found)
      | .token kind n =>
        let word := text.take n
        let next := position + Text.Utf8.byteLength word
        scan steps (text.drop n) next (⟨kind, String.ofList word, position, next⟩ :: found)

/-- The tokens of a source text. -/
def tokens (text : List Char) : List Token := scan (text.length + 1) text 0 []

end SourceAudit.Grammar.Golang
