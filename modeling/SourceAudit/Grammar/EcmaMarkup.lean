import SourceAudit.Grammar.EcmaExpression

/-! Tags as expressions, in the members of the ECMAScript family that have them.

Between tags stands text, in which only braces and angle brackets mean something. -/
namespace SourceAudit.Grammar.Ecma

open Syntax

variable (r : Rules)

/-- The length of a name in a tag, which may hold dashes. -/
def tagNameLength (t : List Char) : Nat :=
  (t.takeWhile fun c => isWordChar c || c = '-').length

def tagWord : P Token := do
  let t ← text
  let n := tagNameLength t
  Parser.require (0 < n && !(t.head?.any Char.isDigit))
  lexeme .word n

/-- The name of a tag: words joined by points or a colon. -/
def tagName : P Tree := do
  let first ← tagWord
  let rest ← Parser.many (← remaining) (do let _ ← punctOf [".", ":"]; tagWord)
  close (if rest.isEmpty then "identifier" else "member_expression") first.start []

/-- The number of characters of an attribute's text up to and including its closing quote. -/
def quotedLength (quote : Char) (t : List Char) : Nat :=
  (t.takeWhile (· ≠ quote)).length + 1

def attributeText : P Tree := do
  match ← text with
  | c :: rest =>
    Parser.require (c = '"' || c = '\x27')
    return leaf "string" (← lexeme .string (1 + quotedLength c rest))
  | [] => failure

/-- What stands in braces: an expression, a spread one, or nothing. The text behind the
closing brace is not looked at. -/
def embedded : P Tree := do
  let start ← position
  let _ ← punct "\x7b"
  let e ← withGrouping true (Parser.optional (spreadElement r <|> sequence r))
  rawCharacter '\x7d'
  close "jsx_expression" start e.toList

/-- An attribute of a tag, or attributes spread into it. -/
def tagAttribute : P Tree := do
  let start ← position
  (do
      let e ← embedded r
      settle
      return e)
    <|> (do
      let n ← tagWord
      let _ ← Parser.optional (do let _ ← punct ":"; tagWord)
      let value ← Parser.optional (do
        let _ ← punct "="
        Parser.firstOf
          [attributeText,
           (do
              let e ← embedded r
              settle
              return e),
           (do
              let e ← r.element
              settle
              return e)])
      close "jsx_attribute" start (leaf "property_identifier" n :: value.toList))

/-- The name and the attributes of an opening tag. -/
def tagHead : P (List Tree) := do
  let n ← tagName
  let types ← Parser.optional (typeArguments r)
  let attributes ← Parser.many (← remaining) (tagAttribute r)
  return n.filling "name" :: (types.map (·.filling "type_arguments")).toList ++
    attributes.map (·.filling "attribute")

/-- Skips text between tags. -/
def skipMarkupText : P Unit := do
  advance ((← text).takeWhile fun c => c ≠ '<' && c ≠ '\x7b').length

/-- What stands between an opening tag and its closing tag. -/
def tagContents : P (List Tree) := do
  skipMarkupText
  Parser.many (← remaining) (do
    let e ← embedded r <|> r.element
    skipMarkupText
    return e)

def closingTag : P Tree := do
  let start ← position
  let _ ← character '<'
  let _ ← character '/'
  let n ← Parser.optional tagName
  rawCharacter '>'
  close "jsx_closing_element" start (n.map (·.filling "name")).toList

/-- A tag with what it encloses. -/
def element : P Tree := do
  let start ← position
  let _ ← character '<'
  let head ← Parser.optional (tagHead r)
  Parser.firstOf
    [(do
        let parts ← head.elim failure pure
        let _ ← character '/'
        rawCharacter '>'
        close "jsx_self_closing_element" start parts),
     (do
        rawCharacter '>'
        let opening ← close "jsx_opening_element" start (head.getD [])
        let inner ← tagContents r
        let closing ← closingTag
        close "jsx_element" start
          (opening.filling "open_tag" :: inner ++ [closing.filling "close_tag"]))]

end SourceAudit.Grammar.Ecma
