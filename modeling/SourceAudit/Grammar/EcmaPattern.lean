import SourceAudit.Grammar.EcmaToken

/-! The targets of declarations and the parameters of functions in the ECMAScript family.

The parsers of the family call one another through `Rules`, which `Ecma.rules` ties together
level by level. -/
namespace SourceAudit.Grammar.Ecma

open Syntax

/-- The members of the family that differ in what they read. -/
inductive Flavor where
  /-- No types; tags are expressions. -/
  | script
  /-- Types; angle brackets assert a type. -/
  | typed
  /-- Types, and tags are expressions. -/
  | typedMarkup
  deriving DecidableEq, Inhabited

namespace Flavor

def hasTypes : Flavor → Bool
  | .script => false
  | _ => true

def hasMarkup : Flavor → Bool
  | .typed => false
  | _ => true

end Flavor

/-- The parsers that call one another. -/
structure Rules where
  flavor : Flavor
  /-- An expression that may stand between commas. -/
  expression : P Tree
  /-- An operand with the operators before it. -/
  unary : P Tree
  type : P Tree
  pattern : P Tree
  /-- A tag with what it encloses; the text behind it is not looked at. -/
  element : P Tree
  statement : P Tree
  /-- Statements in braces. -/
  block : P Tree
  decorator : P Tree

variable (r : Rules)

/-! ### Lists and names -/

/-- Items between commas; items may be missing. -/
def commaSeparated (item : P Tree) : P (List Tree) := do
  let first ← Parser.optional item
  let rest ← Parser.many (← remaining) (do
    let _ ← punct ","
    Parser.optional item)
  return (first :: rest).filterMap id

/-- A name in brackets that is computed. -/
def computedName : P Tree := do
  let start ← position
  let _ ← punct "["
  let e ← withGrouping true r.expression
  let _ ← punct "]"
  close "computed_property_name" start [e]

/-- The name of a property. -/
def propertyName : P Tree :=
  Parser.firstOf
    [(do return leaf "property_identifier" (← word)), stringLiteral, numberLiteral, privateName,
     computedName r]

/-! ### Patterns -/

/-- A pattern, possibly with a value for what is missing. -/
def initialized : P Tree := do
  let p ← r.pattern
  (do
      let _ ← punct "="
      let v ← r.expression
      close "assignment_pattern" p.start [p.filling "left", v.filling "right"])
    <|> pure p

def restPattern : P Tree := do
  let start ← position
  let _ ← punct "..."
  let p ← r.pattern
  close "rest_pattern" start [p]

/-- A property that is taken apart. -/
def propertyPattern : P Tree := do
  let start ← position
  Parser.firstOf
    [restPattern r,
     (do
        let k ← propertyName r
        let _ ← punct ":"
        let v ← initialized r
        close "pair_pattern" start [k.filling "key", v.filling "value"]),
     (do
        let t ← identifierToken
        let p := leaf "shorthand_property_identifier_pattern" t
        (do
            let _ ← punct "="
            let v ← r.expression
            close "object_assignment_pattern" start [p.filling "left", v.filling "right"])
          <|> pure p)]

def objectPattern : P Tree := do
  let start ← position
  let _ ← punct "\x7b"
  let items ← withGrouping true (commaSeparated (propertyPattern r))
  let _ ← punct "\x7d"
  close "object_pattern" start items

def arrayPattern : P Tree := do
  let start ← position
  let _ ← punct "["
  let items ← withGrouping true (commaSeparated (restPattern r <|> initialized r))
  let _ ← punct "]"
  close "array_pattern" start items

/-- A name, or a pattern in brackets. -/
def pattern : P Tree :=
  Parser.firstOf [identifier, objectPattern r, arrayPattern r]

/-! ### Parameters -/

/-- The type after a colon. -/
def typeAscription : P Tree := do
  Parser.require r.flavor.hasTypes
  let start ← position
  let _ ← punct ":"
  let t ← r.type
  close "type_annotation" start [t]

/-- Whether the name of a member or of a parameter begins here. -/
def atName : P Bool := do
  let t ← text
  return t.head?.any fun c =>
    isWordChar c || ['[', '\x7b', '"', '\x27', '#', '*', '@', '.'].contains c

/-- A word before a name that says how it is used. -/
def modifier (words : List String) : P Unit := do
  let _ ← keywordOf words
  Parser.require (← atName)

def parameterModifiers : List String := ["public", "private", "protected", "override", "readonly"]

/-- What a parameter binds. -/
def parameterTarget : P Tree :=
  Parser.firstOf
    [restPattern r, r.pattern, (do return leaf "this" (← keyword "this"))]

/-- A parameter with its type and its value. -/
def parameter : P Tree := do
  let start ← position
  let decorators ← Parser.many (← remaining) r.decorator
  if r.flavor.hasTypes then
    let _ ← Parser.many (← remaining) (modifier parameterModifiers)
    let p ← parameterTarget r
    let mayMiss ← Parser.optional (punct "?")
    let t ← Parser.optional (typeAscription r)
    let v ← Parser.optional (do let _ ← punct "="; r.expression)
    close (if mayMiss.isSome then "optional_parameter" else "required_parameter") start
      (decorators ++ p.filling "pattern" :: (t.map (·.filling "type")).toList ++
        (v.map (·.filling "value")).toList)
  else restPattern r <|> initialized r

/-- The parameters of a function in parentheses. -/
def formalParameters : P Tree := do
  let start ← position
  let _ ← punct "("
  let items ← withGrouping true (commaSeparated (parameter r))
  let _ ← punct ")"
  close "formal_parameters" start items

end SourceAudit.Grammar.Ecma
