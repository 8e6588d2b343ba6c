import SourceAudit.Grammar.EcmaPattern

/-! The types of the typed members of the ECMAScript family.

Of a type only what it contains is of interest later: its nodes nest as the types do, and the
names in it are no nodes. -/
namespace SourceAudit.Grammar.Ecma

open Syntax

variable (r : Rules)

/-! ### Arguments and parameters of types -/

def typeArguments : P Tree := do
  Parser.require r.flavor.hasTypes
  let start ← position
  let _ ← character '<'
  let items ← withGrouping true (commaSeparated r.type)
  Parser.require !items.isEmpty
  let _ ← character '>'
  close "type_arguments" start items

def typeParameter : P Tree := do
  let start ← position
  let _ ← Parser.many (← remaining) (modifier ["const", "in", "out"])
  let n ← word
  let constraint ← Parser.optional (do
    let constraintStart ← position
    let _ ← keyword "extends"
    let t ← r.type
    close "constraint" constraintStart [t])
  let default? ← Parser.optional (do
    let defaultStart ← position
    let _ ← punct "="
    let t ← r.type
    close "default_type" defaultStart [t])
  close "type_parameter" start
    ((leaf "type_identifier" n).filling "name" ::
      (constraint.map (·.filling "constraint")).toList ++
      (default?.map (·.filling "value")).toList)

def typeParameters : P Tree := do
  Parser.require r.flavor.hasTypes
  let start ← position
  let _ ← character '<'
  let items ← withGrouping true (commaSeparated (typeParameter r))
  let _ ← character '>'
  close "type_parameters" start items

/-- The type of a result: a type, or what it tells about an argument. -/
def resultType : P Tree := do
  let start ← position
  Parser.firstOf
    [(do
        let _ ← keyword "asserts"
        let _ ← word
        let t ← Parser.optional (do let _ ← keyword "is"; r.type)
        close "asserts" start t.toList),
     (do
        let _ ← word
        let _ ← keyword "is"
        let t ← r.type
        close "type_predicate" start [t]),
     r.type]

/-- The type of a result after a colon. -/
def resultAscription : P Tree := do
  Parser.require r.flavor.hasTypes
  let start ← position
  let _ ← punct ":"
  let t ← resultType r
  close "type_annotation" start [t]

/-- The parameters of a function with what is known about its types. -/
def callSignature : P (List Tree) := do
  let types ← Parser.optional (typeParameters r)
  let parameters ← formalParameters r
  let result ← Parser.optional (resultAscription r)
  return (types.map (·.filling "type_parameters")).toList ++ parameters.filling "parameters" ::
    (result.map (·.filling "return_type")).toList

/-! ### Members of object types -/

/-- What stands in brackets at the beginning of a member. -/
def bracketedKey : P (List Tree) := do
  let _ ← punct "["
  let inner ← withGrouping true (Parser.firstOf
    [(do
        let _ ← word
        let _ ← punct ":"
        let t ← r.type
        let closed ← atPunct "]"
        Parser.require closed
        return [t]),
     (do
        let _ ← word
        let _ ← keyword "in"
        let t ← r.type
        let other ← Parser.optional (do let _ ← keyword "as"; r.type)
        return t :: other.toList),
     (do return [← r.expression])])
  let _ ← punct "]"
  return inner

def memberSignature : P Tree := do
  let start ← position
  let _ ← Parser.many (← remaining) (do
    let _ ← Parser.optional (punctOf ["+", "-"])
    modifier ["readonly", "get", "set", "static", "public", "private", "protected"])
  let mayMiss : P Unit := do
    let _ ← Parser.optional (punctOf ["+", "-"])
    let _ ← Parser.optional (punct "?")
  Parser.firstOf
    [(do
        let parts ← callSignature r
        close "call_signature" start parts),
     (do
        let _ ← keyword "new"
        let parts ← callSignature r
        close "construct_signature" start parts),
     (do
        let key ← bracketedKey r <|> (do return [← propertyName r])
        mayMiss
        let signature ← Parser.optional (callSignature r)
        let t ← Parser.optional (typeAscription r)
        let kind := if signature.isSome then "method_signature" else "property_signature"
        close kind start (key ++ signature.getD [] ++ t.toList))]

/-- The members of a type in braces. -/
def objectType : P Tree := do
  let start ← position
  let _ ← punct "\x7b"
  let separators : P Unit := do
    let _ ← Parser.many (← remaining) (punctOf [";", ","])
  let items ← withGrouping true (do
    separators
    Parser.many (← remaining) (do
      let m ← memberSignature r
      separators
      return m))
  let _ ← punct "\x7d"
  close "object_type" start items

/-! ### Operands -/

/-- Names joined by points, with type arguments. -/
def typeNames : P (List Tree) := do
  let _ ← Parser.many (← remaining) (do let _ ← punct "."; word)
  return (← Parser.optional (typeArguments r)).toList

/-- An import inside a type is a call. -/
def importCall : P Tree := do
  let start ← position
  let callee ← keyword "import"
  let listStart ← position
  let _ ← punct "("
  let items ← withGrouping true (commaSeparated r.expression)
  let _ ← punct ")"
  let list ← close "arguments" listStart items
  close "call_expression" start
    [(leaf "import" callee).filling "function", list.filling "arguments"]

/-- The type of a variable. -/
def typeQuery : P Tree := do
  let start ← position
  let _ ← keyword "typeof"
  let first ← (do return [← importCall r]) <|> (do let _ ← word; return [])
  let _ ← Parser.many (← remaining) (do
    let _ ← punct "."
    (do let _ ← privateName) <|> (do let _ ← word))
  let arguments ← Parser.optional (typeArguments r)
  close "type_query" start (first ++ arguments.toList)

/-- The number of characters of a template up to the next substitution or closing quote. -/
def templateRun : List Char → Nat
  | [] => 0
  | '\\' :: _ :: r => 2 + templateRun r
  | '$' :: '\x7b' :: _ => 0
  | c :: r => if c = '\x60' then 0 else 1 + templateRun r

/-- A template after its opening quote; `inner` reads what is substituted. The text behind the
closing quote is not looked at. -/
def templateParts (inner : P Tree) : P (List Tree) := do
  let skip : P Unit := do
    advance (templateRun (← text))
  skip
  let parts ← Parser.many (← remaining) (do
    let start ← position
    rawCharacter '$'
    rawCharacter '\x7b'
    settle
    let e ← withGrouping true inner
    rawCharacter '\x7d'
    let part ← close "template_substitution" start [e]
    skip
    return part)
  rawCharacter '\x60'
  return parts

def templateType : P Tree := do
  let start ← position
  rawCharacter '\x60'
  let parts ← templateParts r.type
  let t ← close "template_literal_type" start parts
  settle
  return t

/-- An element of a tuple. -/
def tupleElement : P Tree := do
  let _ ← Parser.optional (punct "...")
  let t ← (do
      let _ ← word
      let _ ← Parser.optional (punct "?")
      let _ ← punct ":"
      r.type)
    <|> r.type
  let _ ← Parser.optional (punct "?")
  return t

def typeOperand : P Tree := do
  let start ← position
  Parser.firstOf
    [typeQuery r,
     (do
        let _ ← punct "("
        let t ← withGrouping true r.type
        let _ ← punct ")"
        close "parenthesized_type" start [t]),
     objectType r,
     (do
        let _ ← punct "["
        let items ← withGrouping true (commaSeparated (tupleElement r))
        let _ ← punct "]"
        close "tuple_type" start items),
     (do
        let s ← stringLiteral <|> numberLiteral <|> (do let _ ← punct "-"; numberLiteral)
        close "literal_type" start [s]),
     templateType r,
     (do
        let call ← importCall r
        let more ← typeNames r
        close "nested_type_identifier" start (call :: more)),
     (do
        let _ ← keyword "infer"
        let _ ← word
        let constraint ← Parser.optional (do
          let _ ← keyword "extends"
          r.type)
        close "infer_type" start constraint.toList),
     (do
        let _ ← word
        let more ← typeNames r
        close "type_identifier" start more)]

/-! ### Whole types -/

/-- A type with the brackets after it and the words before it. -/
def typeTerm : P Tree := do
  let start ← position
  let _ ← Parser.many (← remaining) (do
    let _ ← keywordOf ["keyof", "unique", "readonly"]
    let t ← text
    Parser.require (t.head?.any fun c =>
      isWordChar c || ['(', '[', '\x7b', '"', '\x27', '\x60'].contains c))
  let base ← typeOperand r
  let indices ← Parser.many (← remaining) (do
    let _ ← punct "["
    let t ← Parser.optional (withGrouping true r.type)
    let _ ← punct "]"
    return t.toList)
  if indices.isEmpty then return base
  else close "array_type" start (base :: indices.flatten)

/-- Types joined by a sign, which may also stand before the first one. -/
def typesJoined (sign kind : String) (term : P Tree) : P Tree := do
  let start ← position
  let _ ← Parser.optional (punct sign)
  let first ← term
  let rest ← Parser.many (← remaining) (do let _ ← punct sign; term)
  if rest.isEmpty then return first else close kind start (first :: rest)

/-- The type of a function or of a constructor. -/
def functionType : P Tree := do
  let start ← position
  let _ ← Parser.optional (keyword "abstract")
  let _ ← Parser.optional (keyword "new")
  let types ← Parser.optional (typeParameters r)
  let parameters ← formalParameters r
  let _ ← punct "=>"
  let result ← resultType r
  close "function_type" start
    (types.toList ++ [parameters.filling "parameters", result.filling "return_type"])

def unionType : P Tree :=
  functionType r <|>
    typesJoined "|" "union_type"
      (typesJoined "&" "intersection_type" (functionType r <|> typeTerm r))

/-- Any type. -/
def typeOf : P Tree := do
  let first ← unionType r
  (do
      let _ ← keyword "extends"
      let second ← unionType r
      let _ ← punct "?"
      let yes ← r.type
      let _ ← punct ":"
      let no ← r.type
      close "conditional_type" first.start [first, second, yes, no])
    <|> pure first

end SourceAudit.Grammar.Ecma
