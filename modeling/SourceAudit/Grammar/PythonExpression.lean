import SourceAudit.Grammar.PythonToken

/-! The expressions of Python.

The parsers of this language call one another through `Rules`, which `Python.rules` ties
together level by level. -/
namespace SourceAudit.Grammar.Python

open Syntax Cursor

/-- A parser over the tokens of Python. -/
abbrev P := Parser (Cursor Token)

/-! ### Tokens -/

def punct (text : String) : P Token := token (·.isPlain .punct text)

def keyword (text : String) : P Token := token (·.isPlain .word text)

/-- The words that cannot name anything. -/
def keywords : List String :=
  ["False", "None", "True", "and", "as", "assert", "break", "class", "continue", "def", "del",
   "elif", "else", "except", "finally", "for", "from", "global", "if", "import", "in", "is",
   "lambda", "nonlocal", "not", "or", "pass", "raise", "return", "try", "while", "with", "yield"]

/-- A word that is not a keyword. -/
def name : P Token := token fun
  | .plain .word text _ _ => !keywords.contains text
  | _ => false

def leaf (kind : String) (t : Token) : Tree := named kind t.start t.stop []

def identifier : P Tree := do return leaf "identifier" (← name)

/-- An operator or a keyword of a list. -/
def operatorOf (texts : List String) : P (String × Token) := do
  let t ← token fun
    | .plain kind text _ _ => (kind = .punct || kind = .word) && texts.contains text
    | _ => false
  match t with
  | .plain _ text _ _ => return (text, t)
  | _ => failure

/-- The items after the first one, each after a comma; a comma may stand after the last one.
The flag tells whether there was a comma at all. -/
def itemsAfter (first : Tree) (item : P Tree) : P (List Tree × Bool) := do
  let rest ← Parser.many (← remaining) (do let _ ← punct ","; item)
  let last ← Parser.optional (punct ",")
  return (first :: rest, !rest.isEmpty || last.isSome)

/-- Items between commas. -/
def commaItems (item : P Tree) : P (List Tree × Bool) := do
  itemsAfter (← item) item

/-- Items between commas, or none. -/
def commaList (item : P Tree) : P (List Tree) := do
  return ((← Parser.optional (commaItems item)).map (·.1)).getD []

/-- The parsers that call one another. -/
structure Rules where
  expression : P Tree
  /-- An expression without a choice between two values. -/
  disjunction : P Tree
  /-- An operand of `and` and `or`. -/
  negation : P Tree
  /-- An operand of an arithmetic operator. -/
  unary : P Tree
  /-- The target of a loop. -/
  pattern : P Tree
  /-- The statements of a line in a block with some indentation. -/
  statement : Nat → P (List Tree)

variable (r : Rules)

/-! ### Lists of expressions -/

/-- An element of a list, possibly spread. -/
def element : P Tree := do
  let start ← position
  (do
      let _ ← punct "*"
      let e ← r.expression
      close "list_splat" start [e])
    <|> r.expression

/-- One expression, or several between commas. -/
def expressions : P Tree := do
  let start ← position
  let (items, many) ← commaItems (element r)
  match items, many with
  | [e], false => return e
  | _, _ => close "expression_list" start items

def yieldExpression : P Tree := do
  let start ← position
  let _ ← keyword "yield"
  let parts ← (do
      let _ ← keyword "from"
      let e ← r.expression
      return [e])
    <|> (do return (← Parser.optional (expressions r)).toList)
  close "yield" start parts

/-! ### Strings -/

/-- Parses the tokens inside a substituted part. -/
def within (p : P Tree) (inner : List Token) (start : Nat) : List Tree :=
  match p ⟨inner, start⟩ with
  | some (t, _) => [t]
  | none => []

/-- The parts substituted in a string or in a format. -/
def interpolations (kind : String) : Nat → List Token → List Tree
  | 0, _ => []
  | steps + 1, parts => parts.filterMap fun
    | .interpolation start stop inner spec =>
      let value := within (yieldExpression r <|> expressions r) inner (start + 1)
      let format := interpolations "format_expression" steps spec
      let format :=
        if format.isEmpty then [] else [named "format_specifier" start stop format]
      some (named kind start stop (value.map (·.filling "expression") ++ format))
    | _ => none

def stringLiteral : P Tree := do
  let t ← token fun
    | .string .. => true
    | _ => false
  match t with
  | .string start stop parts =>
    return named "string" start stop (interpolations r "interpolation" (stop - start) parts)
  | _ => failure

/-- Strings next to one another make one. -/
def strings : P Tree := do
  let first ← stringLiteral r
  let rest ← Parser.many (← remaining) (stringLiteral r)
  if rest.isEmpty then return first
  else close "concatenated_string" first.start (first :: rest)

/-! ### Comprehensions -/

/-- The target of a loop: one pattern, or several between commas. -/
def patterns : P Tree := do
  let start ← position
  let (items, many) ← commaItems r.pattern
  match items, many with
  | [p], false => return p
  | _, _ => close "pattern_list" start items

def forClause : P Tree := do
  let start ← position
  let _ ← Parser.optional (keyword "async")
  let _ ← keyword "for"
  let left ← patterns r
  let _ ← keyword "in"
  let (right, _) ← commaItems r.disjunction
  close "for_in_clause" start (left.filling "left" :: right.map (·.filling "right"))

def ifClause : P Tree := do
  let start ← position
  let _ ← keyword "if"
  let e ← r.disjunction
  close "if_clause" start [e]

/-- The clauses after the body of a comprehension. -/
def clauses : P (List Tree) := do
  let first ← forClause r
  let rest ← Parser.many (← remaining) (forClause r <|> ifClause r)
  return first :: rest

/-! ### Brackets -/

/-- What stands between brackets after the first item: the clauses of a comprehension, or
more items. The flag tells whether there was a comma. -/
inductive Contents where
  | comprehension (clauses : List Tree)
  | items (list : List Tree) (comma : Bool)

/-- What follows the first item up to the closing bracket. -/
def contentsAfter (first : Tree) (item : P Tree) (closing : String) : P Contents :=
  (do
      let cs ← clauses r
      let _ ← punct closing
      return .comprehension cs)
    <|> (do
      let (list, comma) ← itemsAfter first item
      let _ ← punct closing
      return .items list comma)

/-- What stands between parentheses: nothing, an expression, a generator or a tuple. -/
def parenthesized : P Tree := do
  let start ← position
  let _ ← punct "("
  (do
      let _ ← punct ")"
      close "tuple" start [])
    <|> (do
      let item := yieldExpression r <|> element r
      let first ← item
      match ← contentsAfter r first item ")" with
      | .comprehension cs => close "generator_expression" start (first.filling "body" :: cs)
      | .items list comma =>
        close (if comma then "tuple" else "parenthesized_expression") start list)

def listLiteral : P Tree := do
  let start ← position
  let _ ← punct "["
  (do
      let _ ← punct "]"
      close "list" start [])
    <|> (do
      let item := yieldExpression r <|> element r
      let first ← item
      match ← contentsAfter r first item "]" with
      | .comprehension cs => close "list_comprehension" start (first.filling "body" :: cs)
      | .items list _ => close "list" start list)

/-- The value after a key. -/
def pairAfter (key : Tree) : P Tree := do
  let _ ← punct ":"
  let v ← r.expression
  close "pair" key.start [key.filling "key", v.filling "value"]

def dictionarySplat : P Tree := do
  let start ← position
  let _ ← punct "**"
  let e ← r.expression
  close "dictionary_splat" start [e]

/-- What stands between braces: a dictionary, a set or a comprehension. -/
def braced : P Tree := do
  let start ← position
  let _ ← punct "\x7b"
  (do
      let _ ← punct "\x7d"
      close "dictionary" start [])
    <|> (do
      let entry := dictionarySplat r <|> (do pairAfter r (← r.expression))
      let first ← dictionarySplat r <|> element r
      let keyed ← Parser.optional (pairAfter r first)
      let first := keyed.getD first
      let isDictionary := keyed.isSome || first.kind = "dictionary_splat"
      let item := if isDictionary then entry else element r
      match ← contentsAfter r first item "\x7d" with
      | .comprehension cs =>
        let kind := if isDictionary then "dictionary_comprehension" else "set_comprehension"
        close kind start (first.filling "body" :: cs)
      | .items list _ => close (if isDictionary then "dictionary" else "set") start list)

/-! ### Operands -/

def numberLiteral : P Tree := do
  let t ← token fun
    | .plain kind _ _ _ => kind = .integer || kind = .float
    | _ => false
  match t with
  | .plain .float _ _ _ => return leaf "float" t
  | _ => return leaf "integer" t

/-- The words and signs that stand for one value. -/
def constant : P Tree := do
  let (text, t) ← operatorOf ["True", "False", "None", "..."]
  return leaf (if text = "..." then "ellipsis" else text.toLower) t

def atom : P Tree :=
  Parser.firstOf
    [identifier, strings r, numberLiteral, constant, parenthesized r, listLiteral r, braced r]

/-- An argument passed by name. -/
def keywordArgument : P Tree := do
  let n ← identifier
  let _ ← punct "="
  let v ← r.expression
  close "keyword_argument" n.start [n.filling "name", v.filling "value"]

def argument : P Tree :=
  Parser.firstOf [dictionarySplat r, keywordArgument r, element r]

/-- The arguments of a call, or a generator that is its only argument. -/
def arguments : P Tree := do
  let start ← position
  let _ ← punct "("
  (do
      let _ ← punct ")"
      close "argument_list" start [])
    <|> (do
      let first ← argument r
      match ← contentsAfter r first (argument r) ")" with
      | .comprehension cs => close "generator_expression" start (first.filling "body" :: cs)
      | .items list _ => close "argument_list" start list)

/-- An index: a slice or an expression. -/
def index : P Tree := do
  let start ← position
  let first ← Parser.optional (element r)
  match ← Parser.optional (punct ":") with
  | none => first.elim failure pure
  | some _ =>
    let second ← Parser.optional r.expression
    let third ← Parser.optional (punct ":")
    let step ← if third.isSome then Parser.optional r.expression else pure none
    close "slice" start (first.toList ++ second.toList ++ step.toList)

/-- One thing that may follow an operand: an attribute, an index or arguments. -/
def suffixed (e : Tree) : P Tree :=
  Parser.firstOf
    [(do
        let _ ← punct "."
        let a ← token fun
          | .plain .word _ _ _ => true
          | _ => false
        close "attribute" e.start
          [e.filling "object", (leaf "identifier" a).filling "attribute"]),
     (do
        let list ← arguments r
        close "call" e.start [e.filling "function", list.filling "arguments"]),
     (do
        let _ ← punct "["
        let (items, _) ← commaItems (index r)
        let _ ← punct "]"
        close "subscript" e.start (e.filling "value" :: items.map (·.filling "subscript")))]

/-- Everything that follows an operand. -/
def suffixes : Nat → Tree → P Tree
  | 0, e => pure e
  | n + 1, e => do
    match ← Parser.optional (suffixed r e) with
    | some next => suffixes n next
    | none => pure e

def primary : P Tree := do
  let e ← atom r
  suffixes r (← remaining) e

/-! ### Operators -/

/-- Two operands with the operator between them. -/
def joined (kind : String) (left : Tree) (operator : String × Token) (right : Tree) : Tree :=
  named kind left.start right.stop
    [left.filling "left", mark operator.1 "operator" operator.2.start operator.2.stop,
     right.filling "right"]

/-- Operands joined from the left. -/
def leftJoined (kind : String) (operators : List String) (operand : P Tree) : P Tree := do
  let first ← operand
  let rest ← Parser.many (← remaining) do
    let op ← operatorOf operators
    let x ← operand
    return (op, x)
  return rest.foldl (fun e (op, x) => joined kind e op x) first

def power : P Tree := do
  let base ← primary r
  (do
      let op ← operatorOf ["**"]
      let exponent ← r.unary
      return joined "binary_operator" base op exponent)
    <|> pure base

def unary : P Tree := do
  let start ← position
  Parser.firstOf
    [(do
        let _ ← keyword "await"
        let e ← r.unary
        close "await" start [e]),
     (do
        let (text, op) ← operatorOf ["+", "-", "~"]
        let e ← r.unary
        close "unary_operator" start
          [mark text "operator" op.start op.stop, e.filling "argument"]),
     power r]

/-- The levels of arithmetic operators, the loosest first. -/
def arithmeticLevels : List (List String) :=
  [["|"], ["&"], ["^"], ["<<", ">>"], ["+", "-"], ["*", "@", "/", "%", "//"]]

def arithmetic : List (List String) → P Tree
  | [] => unary r
  | level :: tighter => leftJoined "binary_operator" level (arithmetic tighter)

/-- An operator that compares, with the node that shows it. -/
def comparisonOperator : P Tree := do
  let start ← position
  Parser.firstOf
    [(do
        let _ ← keyword "not"
        let t ← keyword "in"
        return mark "not in" "operators" start t.stop),
     (do
        let _ ← keyword "is"
        let t ← keyword "not"
        return mark "is not" "operators" start t.stop),
     (do
        let (text, t) ← operatorOf ["<", "<=", "==", "!=", ">=", ">", "<>", "in", "is"]
        return mark text "operators" start t.stop)]

def comparison : P Tree := do
  let first ← arithmetic r arithmeticLevels
  let rest ← Parser.many (← remaining) do
    let op ← comparisonOperator
    let x ← arithmetic r arithmeticLevels
    return [op, x]
  if rest.isEmpty then return first
  else close "comparison_operator" first.start (first :: rest.flatten)

/-! ### Functions without names -/

/-- The name of a parameter, with the stars before it. -/
def parameterName : P Tree := do
  let start ← position
  Parser.firstOf
    [identifier,
     (do
        let _ ← punct "**"
        let n ← identifier
        close "dictionary_splat_pattern" start [n]),
     (do
        let _ ← punct "*"
        let n ← identifier
        close "list_splat_pattern" start [n]),
     (do
        let _ ← punct "*"
        close "keyword_separator" start []),
     (do
        let _ ← punct "/"
        close "positional_separator" start []),
     r.pattern]

/-- The type of a parameter, of a variable or of a result. -/
def ascription : P Tree := do
  let start ← position
  let e ← element r
  close "type" start [e]

/-- A parameter; only those of functions with names have types. -/
def parameter (annotated : Bool) : P Tree := do
  let n ← parameterName r
  let typed ← if annotated then Parser.optional (do let _ ← punct ":"; ascription r)
    else pure none
  let default? ← Parser.optional (do let _ ← punct "="; r.expression)
  match typed, default? with
  | none, none => return n
  | some t, none => close "typed_parameter" n.start [n, t.filling "type"]
  | none, some v => close "default_parameter" n.start [n.filling "name", v.filling "value"]
  | some t, some v =>
    close "typed_default_parameter" n.start
      [n.filling "name", t.filling "type", v.filling "value"]

def lambda : P Tree := do
  let start ← position
  let _ ← keyword "lambda"
  let listStart ← position
  let items ← commaList (parameter r false)
  let parameters ← close "lambda_parameters" listStart items
  let _ ← punct ":"
  let body ← r.expression
  close "lambda" start
    ((if items.isEmpty then [] else [parameters.filling "parameters"]) ++ [body.filling "body"])

/-! ### Whole expressions -/

def negation : P Tree := do
  let start ← position
  Parser.firstOf
    [(do
        let _ ← keyword "not"
        let e ← r.negation
        close "not_operator" start [e.filling "argument"]),
     lambda r, comparison r]

def disjunction : P Tree :=
  leftJoined "boolean_operator" ["or"] (leftJoined "boolean_operator" ["and"] (negation r))

/-- A choice between two values, or a value. -/
def conditional : P Tree := do
  let first ← disjunction r
  (do
      let _ ← keyword "if"
      let condition ← r.expression
      let _ ← keyword "else"
      let second ← r.expression
      close "conditional_expression" first.start [first, condition, second])
    <|> pure first

/-- A value that is given a name. -/
def namedExpression : P Tree := do
  let n ← identifier
  let _ ← punct ":="
  let v ← r.expression
  close "named_expression" n.start [n.filling "name", v.filling "value"]

def expression : P Tree := namedExpression r <|> conditional r

/-! ### Targets -/

/-- A target in brackets is a pattern, and so is what stands in it. -/
def asPattern : Tree → Tree
  | .node kind field isNamed start stop children =>
    match kind with
    | "tuple" | "parenthesized_expression" =>
      .node "tuple_pattern" field isNamed start stop (asPatterns children)
    | "list" => .node "list_pattern" field isNamed start stop (asPatterns children)
    | "list_splat" => .node "list_splat_pattern" field isNamed start stop children
    | _ => .node kind field isNamed start stop children
where
  asPatterns : List Tree → List Tree
    | [] => []
    | t :: ts => asPattern t :: asPatterns ts

/-- A target: a name, an attribute, an element, or several of them in brackets. -/
def pattern : P Tree := do
  let start ← position
  (do
      let _ ← punct "*"
      let e ← primary r
      close "list_splat_pattern" start [e])
    <|> (do return asPattern (← primary r))

end SourceAudit.Grammar.Python
