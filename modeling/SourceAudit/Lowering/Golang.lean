import SourceAudit.Lowering.Basic

/-! Constructs of Go. -/
namespace SourceAudit.Lowering.Golang

open Syntax

/-- The one kind of expression that only wraps another one. -/
def isWrapper (kind : String) : Bool := kind = "parenthesized_expression"

def unwrap (t : Tree) : Tree := t.unwrap isWrapper

/-- The functions that format a string. -/
def formatCallees : List String := ["fmt.Sprintf", "fmt.Sprint", "fmt.Sprintln"]

/-- The shape of an expression that is not wrapped. -/
def shapeOf (source : Source) (t : Tree) : Shape :=
  match t.kind with
  | "interpreted_string_literal" | "raw_string_literal" => .stringLiteral
  | "int_literal" | "float_literal" | "imaginary_literal" | "rune_literal" => .numberLiteral
  | "binary_expression" => .concatenation
  | "call_expression" =>
    let callee := ((t.child? "function").map (calleeText source)).getD ""
    if formatCallees.contains callee then .formatCall else .call
  | "identifier" | "selector_expression" | "index_expression" | "variadic_argument" => .reference
  | _ => .other

def value (source : Source) (t : Tree) : Value :=
  let inner := unwrap t
  { shape := shapeOf source inner, text := source.textOf inner }

/-- The name of the field or method that a node selects. -/
def selectedName (source : Source) (t : Tree) : Option String :=
  if t.kind = "selector_expression" then (t.child? "field").map source.textOf else none

/-- The values passed in a call. -/
def arguments (source : Source) (t : Tree) : List Value :=
  match t.child? "arguments" with
  | none => []
  | some list => list.operands.map (value source)

/-- A call of `callee`. -/
def callOf (source : Source) (t callee : Tree) : Call :=
  { callee := calleeText source callee
    property := selectedName source callee
    construct := false
    args := arguments source t
    text := source.textOf t
    site := Site.ofTree source t }

def call? (source : Source) (t : Tree) : Option Call :=
  if t.kind = "call_expression" then (t.child? "function").map (callOf source t) else none

/-- The elements of a list of expressions, or the one value. -/
def valuesOf (source : Source) : Option Tree → List Value
  | none => []
  | some t =>
    if t.kind = "expression_list" then t.operands.map (value source) else [value source t]

/-- An assignment of what fills `field` to `target`. -/
def assignmentOf (source : Source) (t : Tree) (target field : String) (augmented : Bool) :
    Assignment :=
  { target := target
    targetKeys := []
    property := none
    values := valuesOf source (t.child? field)
    augmented := augmented
    site := Site.ofTree source t }

/-- Any operator but the plain one combines the old value with the new. -/
def isAugmented (source : Source) (t : Tree) : Bool :=
  match t.child? "operator" with
  | some operator => Text.trimmed (source.textOf operator) ≠ "="
  | none => false

/-- The names that a specification declares. -/
def specNames (source : Source) (t : Tree) : List String :=
  (t.operands.filter (·.kind = "identifier")).map source.textOf

def assignment? (source : Source) (t : Tree) : Option Assignment :=
  match t.kind with
  | "short_var_declaration" =>
    (t.child? "left").map fun left => assignmentOf source t (source.textOf left) "right" false
  | "assignment_statement" =>
    (t.child? "left").map fun left =>
      assignmentOf source t (source.textOf left) "right" (isAugmented source t)
  | "var_spec" | "const_spec" =>
    match specNames source t with
    | [] => none
    | names => some (assignmentOf source t (", ".intercalate names) "value" false)
  | _ => none

/-- The lowering of Go. -/
def lowering : Lowering := ⟨value, call?, assignment?⟩

end SourceAudit.Lowering.Golang
