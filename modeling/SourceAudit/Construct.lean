import SourceAudit.Site

/-! Constructs: what the structural rules see of a program.

Calls and assignments have the same form in every language, so no rule depends on the node
kinds of a grammar. -/
namespace SourceAudit

/-- A coarse class of expressions. -/
inductive Shape where
  /-- A string without any substituted part. -/
  | stringLiteral
  | numberLiteral
  /-- A string with substituted parts. -/
  | interpolated
  /-- An operator with two operands. -/
  | concatenation
  /-- A call that formats a string. -/
  | formatCall
  | call
  /-- A name, a member, an element, or a spread. -/
  | reference
  | other
  deriving DecidableEq, Inhabited

namespace Shape

def all : List Shape :=
  [.stringLiteral, .numberLiteral, .interpolated, .concatenation, .formatCall, .call, .reference,
   .other]

/-- The name of a shape. -/
def tag : Shape → String
  | .stringLiteral => "string_literal"
  | .numberLiteral => "number_literal"
  | .interpolated => "interpolated"
  | .concatenation => "concatenation"
  | .formatCall => "format_call"
  | .call => "call"
  | .reference => "reference"
  | .other => "other"

/-- The shape with exactly this name. -/
def ofTag? (s : String) : Option Shape := all.find? (·.tag = s)

def isStringLiteral : Shape → Bool
  | .stringLiteral => true
  | _ => false

/-- May vary at run time. -/
def isDynamic : Shape → Bool
  | .interpolated | .concatenation | .formatCall | .call | .reference => true
  | _ => false

/-- A string put together at run time. -/
def isBuiltString : Shape → Bool
  | .interpolated | .concatenation | .formatCall => true
  | _ => false

end Shape

/-- A classified expression. -/
structure Value where
  shape : Shape
  text : String
  /-- The name under which an argument is passed. -/
  keyword : Option String := none
  deriving DecidableEq, Inhabited

/-- A call or a construction. -/
structure Call where
  /-- The text of what is called, without blanks. -/
  callee : String
  /-- The last member name, if what is called is a member. -/
  property : Option String
  /-- Whether an object is constructed. -/
  construct : Bool
  args : List Value
  /-- The text of the whole call. -/
  text : String
  site : Site
  deriving DecidableEq, Inhabited

/-- A declaration or an assignment. -/
structure Assignment where
  /-- The text of the left side. -/
  target : String
  /-- The member names and literal keys along the left side, the last one first. -/
  targetKeys : List String
  /-- The last member name of the left side. -/
  property : Option String
  values : List Value
  /-- Whether the old value takes part in the new one. -/
  augmented : Bool
  site : Site
  deriving DecidableEq, Inhabited

/-- The calls and assignments of a file, each in the order of a visit. -/
structure Constructs where
  calls : List Call
  assignments : List Assignment
  deriving DecidableEq, Inhabited

end SourceAudit
