import SourceAudit.Syntax.Tree

/-! Parsing: what the readers of all languages share.

A parser works on a state and either fails, leaving the state as it was for an alternative,
or gives a result with the state after it. The trees it builds hold the named nodes, and of
the punctuation only what fills a field; comments are skipped. -/
namespace SourceAudit.Grammar

open Syntax

/-- A parser over states of type `σ`. -/
abbrev Parser (σ : Type) := StateT σ Option

/-- The kinds of tokens. -/
inductive TokenKind where
  /-- A name or a keyword. -/
  | word
  | integer
  | float
  | imaginary
  | character
  | string
  | rawString
  /-- An operator or a bracket. -/
  | punct
  /-- The end of a line that ends a statement. -/
  | newline
  deriving DecidableEq, Inhabited

/-- A token with the bytes it spans. -/
structure Token where
  kind : TokenKind
  text : String
  start : Nat
  stop : Nat
  deriving Inhabited

namespace Parser

variable {σ α : Type}

/-- Applies a parser until it fails, at most `limit` times. -/
def many (limit : Nat) (p : Parser σ α) : Parser σ (List α) := fun s =>
  go limit [] s
where
  go : Nat → List α → σ → Option (List α × σ)
    | 0, found, s => some (found.reverse, s)
    | n + 1, found, s =>
      match p s with
      | some (a, t) => go n (a :: found) t
      | none => some (found.reverse, s)

/-- The result of a parser, or none if it fails. -/
def optional (p : Parser σ α) : Parser σ (Option α) := fun s =>
  match p s with
  | some (a, t) => some (some a, t)
  | none => some (none, s)

/-- The first parser that succeeds. -/
def firstOf : List (Parser σ α) → Parser σ α
  | [] => failure
  | p :: ps => fun s => (p s).or (firstOf ps s)

/-- Whether a parser would succeed; nothing is read. -/
def ahead (p : Parser σ α) : Parser σ Bool := fun s => some ((p s).isSome, s)

/-- Fails unless a condition holds. -/
def require (b : Bool) : Parser σ Unit := if b then pure () else failure

end Parser

/-- A named node. -/
def named (kind : String) (start stop : Nat) (children : List Tree) : Tree :=
  .node kind none true start stop children

/-- Punctuation that fills a field. -/
def mark (kind field : String) (start stop : Nat) : Tree :=
  .node kind (some field) false start stop []

/-- Things that span bytes of a source. -/
class Spanned (τ : Type) where
  start : τ → Nat
  stop : τ → Nat

instance : Spanned Token := ⟨Token.start, Token.stop⟩

/-- The tokens that are left, and where the last token that was read ends. -/
structure Cursor (τ : Type) where
  rest : List τ
  last : Nat

namespace Cursor

variable {τ : Type} [Spanned τ]

/-- The next token. -/
def peek? : Parser (Cursor τ) (Option τ) := fun c => some (c.rest.head?, c)

/-- Where the next token begins. -/
def position : Parser (Cursor τ) Nat := fun c =>
  some ((c.rest.head?.map Spanned.start).getD c.last, c)

/-- The number of tokens that are left. -/
def remaining : Parser (Cursor τ) Nat := fun c => some (c.rest.length, c)

/-- Reads the next token if it passes a test. -/
def token (test : τ → Bool) : Parser (Cursor τ) τ := fun c =>
  match c.rest with
  | t :: rest => if test t then some (t, ⟨rest, Spanned.stop t⟩) else none
  | [] => none

/-- A node from a position up to the last token read. -/
def close (kind : String) (start : Nat) (children : List Tree) : Parser (Cursor τ) Tree :=
  fun c => some (named kind start c.last children, c)

end Cursor
end SourceAudit.Grammar
