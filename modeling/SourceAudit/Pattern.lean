import SourceAudit.Text.Search

/-! Patterns: regular expressions over characters.

`Matches` says which texts belong to a pattern. The matcher takes derivatives: what is left
of a pattern after a character. A pattern is found in a text at the first place where some
text that belongs to it begins. -/
namespace SourceAudit

/-- A set of characters, as ranges of code points with both ends included. -/
structure CharSet where
  ranges : List (Nat × Nat)
  deriving DecidableEq, Inhabited

namespace CharSet

def contains (s : CharSet) (c : Char) : Bool :=
  s.ranges.any fun (a, b) => a ≤ c.toNat && c.toNat ≤ b

/-- The characters of a list. -/
def ofList (cs : List Char) : CharSet := ⟨cs.map fun c => (c.toNat, c.toNat)⟩

/-- The characters with the property `White_Space`. -/
def blank : CharSet :=
  ⟨[(9, 13), (0x20, 0x20), (0x85, 0x85), (0xA0, 0xA0), (0x1680, 0x1680), (0x2000, 0x200A),
    (0x2028, 0x2029), (0x202F, 0x202F), (0x205F, 0x205F), (0x3000, 0x3000)]⟩

/-- Every character but the line feed. -/
def notNewline : CharSet := ⟨[(0, 9), (11, 0x10FFFF)]⟩

/-- A letter in either case, with the characters that fold to it: the long s to an `s` and
the Kelvin sign to a `k`. Any other character stands for itself. -/
def caseless (c : Char) : CharSet :=
  let others :=
    if c.toLower = 's' then [Char.ofNat 0x17F]
    else if c.toLower = 'k' then [Char.ofNat 0x212A]
    else []
  ofList (c.toLower :: c.toUpper :: others)

end CharSet

/-- A regular expression. -/
inductive Pattern where
  /-- Nothing belongs to it. -/
  | never
  /-- Only the empty text belongs to it. -/
  | empty
  | char (set : CharSet)
  | seq (first second : Pattern)
  | alt (left right : Pattern)
  | star (p : Pattern)
  deriving DecidableEq, Inhabited

namespace Pattern

/-- The texts that belong to a pattern. -/
inductive Matches : Pattern → List Char → Prop where
  | empty : Matches .empty []
  | char {set : CharSet} {c : Char} : set.contains c → Matches (.char set) [c]
  | seq {p q : Pattern} {s t : List Char} : Matches p s → Matches q t → Matches (.seq p q) (s ++ t)
  | left {p q : Pattern} {s : List Char} : Matches p s → Matches (.alt p q) s
  | right {p q : Pattern} {s : List Char} : Matches q s → Matches (.alt p q) s
  | stop {p : Pattern} : Matches (.star p) []
  | more {p : Pattern} {s t : List Char} :
      Matches p s → Matches (.star p) t → Matches (.star p) (s ++ t)

/-! ### Building patterns -/

/-- One pattern after the other. -/
def sequence : List Pattern → Pattern
  | [] => .empty
  | [p] => p
  | p :: ps => .seq p (sequence ps)

/-- Any of the patterns. -/
def choice : List Pattern → Pattern
  | [] => .never
  | [p] => p
  | p :: ps => .alt p (choice ps)

/-- At least one occurrence. -/
def plus (p : Pattern) : Pattern := .seq p (.star p)

/-- One occurrence or none. -/
def option (p : Pattern) : Pattern := .alt p .empty

/-- At least `n` occurrences. -/
def atLeast (n : Nat) (p : Pattern) : Pattern := sequence (List.replicate n p ++ [.star p])

/-- The characters of a word, in any letter case. -/
def word (w : List Char) : Pattern := sequence (w.map fun c => .char (.caseless c))

/-! ### Matching -/

/-- Whether the empty text belongs to a pattern. -/
def nullable : Pattern → Bool
  | .never => false
  | .empty => true
  | .char _ => false
  | .seq p q => p.nullable && q.nullable
  | .alt p q => p.nullable || q.nullable
  | .star _ => true

/-- `seq`, without parts that match nothing or only the empty text. -/
def andThen (p q : Pattern) : Pattern :=
  match p, q with
  | .never, _ => .never
  | _, .never => .never
  | .empty, q => q
  | p, .empty => p
  | p, q => .seq p q

/-- Whether `p` is one of the alternatives of a pattern. -/
def isAlternative (p : Pattern) : Pattern → Bool
  | .alt q r => isAlternative p q || isAlternative p r
  | q => p = q

/-- `alt`, without parts that match nothing and without the same alternative twice. -/
def orElse (p q : Pattern) : Pattern :=
  match p, q with
  | .never, q => q
  | p, .never => p
  | p, q => if isAlternative p q then q else .alt p q

/-- What is left of a pattern after a character. -/
def derivative (c : Char) : Pattern → Pattern
  | .never => .never
  | .empty => .never
  | .char set => if set.contains c then .empty else .never
  | .seq p q =>
    let first := andThen (p.derivative c) q
    if p.nullable then orElse first (q.derivative c) else first
  | .alt p q => orElse (p.derivative c) (q.derivative c)
  | .star p => andThen (p.derivative c) (.star p)

/-- Whether a text begins with one that belongs to the pattern. -/
def begins (p : Pattern) : List Char → Bool
  | [] => p.nullable
  | c :: r => p.nullable || (p ≠ .never && (p.derivative c).begins r)

/-- How many bytes stand before the first text that belongs to the pattern. -/
def find? (p : Pattern) (text : List Char) : Option Nat :=
  Text.firstOffset? p.begins text

end Pattern
end SourceAudit
