import SourceAudit.Proofs.Line.Locality

/-! Line endings do not matter to line rules.

A carriage return is an ASCII byte, so putting one before a line feed changes nothing in how the
bytes around it are decoded, whether they are text or not. Each line of the file is then the same
line as before, perhaps with a carriage return behind (`areLinesOf_withReturns`): its own, if it had
one, since only one is taken as a part of the line's end. A blank at the end of a line hides nothing
from a line rule, and shows in no excerpt. -/
namespace SourceAudit

namespace Text

/-- The bytes with a carriage return put before every line feed. -/
def withReturns (bytes : List UInt8) : List UInt8 :=
  bytes.flatMap fun b => if b = 10 then [13, 10] else [b]

-- a carriage return that is there stays, and gets another one behind it
example : withReturns [97, 10, 98, 13, 10, 13, 99] = [97, 13, 10, 98, 13, 13, 10, 13, 99] := by decide

theorem withReturns_append (a b : List UInt8) :
    withReturns (a ++ b) = withReturns a ++ withReturns b :=
  List.flatMap_append

theorem withReturns_line {line : List UInt8} (h : 10 ∉ line) : withReturns line = line := by
  induction line with
  | nil => rfl
  | cons b rest ih =>
    have hb : b ≠ 10 := fun e => h (e ▸ List.mem_cons_self)
    have hr : 10 ∉ rest := fun mem => h (List.mem_cons_of_mem b mem)
    calc withReturns (b :: rest)
      _ = (if b = 10 then [13, 10] else [b]) ++ withReturns rest := List.flatMap_cons
      _ = b :: rest := by rw [if_neg hb, ih hr, List.singleton_append]

theorem withReturns_newline {line : List UInt8} (h : 10 ∉ line) (rest : List UInt8) :
    withReturns (line ++ 10 :: rest) = (line ++ [13]) ++ 10 :: withReturns rest := by
  have newline : withReturns (10 :: rest) = 13 :: 10 :: withReturns rest := List.flatMap_cons
  rw [withReturns_append, withReturns_line h, newline, List.append_assoc, List.singleton_append]

namespace Utf8

theorem newline_not_mem_decodeLossy {line : List UInt8} (h : 10 ∉ line) :
    '\n' ∉ decodeLossy line := by
  rw [← List.count_eq_zero, count_newline, List.count_eq_zero]
  exact h

theorem decodeLossy_return (line : List UInt8) :
    decodeLossy (line ++ [13]) = decodeLossy line ++ ['\r'] := by
  rw [decodeLossy, units_append (by decide), List.map_append]
  rfl

end Utf8

/-- **With returns put in, a file has the lines it had**, perhaps with a return behind. -/
theorem areLinesOf_withReturns (content : List UInt8) :
    List.Forall₂ IsLineOf (pieces (Utf8.decodeLossy content))
      (pieces (Utf8.decodeLossy (withReturns content))) := by
  induction content using line_induction (10 : UInt8) with
  | last line h =>
    rw [withReturns_line h]
    exact List.forall₂_same.mpr fun piece _ => .inl rfl
  | more line rest h ih =>
    have plain : '\n' ∉ Utf8.decodeLossy line := Utf8.newline_not_mem_decodeLossy h
    have returned : '\n' ∉ Utf8.decodeLossy line ++ ['\r'] := by
      rw [List.mem_append, List.mem_singleton]
      exact fun mem => mem.elim plain (by decide)
    rw [withReturns_newline h, Utf8.decodeLossy_append, Utf8.decodeLossy_append, pieces_append,
      pieces_append, Utf8.decodeLossy_return, pieces_line plain, pieces_line returned]
    exact .cons (.inr rfl) ih

end Text

/-- **Line endings do not matter to line rules.** Whatever bytes a file has, and whichever line
endings it mixes, a rule of the catalog finds exactly the same in it with a carriage return put
before every line feed: the same lines, columns, excerpts and ids. -/
theorem line_endings_do_not_matter {rule : LineRule} (h : rule ∈ LineRule.catalog) (path : Path)
    (language : Language) (content : List UInt8) :
    rule.detect path language (Text.withReturns content) = rule.detect path language content := by
  have visible := catalog_endsVisibly h
  unfold LineRule.detect
  rw [LineRule.sitesFrom_lines visible, LineRule.sitesFrom_lines visible,
    LineRule.sitesFrom_of_areLinesOf visible (Text.areLinesOf_withReturns content)]

/-- A line that ends within a character, one that has a carriage return already, and a last one
that ends in a carriage return alone. -/
theorem line_endings_do_not_matter_mixed :
    let rule := LineRule.catalog.get ⟨2, by decide⟩
    let path := Path.ofString "a.js"
    let content := 0xE2 :: 0x82 :: 10 :: Text.Utf8.encode "a.innerHTML=b\r\ninnerHTML=\r".toList
    rule ∈ LineRule.catalog ∧
      Text.withReturns content =
        0xE2 :: 0x82 :: 13 :: 10 :: Text.Utf8.encode "a.innerHTML=b\r\r\ninnerHTML=\r".toList ∧
      (rule.detect path .javascript content).map (fun f => (f.line, f.column, f.snippet)) =
        [(2, some 3, "a.innerHTML=b"), (3, some 1, "innerHTML=")] ∧
      rule.detect path .javascript (Text.withReturns content) =
        rule.detect path .javascript content :=
  ⟨List.get_mem .., by decide +kernel, by decide +kernel,
    line_endings_do_not_matter (List.get_mem ..) _ _ _⟩

end SourceAudit
