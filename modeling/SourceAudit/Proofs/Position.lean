import Mathlib.Data.List.TakeWhile
import SourceAudit.Proofs.Engine
import SourceAudit.Proofs.Line.Locality

/-! Reported positions lie inside the file.

The lines of a file are counted in its bytes, but findings are located in the decoded text. A
byte is a line feed exactly if it stands for a line feed character (`newline_mem_encode`), so text
and bytes fall into the same lines, and an offset can be followed down line by line: it lies in the
line its number says, and no further from the beginning than the line is long
(`Source.inside_piece`). A line rule finds something of at least one character, which ends within
the line, with or without the carriage return behind it. -/
namespace SourceAudit

/-! ### Texts line by line -/

namespace Text

theorem length_lines_le (text : List Char) : (lines text).length ≤ (pieces text).length := by
  have hpos := List.length_pos_of_ne_nil (pieces_ne_nil text)
  have hlast : ((pieces text).getLast?.toList.filter (· ≠ [])).length ≤ 1 :=
    Nat.le_trans (List.length_filter_le ..) (by cases (pieces text).getLast? <;> simp)
  simp only [lines, List.length_append, List.length_map, List.length_dropLast]
  omega

namespace Utf8

theorem encode_append (a b : List Char) : encode (a ++ b) = encode a ++ encode b :=
  List.flatMap_append

theorem length_encode (text : List Char) : (encode text).length = byteLength text := by
  induction text with
  | nil => rfl
  | cons c rest ih =>
    have hc := String.length_utf8EncodeChar c
    rw [encode, List.flatMap_cons, List.length_append, hc]
    exact congrArg (c.utf8Size + ·) ih

theorem byteLength_append (a b : List Char) : byteLength (a ++ b) = byteLength a + byteLength b := by
  rw [← length_encode, ← length_encode, ← length_encode, encode_append, List.length_append]

theorem byteLength_pos {text : List Char} (h : text ≠ []) : 0 < byteLength text := by
  cases text with
  | nil => exact absurd rfl h
  | cons c rest => exact Nat.lt_of_lt_of_le c.utf8Size_pos (Nat.le_add_right _ _)

/-- Only the line feed has a byte that is a line feed. -/
theorem newline_mem_utf8EncodeChar {c : Char} (h : 10 ∈ String.utf8EncodeChar c) : c = '\n' := by
  have byte {n : Nat} (hn : 10 = UInt8.ofNat n) : n % 256 = 10 := by
    have value := congrArg UInt8.toNat hn
    rw [UInt8.toNat_ofNat'] at value
    exact value.symm
  rw [← Char.toNat_inj]
  show c.val.toNat = 10
  unfold String.utf8EncodeChar at h
  dsimp only at h
  split_ifs at h <;> simp only [List.mem_cons, List.not_mem_nil, or_false] at h
  · have := byte h
    omega
  · rcases h with h | h <;> have := byte h <;> omega
  · rcases h with h | h | h <;> have := byte h <;> omega
  · rcases h with h | h | h | h <;> have := byte h <;> omega

theorem newline_mem_encode {text : List Char} (h : 10 ∈ encode text) : '\n' ∈ text := by
  obtain ⟨c, hc, hb⟩ := List.mem_flatMap.mp h
  rw [← newline_mem_utf8EncodeChar hb]
  exact hc

end Utf8

/-- Some bytes of a text end between two of its characters, or where it ends. -/
def IsBoundary (text : List Char) (offset : Nat) : Prop :=
  ∃ before after, text = before ++ after ∧ Utf8.byteLength before = offset

end Text

/-! ### Lines and columns of offsets -/

namespace Syntax.Source
open Text.Utf8

theorem lineOf_append (a b : List UInt8) (n : Nat) :
    lineOf ⟨a ++ b⟩ (a.length + n) = a.count 10 + lineOf ⟨b⟩ n := by
  rw [lineOf, lineOf, List.take_length_add_append, List.count_append, Nat.add_assoc]

/-- Columns are counted from the last line feed, whatever stands before it. -/
theorem columnOf_append_newline (a b : List UInt8) (n : Nat) :
    columnOf ⟨a ++ 10 :: b⟩ (a.length + (n + 1)) = columnOf ⟨b⟩ n := by
  have stop (r : List UInt8) : (r ++ 10 :: a.reverse).takeWhile (· ≠ 10) = r.takeWhile (· ≠ 10) := by
    rw [List.takeWhile_append]
    split
    · rename_i all
      rw [List.takeWhile_cons_of_neg (by decide), List.append_nil]
      exact ((List.takeWhile_prefix _).eq_of_length all).symm
    · rfl
  rw [columnOf, columnOf, List.take_length_add_append, List.take_succ_cons, List.reverse_append,
    List.reverse_cons, List.append_assoc, List.singleton_append, stop]

section FirstLine
variable {line : List UInt8} (h : 10 ∉ line) (rest : List UInt8) {n : Nat} (hn : n ≤ line.length)
include h hn

theorem lineOf_first : lineOf ⟨line ++ rest⟩ n = 1 := by
  have none : 10 ∉ line.take n := fun mem => h (List.mem_of_mem_take mem)
  rw [lineOf, List.take_append_of_le_length hn, List.count_eq_zero.mpr none]

theorem columnOf_first : columnOf ⟨line ++ rest⟩ n = n + 1 := by
  have all : ∀ b ∈ (line.take n).reverse, (decide (b ≠ 10)) = true := by
    intro b hb
    have mem := List.mem_of_mem_take (List.mem_reverse.mp hb)
    exact decide_eq_true fun e => h (e ▸ mem)
  rw [columnOf, List.take_append_of_le_length hn, List.takeWhile_eq_self_iff.mpr all,
    List.length_reverse, List.length_take, Nat.min_eq_left hn]

end FirstLine

/-- **An offset lies in the line that its number says.** -/
theorem inside_piece (text : List Char) {n : Nat} (hn : n ≤ (ofText text).bytes.length) :
    ∃ piece, (Text.pieces text)[(ofText text).lineOf n - 1]? = some piece ∧
      (ofText text).columnOf n ≤ 1 + byteLength piece := by
  induction text using Text.line_induction '\n' generalizing n with
  | last line h =>
    have plain : 10 ∉ encode line := fun mem => h (newline_mem_encode mem)
    have first := lineOf_first plain [] hn
    have column := columnOf_first plain [] hn
    rw [List.append_nil] at first column
    refine ⟨line, ?_, ?_⟩
    · rw [ofText, first, Text.pieces_line h]
      rfl
    · rw [ofText, column, ← length_encode, Nat.add_comm 1]
      exact Nat.succ_le_succ hn
  | more line rest h ih =>
    have plain : 10 ∉ encode line := fun mem => h (newline_mem_encode mem)
    have bytes : encode (line ++ '\n' :: rest) = encode line ++ 10 :: encode rest :=
      encode_append line ('\n' :: rest)
    have pieces : Text.pieces (line ++ '\n' :: rest) = line :: Text.pieces rest := by
      rw [Text.pieces_append, Text.pieces_line h, List.singleton_append]
    simp only [ofText, bytes, pieces] at hn ih ⊢
    by_cases here : n ≤ (encode line).length
    · refine ⟨line, ?_, ?_⟩
      · rw [lineOf_first plain _ here]
        rfl
      · rw [columnOf_first plain _ here, ← length_encode, Nat.add_comm 1]
        exact Nat.succ_le_succ here
    · -- the offset lies in the rest, one line further down
      obtain ⟨m, rfl⟩ : ∃ m, n = (encode line).length + (m + 1) :=
        ⟨n - (encode line).length - 1, by omega⟩
      have inRest : m ≤ (encode rest).length := by
        rw [List.length_append, List.length_cons] at hn
        omega
      obtain ⟨piece, number, column⟩ := ih inRest
      have down : lineOf ⟨encode line ++ 10 :: encode rest⟩ ((encode line).length + (m + 1)) =
          lineOf ⟨encode rest⟩ m + 1 := by
        have oneMore : lineOf ⟨10 :: encode rest⟩ (m + 1) = lineOf ⟨encode rest⟩ m + 1 := by
          rw [Nat.add_comm m 1]
          exact (lineOf_append [10] (encode rest) m).trans (Nat.add_comm 1 _)
        rw [lineOf_append, List.count_eq_zero.mpr plain, Nat.zero_add, oneMore]
      refine ⟨piece, ?_, ?_⟩
      · have counted : 0 < lineOf ⟨encode rest⟩ m := Nat.succ_pos _
        rw [down, Nat.add_sub_cancel, ← number]
        obtain ⟨k, hk⟩ := Nat.exists_eq_succ_of_ne_zero (Nat.ne_of_gt counted)
        rw [hk]
        rfl
      · rw [columnOf_append_newline]
        exact column

end Syntax.Source

/-! ### Findings -/

theorem lt_countLines {content : List UInt8} {n : Nat}
    (h : n < (Text.pieces (Text.Utf8.decodeLossy content)).length) : n + 1 ≤ Text.countLines content := by
  rw [Text.length_pieces, ← Text.Utf8.countLines_eq] at h
  exact h

/-- **Reported positions lie inside the file**, whatever bytes it has. A structural rule takes its
positions from the tree, so for it the nodes must begin within the text; a node at the very end
gives the column right behind the last line. -/
theorem positions_lie_inside (path : Path) (language : Language) (content : List UInt8) :
    let text := Text.Utf8.decodeLossy content
    (∀ rule ∈ LineRule.catalog, ∀ f ∈ rule.detect path language content,
      1 ≤ f.line ∧ f.line ≤ Text.countLines content ∧
        ∃ line column, (Text.lines text)[f.line - 1]? = some line ∧ f.column = some column ∧
          1 ≤ column ∧ column ≤ Text.Utf8.byteLength line ∧ Text.IsBoundary line (column - 1)) ∧
      ∀ read : Detector.TreeReader,
        (∀ n ∈ (read language (Dialect.ofPath path) text).nodes,
          n.start ≤ Text.Utf8.byteLength text) →
        ∀ f ∈ (Detector.structural read).detect path language content,
          1 ≤ f.line ∧ f.line ≤ Text.countLines content ∧
            ∃ piece column, (Text.pieces text)[f.line - 1]? = some piece ∧ f.column = some column ∧
              1 ≤ column ∧ column ≤ 1 + Text.Utf8.byteLength piece := by
  intro text
  refine ⟨fun rule mem f hf => ?_, fun read within f hf => ?_⟩
  · have solid := (catalog_endsVisibly mem).nullable
    obtain ⟨n, line, before, hn, first, rfl⟩ :=
      (LineRule.mem_detect solid path language content).mp hf
    obtain ⟨w, after, split, nonempty, -⟩ := first.1
    have bound : n < (Text.pieces text).length :=
      Nat.lt_of_lt_of_le (List.getElem?_eq_some_iff.mp hn).1 (Text.length_lines_le text)
    have fits : Text.Utf8.byteLength before + 1 ≤ Text.Utf8.byteLength line := by
      have pos := Text.Utf8.byteLength_pos nonempty
      rw [split, Text.Utf8.byteLength_append, Text.Utf8.byteLength_append]
      omega
    refine ⟨Nat.succ_pos n, lt_countLines bound, line, _, hn, rfl, Nat.succ_pos _, fits, ?_⟩
    exact ⟨before, w ++ after, by rw [split, List.append_assoc], rfl⟩
  · obtain ⟨rule, -, hf⟩ := List.mem_flatMap.mp hf
    obtain ⟨site, hs, rfl⟩ := List.mem_map.mp hf
    obtain ⟨n, hn, rfl⟩ := StructuralRule.exists_node_of_mem_sites hs
    rw [← Syntax.Tree.nodes_eq_preorder] at hn
    have offset : n.start ≤ (Syntax.Source.ofText text).bytes.length := by
      show n.start ≤ (Text.Utf8.encode text).length
      rw [Text.Utf8.length_encode]
      exact within n hn
    obtain ⟨piece, number, column⟩ := Syntax.Source.inside_piece text offset
    have bound := (List.getElem?_eq_some_iff.mp number).1
    exact ⟨Nat.succ_pos _, lt_countLines bound, piece, _, number, rfl, Nat.succ_pos _, column⟩

/-- A byte that is no text decodes to three, which shifts the columns behind it. -/
theorem positions_lie_inside_torn :
    let path := Path.ofString "a.js"
    let content := 0xFF :: Text.Utf8.encode "innerHTML=b\neval(c)".toList
    let text := Text.Utf8.decodeLossy content
    let structural := Detector.structural secondLineReader
    (∀ n ∈ (secondLineReader .javascript (Dialect.ofPath path) text).nodes,
        n.start ≤ Text.Utf8.byteLength text) ∧
      (∃ rule ∈ LineRule.catalog, ∃ f ∈ rule.detect path .javascript content,
        (f.line, f.column) = (1, some 4) ∧
          ∃ line, (Text.lines text)[0]? = some line ∧ Text.IsBoundary line 3) ∧
      ∃ f ∈ structural.detect path .javascript content,
        (f.line, f.column) = (2, some 1) ∧ 2 ≤ Text.countLines content := by
  intro path content text structural
  obtain ⟨ofLines, ofTrees⟩ := positions_lie_inside path .javascript content
  have within : ∀ n ∈ (secondLineReader .javascript (Dialect.ofPath path) text).nodes,
      n.start ≤ Text.Utf8.byteLength text := by decide +kernel
  have inLine : ∃ rule ∈ LineRule.catalog, ∃ f ∈ rule.detect path .javascript content,
      (f.line, f.column) = (1, some 4) := by decide +kernel
  have inTree : ∃ f ∈ structural.detect path .javascript content,
      (f.line, f.column) = (2, some 1) := by decide +kernel
  obtain ⟨rule, hr, f, hf, place⟩ := inLine
  obtain ⟨g, hg, place'⟩ := inTree
  obtain ⟨-, -, line, column, hline, hcolumn, -, -, boundary⟩ := ofLines rule hr f hf
  obtain ⟨-, bound, -⟩ := ofTrees secondLineReader within g hg
  obtain ⟨first, fourth⟩ := Prod.mk.inj place
  obtain ⟨second, -⟩ := Prod.mk.inj place'
  rw [hcolumn] at fourth
  rw [first] at hline
  rw [Option.some.inj fourth] at boundary
  exact ⟨within, ⟨rule, hr, f, hf, place, line, hline, boundary⟩, g, hg, place', second ▸ bound⟩

end SourceAudit
