import SourceAudit.Proofs.Decoding
import SourceAudit.Proofs.Line.Texts

/-! Line rules look at one line at a time.

All that a line rule looks for ends in a character that is not blank, so a blank at the end of
a line changes neither whether something is found nor what is shown of the line
(`site?_append_blank`), and an empty line has no site. It does therefore not matter that the end
of a line may hold a carriage return (`sitesFrom_of_areLinesOf`), or that an empty last line is not
a line: the sites of a text are those of the pieces between its line feeds (`sitesFrom_lines`),
which can be taken apart at any line feed. -/
namespace SourceAudit

/-! ### Pieces -/

namespace Text

theorem pieces_ne_nil (text : List Char) : pieces text ≠ [] := by
  cases text with
  | nil => simp [pieces]
  | cons c r =>
    rw [pieces]
    split
    · simp
    · split <;> simp

theorem pieces_append (a b : List Char) : pieces (a ++ '\n' :: b) = pieces a ++ pieces b := by
  induction a with
  | nil => simp [pieces]
  | cons c r ih =>
    rw [List.cons_append, pieces, pieces, ih]
    split
    · rfl
    · obtain ⟨p, ps, hp⟩ := List.exists_cons_of_ne_nil (pieces_ne_nil r)
      rw [hp]
      rfl

theorem length_pieces (text : List Char) : (pieces text).length = text.count '\n' + 1 := by
  induction text with
  | nil => rfl
  | cons c r ih =>
    rw [pieces, List.count_cons]
    split
    · rename_i h
      simp [h, ih]
    · rename_i h
      obtain ⟨p, ps, hp⟩ := List.exists_cons_of_ne_nil (pieces_ne_nil r)
      rw [hp] at ih ⊢
      simpa [h] using ih

theorem pieces_line {line : List Char} (h : '\n' ∉ line) : pieces line = [line] := by
  induction line with
  | nil => rfl
  | cons c rest ih =>
    have hc : c ≠ '\n' := fun e => h (e ▸ List.mem_cons_self)
    rw [pieces, if_neg hc, ih fun hr => h (List.mem_cons_of_mem c hr)]

/-- What holds of a single line, and of a line before anything it holds of, holds of all that is
made of lines with `feed` between them: of texts and of bytes. -/
theorem line_induction {α : Type} (feed : α) {P : List α → Prop} (last : ∀ line, feed ∉ line → P line)
    (more : ∀ line rest, feed ∉ line → P rest → P (line ++ feed :: rest)) (text : List α) :
    P text := by
  by_cases h : feed ∈ text
  · obtain ⟨line, rest, split, hline⟩ := List.eq_append_cons_of_mem h
    have shorter : rest.length < text.length := by
      rw [split, List.length_append, List.length_cons]
      omega
    rw [split]
    exact more line rest hline (line_induction feed last more rest)
  · exact last text h
termination_by text.length

/-- A piece is its line, perhaps with a carriage return behind. -/
def IsLineOf (line piece : List Char) : Prop := piece = line ∨ piece = line ++ ['\r']

theorem isLineOf_dropReturn (piece : List Char) : IsLineOf (dropReturn piece) piece := by
  unfold dropReturn
  split
  · rename_i h
    exact .inr (List.dropLast_append_getLast? _ h).symm
  · exact .inl rfl

/-! ### Excerpts -/

theorem trim_append_blank {c : Char} (blank : isBlank c = true) (text : List Char) :
    trim (text ++ [c]) = trim text := by
  rw [trim, trim, List.dropWhile_append]
  split
  · rename_i h
    rw [List.isEmpty_iff.mp h]
    simp [blank]
  · simp [trimRight, blank]

theorem snippet_append_blank {c : Char} (blank : isBlank c = true) (limit : Nat)
    (text : List Char) :
    snippet limit (String.ofList (text ++ [c])) = snippet limit (String.ofList text) := by
  simp only [snippet, excerpt, String.toList_ofList, trim_append_blank blank]

end Text

/-! ### A blank at the end of a line -/

section Blank
variable {p : Pattern} (visible : EndsVisibly p.Matches) {c : Char}
  (blank : Text.isBlank c = true)
include visible blank

theorem Pattern.begins_append_blank (text : List Char) :
    p.begins (text ++ [c]) = p.begins text := by
  rw [Bool.eq_iff_iff, begins_iff, begins_iff]
  constructor
  · rintro ⟨w, after, hw, h⟩
    obtain ⟨init, last, rfl, hlast⟩ := visible w h
    -- the blank is not the last character of `w`, so it comes after `w`
    rcases List.eq_nil_or_concat after with rfl | ⟨after, d, rfl⟩
    · rw [List.append_nil] at hw
      rw [← (List.cons.inj (List.append_inj' hw rfl).2).1, blank] at hlast
      cases hlast
    · rw [List.concat_eq_append, ← List.append_assoc] at hw
      exact ⟨init ++ [last], after, (List.append_inj' hw rfl).1, h⟩
  · rintro ⟨w, after, rfl, h⟩
    exact ⟨w, after ++ [c], List.append_assoc .., h⟩

theorem Pattern.find?_append_blank (text : List Char) :
    p.find? (text ++ [c]) = p.find? text := by
  have same := begins_append_blank visible blank
  have nothing : p.begins [] = false := visible.nullable
  unfold find?
  induction text with
  | nil =>
    have alone : p.begins [c] = false := (same []).trans nothing
    simp [Text.firstOffset?, nothing, alone]
  | cons d text ih =>
    rw [List.cons_append, Text.firstOffset?, Text.firstOffset?, ih, ← List.cons_append, same]

theorem LineRule.site?_append_blank (number : Nat) (line : List Char) :
    site? p number (line ++ [c]) = site? p number line := by
  simp only [site?, Pattern.find?_append_blank visible blank, Site.ofText,
    Text.snippet_append_blank blank]

end Blank

/-! ### Sites -/

namespace LineRule

theorem sitesFrom_append (p : Pattern) (first : Nat) (a b : List (List Char)) :
    sitesFrom p first (a ++ b) = sitesFrom p first a ++ sitesFrom p (first + a.length) b := by
  induction a generalizing first with
  | nil => rfl
  | cons line a ih =>
    rw [List.cons_append, sitesFrom, sitesFrom, ih, List.append_assoc, List.length_cons,
      Nat.add_assoc first 1, Nat.add_comm 1]

/-- Numbering the lines from further on moves the sites. -/
theorem sitesFrom_add (p : Pattern) (first n : Nat) (lines : List (List Char)) :
    sitesFrom p (first + n) lines =
      (sitesFrom p first lines).map fun s => { s with line := s.line + n } := by
  induction lines generalizing first with
  | nil => rfl
  | cons line lines ih =>
    rw [sitesFrom, sitesFrom, List.map_append, Nat.add_right_comm, ih]
    congr 1
    cases hf : p.find? line <;> simp [site?, hf, Site.ofText]

section Visible
variable {p : Pattern} (visible : EndsVisibly p.Matches)
include visible

theorem site?_of_isLineOf {line piece : List Char} (h : Text.IsLineOf line piece) (number : Nat) :
    site? p number piece = site? p number line := by
  rcases h with rfl | rfl
  · rfl
  · exact site?_append_blank visible (by decide) number line

/-- Carriage returns at the ends of lines change no site. -/
theorem sitesFrom_of_areLinesOf {lines pieces : List (List Char)}
    (h : List.Forall₂ Text.IsLineOf lines pieces) (first : Nat) :
    sitesFrom p first pieces = sitesFrom p first lines := by
  induction h generalizing first with
  | nil => rfl
  | cons same _ ih => rw [sitesFrom, sitesFrom, ih, site?_of_isLineOf visible same]

/-- **The sites in the lines of a text are those in its pieces.** -/
theorem sitesFrom_lines (first : Nat) (text : List Char) :
    sitesFrom p first (Text.lines text) = sitesFrom p first (Text.pieces text) := by
  obtain ⟨init, last, hp⟩ : ∃ init last, Text.pieces text = init ++ [last] :=
    ⟨_, _, (List.dropLast_append_getLast (Text.pieces_ne_nil text)).symm⟩
  have empty : p.find? [] = none := by
    have nothing : p.begins [] = false := visible.nullable
    simp [Pattern.find?, Text.firstOffset?, nothing]
  have returns : List.Forall₂ Text.IsLineOf (init.map Text.dropReturn) init :=
    List.forall₂_map_left_iff.mpr
      (List.forall₂_same.mpr fun piece _ => Text.isLineOf_dropReturn piece)
  simp only [Text.lines, hp, List.dropLast_concat, List.getLast?_concat, Option.toList_some]
  rw [sitesFrom_append, sitesFrom_append, ← sitesFrom_of_areLinesOf visible returns,
    List.length_map]
  congr 1
  by_cases hl : last = []
  · simp [hl, sitesFrom, site?, empty]
  · simp [hl]

end Visible
end LineRule

/-! ### Findings -/

/-- The finding `n` lines further down. -/
def Finding.movedDown (n : Nat) (f : Finding) : Finding :=
  { f with line := f.line + n, id := idOf f.file f.kind (f.line + n) }

/-- **Line rules are local to lines.** Whatever bytes stand before and after a line feed, the
findings of a rule of the catalog are those in what is before, followed by those in what is
after, moved down by the number of lines before. -/
theorem detect_splits_at_newline {rule : LineRule} (h : rule ∈ LineRule.catalog) (path : Path)
    (language : Language) (before after : List UInt8) :
    rule.detect path language (before ++ 10 :: after) =
      rule.detect path language before ++
        (rule.detect path language after).map (Finding.movedDown (Text.countLines before)) := by
  have visible := catalog_endsVisibly h
  unfold LineRule.detect
  rw [Text.Utf8.decodeLossy_append, LineRule.sitesFrom_lines visible,
    LineRule.sitesFrom_lines visible, LineRule.sitesFrom_lines visible, Text.pieces_append,
    LineRule.sitesFrom_append, Text.length_pieces, ← Text.Utf8.countLines_eq,
    LineRule.sitesFrom_add, List.map_append, List.map_map, List.map_map]
  rfl

/-- A file whose first line ends within a character and whose second one goes on with the
rest of it. -/
theorem detect_splits_at_newline_torn :
    let rule := LineRule.catalog.get ⟨2, by decide⟩
    let path := Path.ofString "a.js"
    let before := Text.Utf8.encode "a.innerHTML=b".toList ++ [0xE2, 0x82]
    let after := 0xAC :: Text.Utf8.encode "c.innerHTML=d\r".toList
    rule ∈ LineRule.catalog ∧
      (rule.detect path .javascript (before ++ 10 :: after)).map (fun f => (f.line, f.column)) =
        [(1, some 3), (2, some 6)] ∧
      rule.detect path .javascript (before ++ 10 :: after) =
        rule.detect path .javascript before ++
          (rule.detect path .javascript after).map (Finding.movedDown (Text.countLines before)) :=
  ⟨List.get_mem .., by decide +kernel, detect_splits_at_newline (List.get_mem ..) _ _ _ _⟩

end SourceAudit
