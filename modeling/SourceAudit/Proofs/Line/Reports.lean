import SourceAudit.Proofs.Line.Texts

/-! A line rule reports exactly the lines in which its texts occur.

The sites of a rule are those of the lines in which its pattern is found, in the order of the
lines (`mem_sitesFrom`, `sitesFrom_increasing`), and the pattern is found at the first of its
occurrences. What is reported is therefore said without the matcher: one finding for each line
that holds a text of the rule, at the place where the first such text begins. -/
namespace SourceAudit
namespace LineRule

/-! ### Sites -/

theorem site?_line {p : Pattern} {number : Nat} {line : List Char} {site : Site}
    (h : site? p number line = some site) : site.line = number := by
  obtain ⟨offset, -, rfl⟩ := Option.map_eq_some_iff.mp h
  rfl

theorem mem_sitesFrom {p : Pattern} {first : Nat} {lines : List (List Char)} {site : Site} :
    site ∈ sitesFrom p first lines ↔
      ∃ n line, lines[n]? = some line ∧ site? p (first + n) line = some site := by
  induction lines generalizing first with
  | nil => simp [sitesFrom]
  | cons line lines ih =>
    rw [sitesFrom, List.mem_append, Option.mem_toList, ih]
    constructor
    · rintro (h | ⟨n, other, hn, h⟩)
      · exact ⟨0, line, rfl, h⟩
      · refine ⟨n + 1, other, hn, ?_⟩
        rwa [Nat.add_right_comm, Nat.add_assoc] at h
    · rintro ⟨n, other, hn, h⟩
      cases n with
      | zero =>
        obtain rfl := Option.some.inj hn
        exact .inl h
      | succ n =>
        refine .inr ⟨n, other, hn, ?_⟩
        rwa [Nat.add_right_comm, Nat.add_assoc]

/-- The sites stand in the order of the lines, at most one in each. -/
theorem sitesFrom_increasing (p : Pattern) (first : Nat) (lines : List (List Char)) :
    (sitesFrom p first lines).Pairwise (fun a b => a.line < b.line) := by
  induction lines generalizing first with
  | nil => exact .nil
  | cons line lines ih =>
    rw [sitesFrom, List.pairwise_append]
    refine ⟨by cases site? p first line <;> simp, ih (first + 1), ?_⟩
    intro a ha b hb
    obtain ⟨n, other, -, h⟩ := mem_sitesFrom.mp hb
    rw [site?_line (Option.mem_toList.mp ha), site?_line h]
    omega

/-- A line has a site at the first of the pattern's occurrences. -/
theorem site?_eq_some_iff {p : Pattern} (solid : p.nullable = false) {number : Nat}
    {line : List Char} {site : Site} :
    site? p number line = some site ↔
      ∃ before, FirstAfter p.Matches line before ∧
        site = Site.ofText number (Text.Utf8.byteLength before + 1) (String.ofList line) := by
  rw [site?, Option.map_eq_some_iff]
  simp only [Pattern.find?_eq_some_iff solid]
  constructor
  · rintro ⟨_, ⟨before, hfirst, rfl⟩, rfl⟩
    exact ⟨before, hfirst, rfl⟩
  · rintro ⟨before, hfirst, rfl⟩
    exact ⟨_, ⟨before, hfirst, rfl⟩, rfl⟩

end LineRule

/-- Where a text occurs at all, it occurs somewhere first. -/
theorem Pattern.exists_firstAfter {p : Pattern} (solid : p.nullable = false)
    {line before : List Char} (h : OccursAfter p.Matches line before) :
    ∃ first, FirstAfter p.Matches line first := by
  cases hf : p.find? line with
  | none => exact absurd h ((find?_eq_none_iff solid).mp hf before)
  | some n =>
    obtain ⟨first, hfirst, -⟩ := (find?_eq_some_iff solid).mp hf
    exact ⟨first, hfirst⟩

/-! ### Findings -/

namespace LineRule

/-- The finding of a rule in line `n`, counted from zero, right after `before`. -/
def findingAfter (rule : LineRule) (path : Path) (language : Language) (n : Nat)
    (line before : List Char) : Finding :=
  Finding.ofSite rule.info path.display language
    (Site.ofText (n + 1) (Text.Utf8.byteLength before + 1) (String.ofList line))

section Detect
variable {rule : LineRule} (solid : rule.pattern.nullable = false) (path : Path)
  (language : Language) (content : List UInt8)

theorem detect_increasing :
    (rule.detect path language content).Pairwise (fun f g => f.line < g.line) :=
  List.pairwise_map.mpr (sitesFrom_increasing _ _ _)

include solid

theorem mem_detect {f : Finding} :
    f ∈ rule.detect path language content ↔
      ∃ n line before, (Text.lines (Text.Utf8.decodeLossy content))[n]? = some line ∧
        FirstAfter rule.pattern.Matches line before ∧
        f = rule.findingAfter path language n line before := by
  rw [detect, List.mem_map]
  simp only [mem_sitesFrom, site?_eq_some_iff solid]
  constructor
  · rintro ⟨_, ⟨n, line, hn, before, hfirst, rfl⟩, rfl⟩
    refine ⟨n, line, before, hn, hfirst, ?_⟩
    rw [findingAfter, Nat.add_comm n 1]
  · rintro ⟨n, line, before, hn, hfirst, rfl⟩
    refine ⟨_, ⟨n, line, hn, before, hfirst, rfl⟩, ?_⟩
    rw [findingAfter, Nat.add_comm n 1]

/-- A line that holds a text of the rule has exactly one finding. -/
theorem existsUnique_detect {n : Nat} {line before : List Char}
    (hn : (Text.lines (Text.Utf8.decodeLossy content))[n]? = some line)
    (h : OccursAfter rule.pattern.Matches line before) :
    ∃! f, f ∈ rule.detect path language content ∧ f.line = n + 1 := by
  obtain ⟨first, hfirst⟩ := Pattern.exists_firstAfter solid h
  refine ⟨rule.findingAfter path language n line first,
    ⟨(mem_detect solid path language content).mpr ⟨n, line, first, hn, hfirst, rfl⟩, rfl⟩, ?_⟩
  rintro f ⟨hf, hline⟩
  obtain ⟨m, other, before', hm, hfirst', rfl⟩ := (mem_detect solid path language content).mp hf
  obtain rfl : m = n := Nat.succ.inj hline
  obtain rfl : other = line := Option.some.inj (hm.symm.trans hn)
  rw [hfirst'.unique hfirst]

/-- A line that holds no text of the rule has no finding. -/
theorem line_ne_of_mem_detect {n : Nat} {line : List Char}
    (hn : (Text.lines (Text.Utf8.decodeLossy content))[n]? = some line)
    (h : ∀ before, ¬OccursAfter rule.pattern.Matches line before) {f : Finding}
    (hf : f ∈ rule.detect path language content) : f.line ≠ n + 1 := by
  intro hline
  obtain ⟨m, other, before, hm, hfirst, rfl⟩ := (mem_detect solid path language content).mp hf
  obtain rfl : m = n := Nat.succ.inj hline
  obtain rfl : other = line := Option.some.inj (hm.symm.trans hn)
  exact h before hfirst.1

end Detect
end LineRule

/-- **A line rule reports exactly the lines that hold one of its texts**, each once, at the first
place where such a text begins. The texts are listed apart from the patterns, one list for each rule
of the catalog. -/
theorem line_rules_report_exactly (path : Path) (language : Language) (content : List UInt8) :
    List.Forall₂
      (fun rule texts =>
        let lines := Text.lines (Text.Utf8.decodeLossy content)
        let found := rule.detect path language content
        found.Pairwise (fun f g => f.line < g.line) ∧
          (∀ f, f ∈ found ↔ ∃ n line before, lines[n]? = some line ∧
            FirstAfter texts line before ∧
            f = Finding.ofSite rule.info path.display language
              (Site.ofText (n + 1) (Text.Utf8.byteLength before + 1) (String.ofList line))) ∧
          ∀ n line, lines[n]? = some line →
            ((∃ before, OccursAfter texts line before) →
              ∃! f, f ∈ found ∧ f.line = n + 1) ∧
            ((∀ before, ¬OccursAfter texts line before) → ∀ f ∈ found, f.line ≠ n + 1))
      LineRule.catalog [SecretText, QueryText, MarkupText] := by
  refine ((List.forall₂_and_left _ _).mpr ⟨fun _ => catalog_endsVisibly, catalog_texts⟩).imp ?_
  rintro rule _ ⟨visible, rfl⟩
  have solid := visible.nullable
  refine ⟨LineRule.detect_increasing path language content, fun f =>
    LineRule.mem_detect solid path language content, fun n line hn => ⟨?_, ?_⟩⟩
  · rintro ⟨before, h⟩
    exact LineRule.existsUnique_detect solid path language content hn h
  · intro h f hf
    exact LineRule.line_ne_of_mem_detect solid path language content hn h hf

end SourceAudit
