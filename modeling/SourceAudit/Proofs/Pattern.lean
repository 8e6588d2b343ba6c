import Mathlib.Data.List.Forall2
import SourceAudit.Pattern

/-! The matcher finds the first text of a pattern.

A derivative belongs to exactly the texts that complete the character taken
(`matches_derivative`), whatever the shortcuts in `andThen` and `orElse` leave out; so `begins`
decides whether a text begins with one of the pattern (`begins_iff`), and the offset that
`find?` gives is that of the first place where one begins (`find?_eq_some_iff`). The texts of
the patterns that are put together from others are described at the end. -/
namespace SourceAudit

/-! ### Occurrences -/

/-- A text of `texts` that is not empty stands in `line` right after `before`. -/
def OccursAfter (texts : List Char → Prop) (line before : List Char) : Prop :=
  ∃ w after, line = before ++ w ++ after ∧ w ≠ [] ∧ texts w

/-- The first place where a text of `texts` stands in `line` is right after `before`. -/
def FirstAfter (texts : List Char → Prop) (line before : List Char) : Prop :=
  OccursAfter texts line before ∧
    ∀ other, OccursAfter texts line other → before.length ≤ other.length

theorem FirstAfter.unique {texts : List Char → Prop} {line a b : List Char}
    (ha : FirstAfter texts line a) (hb : FirstAfter texts line b) : a = b := by
  have hlen := Nat.le_antisymm (ha.2 b hb.1) (hb.2 a ha.1)
  obtain ⟨w, after, hl, -, -⟩ := ha.1
  obtain ⟨w', after', hl', -, -⟩ := hb.1
  rw [List.append_assoc] at hl hl'
  exact (List.append_inj (hl.symm.trans hl') hlen).1

namespace Pattern

/-! ### The texts of each form of pattern -/

theorem matches_never {w : List Char} : Matches .never w ↔ False := by
  constructor
  · intro h
    cases h
  · exact False.elim

theorem matches_empty {w : List Char} : Matches .empty w ↔ w = [] := by
  constructor
  · intro h
    cases h
    rfl
  · rintro rfl
    exact .empty

theorem matches_char {set : CharSet} {w : List Char} :
    Matches (.char set) w ↔ ∃ c, w = [c] ∧ set.contains c = true := by
  constructor
  · intro h
    cases h with
    | char hc => exact ⟨_, rfl, hc⟩
  · rintro ⟨c, rfl, hc⟩
    exact .char hc

theorem matches_seq {p q : Pattern} {w : List Char} :
    Matches (.seq p q) w ↔ ∃ s t, w = s ++ t ∧ Matches p s ∧ Matches q t := by
  constructor
  · intro h
    cases h with
    | seq hs ht => exact ⟨_, _, rfl, hs, ht⟩
  · rintro ⟨s, t, rfl, hs, ht⟩
    exact .seq hs ht

theorem matches_alt {p q : Pattern} {w : List Char} :
    Matches (.alt p q) w ↔ Matches p w ∨ Matches q w := by
  constructor
  · intro h
    cases h with
    | left h => exact .inl h
    | right h => exact .inr h
  · rintro (h | h)
    · exact .left h
    · exact .right h

/-- A text of a star that begins with `c` begins with a text of the pattern that does. -/
theorem matches_star_cons {p : Pattern} {c : Char} {w : List Char} :
    Matches (.star p) (c :: w) ↔ ∃ s t, w = s ++ t ∧ Matches p (c :: s) ∧ Matches (.star p) t := by
  constructor
  · intro h
    generalize hp : Pattern.star p = q at h
    generalize hw : c :: w = v at h
    induction h with
    | empty | char | seq | left | right => cases hp
    | stop => cases hw
    | @more p' s t hs ht _ ih =>
      cases hp
      cases s with
      | nil => exact ih rfl hw
      | cons d s =>
        obtain ⟨rfl, rfl⟩ := List.cons.inj hw
        exact ⟨s, t, rfl, hs, ht⟩
  · rintro ⟨s, t, rfl, hs, ht⟩
    exact Matches.more hs ht

theorem nullable_iff {p : Pattern} : p.nullable = true ↔ Matches p [] := by
  induction p with
  | never => simp [nullable, matches_never]
  | empty => simp [nullable, matches_empty]
  | char set => simp [nullable, matches_char]
  | seq p q ihp ihq => simp [nullable, matches_seq, ihp, ihq]
  | alt p q ihp ihq => simp [nullable, matches_alt, ihp, ihq]
  | star p _ => simp [nullable, Matches.stop]

/-! ### Derivatives -/

theorem matches_andThen {p q : Pattern} {w : List Char} :
    Matches (andThen p q) w ↔ Matches (.seq p q) w := by
  unfold andThen
  split
  · simp [matches_seq, matches_never]
  · simp [matches_seq, matches_never]
  · simp [matches_seq, matches_empty]
  · simp [matches_seq, matches_empty]
  · rfl

theorem matches_of_isAlternative {p q : Pattern} {w : List Char} (h : isAlternative p q = true)
    (hp : Matches p w) : Matches q w := by
  induction q with
  | alt q r ihq ihr =>
    rw [isAlternative, Bool.or_eq_true] at h
    exact matches_alt.mpr (h.imp ihq ihr)
  | never | empty | char | seq | star =>
    simp only [isAlternative, decide_eq_true_eq] at h
    exact h ▸ hp

theorem matches_orElse {p q : Pattern} {w : List Char} :
    Matches (orElse p q) w ↔ Matches p w ∨ Matches q w := by
  unfold orElse
  split
  · simp [matches_never]
  · simp [matches_never]
  · split
    · rename_i h
      exact ⟨.inr, fun hw => hw.elim (matches_of_isAlternative h) id⟩
    · exact matches_alt

/-- **What is left after a character completes it.** -/
theorem matches_derivative {p : Pattern} {c : Char} {w : List Char} :
    Matches (p.derivative c) w ↔ Matches p (c :: w) := by
  induction p generalizing w with
  | never => simp [derivative, matches_never]
  | empty => simp [derivative, matches_never, matches_empty]
  | char set =>
    by_cases h : set.contains c = true
    · simp [derivative, h, matches_empty, matches_char]
    · simp [derivative, h, matches_never, matches_char]
  | alt p q ihp ihq => simp [derivative, matches_orElse, matches_alt, ihp, ihq]
  | star p ihp =>
    rw [derivative, matches_andThen, matches_star_cons, matches_seq]
    simp only [ihp]
  | seq p q ihp ihq =>
    have first : Matches (andThen (p.derivative c) q) w ↔
        ∃ s t, w = s ++ t ∧ Matches p (c :: s) ∧ Matches q t := by
      rw [matches_andThen, matches_seq]
      simp only [ihp]
    -- the text of `p` is empty or takes `c`
    have split : Matches (.seq p q) (c :: w) ↔
        (∃ s t, w = s ++ t ∧ Matches p (c :: s) ∧ Matches q t) ∨
          (Matches p [] ∧ Matches q (c :: w)) := by
      rw [matches_seq]
      constructor
      · rintro ⟨s, t, hw, hs, ht⟩
        cases s with
        | nil => exact .inr ⟨hs, by rw [hw]; exact ht⟩
        | cons d s =>
          obtain ⟨rfl, rfl⟩ := List.cons.inj hw
          exact .inl ⟨s, t, rfl, hs, ht⟩
      · rintro (⟨s, t, rfl, hs, ht⟩ | ⟨hs, ht⟩)
        · exact ⟨c :: s, t, rfl, hs, ht⟩
        · exact ⟨[], c :: w, rfl, hs, ht⟩
    rw [derivative, split, ← nullable_iff]
    by_cases h : p.nullable = true
    · simp only [h, if_true, true_and, matches_orElse, first, ihq]
    · simp only [h, if_false, Bool.false_eq_true, false_and, or_false, first]

/-- A text begins with one of the pattern, perhaps the empty one. -/
theorem begins_iff {p : Pattern} {text : List Char} :
    p.begins text = true ↔ ∃ w after, text = w ++ after ∧ Matches p w := by
  induction text generalizing p with
  | nil =>
    rw [begins, nullable_iff]
    constructor
    · intro h
      exact ⟨[], [], rfl, h⟩
    · rintro ⟨w, after, hw, h⟩
      rwa [(List.append_eq_nil_iff.mp hw.symm).1] at h
  | cons c r ih =>
    rw [begins, Bool.or_eq_true, Bool.and_eq_true, ih, nullable_iff]
    constructor
    · rintro (h | ⟨-, w, after, rfl, h⟩)
      · exact ⟨[], c :: r, rfl, h⟩
      · exact ⟨c :: w, after, rfl, matches_derivative.mp h⟩
    · rintro ⟨w, after, hw, h⟩
      cases w with
      | nil => exact .inl h
      | cons d w =>
        obtain ⟨rfl, rfl⟩ := List.cons.inj hw
        have hne : p ≠ .never := by
          rintro rfl
          exact matches_never.mp h
        exact .inr ⟨by simpa using hne, w, after, rfl, matches_derivative.mpr h⟩

/-! ### The first place -/

theorem firstOffset?_eq_none_iff {test : List Char → Bool} {text : List Char} :
    Text.firstOffset? test text = none ↔
      ∀ before rest, text = before ++ rest → test rest = false := by
  induction text with
  | nil => simp [Text.firstOffset?]
  | cons c r ih =>
    rw [Text.firstOffset?]
    by_cases ht : test (c :: r) = true
    · rw [if_pos ht]
      constructor
      · intro h
        cases h
      · intro h
        rw [h [] (c :: r) rfl] at ht
        cases ht
    · rw [if_neg ht, Option.map_eq_none_iff, ih]
      constructor
      · intro h before rest hr
        cases before with
        | nil =>
          subst hr
          exact Bool.eq_false_iff.mpr ht
        | cons d before => exact h before rest (List.cons.inj hr).2
      · intro h before rest hr
        exact h (c :: before) rest (congrArg (c :: ·) hr)

/-- An offset that is found is that of a rest which passes the test, and no earlier one does. -/
theorem first_of_firstOffset? {test : List Char → Bool} {text : List Char} {n : Nat}
    (h : Text.firstOffset? test text = some n) :
    ∃ before rest, text = before ++ rest ∧ test rest = true ∧ Text.Utf8.byteLength before = n ∧
      ∀ other rest', text = other ++ rest' → test rest' = true → before.length ≤ other.length := by
  induction text generalizing n with
  | nil =>
    rw [Text.firstOffset?] at h
    split at h
    · rename_i ht
      cases h
      exact ⟨[], [], rfl, ht, rfl, fun _ _ _ _ => Nat.zero_le _⟩
    · cases h
  | cons c r ih =>
    rw [Text.firstOffset?] at h
    by_cases ht : test (c :: r) = true
    · rw [if_pos ht] at h
      cases h
      exact ⟨[], c :: r, rfl, ht, rfl, fun _ _ _ _ => Nat.zero_le _⟩
    · rw [if_neg ht] at h
      obtain ⟨m, hm, rfl⟩ := Option.map_eq_some_iff.mp h
      obtain ⟨before, rest, rfl, hrest, rfl, least⟩ := ih hm
      refine ⟨c :: before, rest, rfl, hrest, Nat.add_comm _ _, ?_⟩
      intro other rest' hr ht'
      cases other with
      | nil =>
        rw [List.nil_append] at hr
        exact absurd (hr ▸ ht') ht
      | cons d other =>
        exact Nat.succ_le_succ (least other rest' (List.cons.inj hr).2 ht')

section Find
variable {p : Pattern} (solid : p.nullable = false)
include solid

/-- The places where a pattern begins are those where one of its texts stands, if the empty
text is none of them. -/
theorem occursAfter_iff {line before : List Char} :
    OccursAfter p.Matches line before ↔ ∃ rest, line = before ++ rest ∧ p.begins rest = true := by
  constructor
  · rintro ⟨w, after, hl, -, hw⟩
    exact ⟨w ++ after, by rw [hl, List.append_assoc], begins_iff.mpr ⟨w, after, rfl, hw⟩⟩
  · rintro ⟨rest, rfl, hb⟩
    obtain ⟨w, after, rfl, hw⟩ := begins_iff.mp hb
    refine ⟨w, after, by rw [List.append_assoc], ?_, hw⟩
    rintro rfl
    rw [nullable_iff.mpr hw] at solid
    cases solid

theorem find?_eq_none_iff {line : List Char} :
    p.find? line = none ↔ ∀ before, ¬OccursAfter p.Matches line before := by
  rw [find?, firstOffset?_eq_none_iff]
  simp only [occursAfter_iff solid, not_exists, not_and, Bool.not_eq_true]

/-- **A pattern is found at the first of its occurrences.** -/
theorem find?_eq_some_iff {line : List Char} {n : Nat} :
    p.find? line = some n ↔
      ∃ before, FirstAfter p.Matches line before ∧ Text.Utf8.byteLength before = n := by
  have found : ∀ {m}, p.find? line = some m →
      ∃ before, FirstAfter p.Matches line before ∧ Text.Utf8.byteLength before = m := by
    intro m h
    obtain ⟨before, rest, hl, hb, hm, least⟩ := first_of_firstOffset? h
    refine ⟨before, ⟨(occursAfter_iff solid).mpr ⟨rest, hl, hb⟩, fun other ho => ?_⟩, hm⟩
    obtain ⟨rest', hl', hb'⟩ := (occursAfter_iff solid).mp ho
    exact least other rest' hl' hb'
  refine ⟨found, ?_⟩
  rintro ⟨before, first, rfl⟩
  cases hf : p.find? line with
  | none => exact absurd first.1 ((find?_eq_none_iff solid).mp hf before)
  | some m =>
    obtain ⟨other, first', rfl⟩ := found hf
    rw [first.unique first']

end Find

/-! ### Patterns put together from others -/

theorem matches_sequence_nil {w : List Char} : Matches (sequence []) w ↔ w = [] := matches_empty

theorem matches_sequence_cons {p : Pattern} {ps : List Pattern} {w : List Char} :
    Matches (sequence (p :: ps)) w ↔
      ∃ s t, w = s ++ t ∧ Matches p s ∧ Matches (sequence ps) t := by
  cases ps with
  | nil => simp [sequence, matches_empty]
  | cons q qs => exact matches_seq

theorem matches_choice_nil {w : List Char} : Matches (choice []) w ↔ False := matches_never

theorem matches_choice_cons {p : Pattern} {ps : List Pattern} {w : List Char} :
    Matches (choice (p :: ps)) w ↔ Matches p w ∨ Matches (choice ps) w := by
  cases ps with
  | nil => simp [choice, matches_never]
  | cons q qs => exact matches_alt

theorem matches_option {p : Pattern} {w : List Char} :
    Matches (option p) w ↔ Matches p w ∨ w = [] := by
  rw [option, matches_alt, matches_empty]

theorem matches_star_char {set : CharSet} {w : List Char} :
    Matches (.star (.char set)) w ↔ ∀ c ∈ w, set.contains c = true := by
  induction w with
  | nil => simp [Matches.stop]
  | cons c w ih => simp [matches_star_cons, matches_char, ih]

theorem matches_plus_char {set : CharSet} {w : List Char} :
    Matches (plus (.char set)) w ↔ w ≠ [] ∧ ∀ c ∈ w, set.contains c = true := by
  rw [plus, matches_seq]
  constructor
  · rintro ⟨s, t, rfl, hs, ht⟩
    obtain ⟨c, rfl, hc⟩ := matches_char.mp hs
    exact ⟨by simp, by simpa [hc] using matches_star_char.mp ht⟩
  · rintro ⟨hne, h⟩
    cases w with
    | nil => exact absurd rfl hne
    | cons c w =>
      obtain ⟨hc, hw⟩ := List.forall_mem_cons.mp h
      exact ⟨[c], w, rfl, .char hc, matches_star_char.mpr hw⟩

theorem matches_atLeast_char {set : CharSet} {n : Nat} {w : List Char} :
    Matches (atLeast n (.char set)) w ↔ n ≤ w.length ∧ ∀ c ∈ w, set.contains c = true := by
  induction n generalizing w with
  | zero => simp [atLeast, sequence, matches_star_char]
  | succ n ih =>
    have step : Matches (atLeast (n + 1) (.char set)) w ↔
        ∃ s t, w = s ++ t ∧ Matches (.char set) s ∧ Matches (atLeast n (.char set)) t := by
      rw [atLeast, List.replicate_succ, List.cons_append, matches_sequence_cons, atLeast]
    rw [step]
    simp only [ih, matches_char]
    cases w with
    | nil => simp
    | cons c w => simp [and_left_comm]

/-- A text is that of a word if it has a character for each of the word's, in either case. -/
theorem matches_word {word w : List Char} :
    Matches (Pattern.word word) w ↔
      List.Forall₂ (fun c d => (CharSet.caseless c).contains d = true) word w := by
  induction word generalizing w with
  | nil => rw [List.forall₂_nil_left_iff]; exact matches_sequence_nil
  | cons c word ih =>
    have tail : sequence (word.map fun c => .char (.caseless c)) = Pattern.word word := rfl
    rw [Pattern.word, List.map_cons, matches_sequence_cons, tail]
    simp only [ih, matches_char]
    constructor
    · rintro ⟨_, t, rfl, ⟨d, rfl, hd⟩, ht⟩
      exact .cons hd ht
    · intro h
      cases h with
      | cons hd ht => exact ⟨[_], _, rfl, ⟨_, rfl, hd⟩, ht⟩

end Pattern
end SourceAudit
