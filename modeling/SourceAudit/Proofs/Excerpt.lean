import Mathlib.Data.List.DropRight
import SourceAudit.Site

/-! Excerpts are short, and begin and end with something to see.

An excerpt is a trimmed text, or the beginning of one with three dots behind it. Trimming takes
the blanks from both ends, and what is cut off at the end is made up for by the dots; so an
excerpt is never longer than its limit and the dots, and it is trimmed itself. An excerpt of an
excerpt is therefore cut from the text that was cut before, and a second cut at a lower limit, or at
the same one, leaves no trace of the first (`excerpt_excerpt`). -/
namespace SourceAudit.Text

/-! ### Trimming -/

/-- A text that neither begins nor ends with a blank. -/
structure IsTrimmed (text : List Char) : Prop where
  first : ∀ c, text.head? = some c → isBlank c = false
  last : ∀ c, text.getLast? = some c → isBlank c = false

/-- What stands first after the blanks at the beginning is none, and trimming the end keeps it. -/
theorem trim_isTrimmed (text : List Char) : IsTrimmed (trim text) := by
  refine ⟨fun c hc => ?_, fun c hc => ?_⟩
  · obtain ⟨blanks, hsplit⟩ := List.rdropWhile_prefix isBlank (text.dropWhile isBlank)
    have hfirst : (text.dropWhile isBlank).head? = some c := by
      rw [← hsplit, List.head?_append]
      show (trim text).head?.or _ = some c
      rw [hc]
      rfl
    have hnot := List.head?_dropWhile_not isBlank text
    rw [hfirst] at hnot
    exact hnot
  · have hne : trim text ≠ [] := by
      intro h
      rw [h] at hc
      cases hc
    have hlast : (trim text).getLast hne = c := by
      rw [List.getLast?_eq_getLast_of_ne_nil hne] at hc
      exact Option.some.inj hc
    have hnot := List.rdropWhile_last_not isBlank (text.dropWhile isBlank) hne
    rw [← hlast]
    exact Bool.eq_false_iff.mpr hnot

theorem trim_of_isTrimmed {text : List Char} (h : IsTrimmed text) : trim text = text := by
  have front : text.dropWhile isBlank = text := by
    cases text with
    | nil => rfl
    | cons c rest => exact List.dropWhile_cons_of_neg (Bool.eq_false_iff.mp (h.first c rfl))
  unfold trim
  rw [front]
  refine List.rdropWhile_eq_self_iff.mpr fun hne => Bool.eq_false_iff.mp (h.last _ ?_)
  exact List.getLast?_eq_getLast_of_ne_nil hne

/-- A text is `core` between blanks, and `core` neither begins nor ends with one. -/
structure Trims (text core : List Char) : Prop where
  around : ∃ before after, text = before ++ core ++ after ∧
    (∀ c ∈ before, isBlank c = true) ∧ ∀ c ∈ after, isBlank c = true
  trimmed : IsTrimmed core

theorem trims_trim (text : List Char) : Trims text (trim text) where
  around := by
    let inner := text.dropWhile isBlank
    refine ⟨text.takeWhile isBlank, inner.rtakeWhile isBlank, ?_, fun c => List.mem_takeWhile_imp,
      fun c => List.mem_rtakeWhile_imp⟩
    have back : trim text ++ inner.rtakeWhile isBlank = inner :=
      List.rdropWhile_append_rtakeWhile
    rw [List.append_assoc, back, List.takeWhile_append_dropWhile]
  trimmed := trim_isTrimmed text

/-! ### Cutting -/

theorem excerpt_of_le {limit : Nat} {text : List Char} (h : (trim text).length ≤ limit) :
    excerpt limit text = trim text :=
  if_pos h

theorem excerpt_of_lt {limit : Nat} {text : List Char} (h : limit < (trim text).length) :
    excerpt limit text = (trim text).take limit ++ ['.', '.', '.'] :=
  if_neg (Nat.not_le_of_lt h)

theorem length_excerpt_le (limit : Nat) (text : List Char) :
    (excerpt limit text).length ≤ limit + 3 := by
  rcases Nat.lt_or_ge limit (trim text).length with cut | fits
  · rw [excerpt_of_lt cut, List.length_append, List.length_take]
    exact Nat.add_le_add_right (Nat.min_le_left ..) 3
  · rw [excerpt_of_le fits]
    exact Nat.le_add_right_of_le fits

theorem excerpt_isTrimmed (limit : Nat) (text : List Char) : IsTrimmed (excerpt limit text) := by
  have htrim := trim_isTrimmed text
  have hdot : isBlank '.' = false := by decide
  rcases Nat.lt_or_ge limit (trim text).length with cut | fits
  · rw [excerpt_of_lt cut]
    refine ⟨fun c hc => ?_, fun c hc => ?_⟩
    · -- nothing is left before the dots only if the limit is zero
      cases limit with
      | zero =>
        obtain rfl : '.' = c := Option.some.inj hc
        exact hdot
      | succ n =>
        cases htext : trim text with
        | nil =>
          rw [htext] at cut
          exact absurd cut (Nat.not_lt_zero _)
        | cons d rest =>
          rw [htext] at hc
          obtain rfl : d = c := Option.some.inj hc
          exact htrim.first d (by rw [htext]; rfl)
    · have hlast : ((trim text).take limit ++ ['.', '.', '.']).getLast? = some '.' := by simp
      obtain rfl : '.' = c := Option.some.inj (hlast.symm.trans hc)
      exact hdot
  · rw [excerpt_of_le fits]
    exact htrim

/-- **A second cut leaves no trace of a first one at a limit that was not lower.** -/
theorem excerpt_excerpt {n m : Nat} (h : n ≤ m) (text : List Char) :
    excerpt n (excerpt m text) = excerpt n text := by
  have again : trim (excerpt m text) = excerpt m text :=
    trim_of_isTrimmed (excerpt_isTrimmed m text)
  rcases Nat.lt_or_ge m (trim text).length with cut | fits
  · have first : excerpt m text = (trim text).take m ++ ['.', '.', '.'] := excerpt_of_lt cut
    have kept : ((trim text).take m).length = m := List.length_take_of_le (Nat.le_of_lt cut)
    -- the dots alone make it too long for any limit up to `m`
    have long : n < (trim (excerpt m text)).length := by
      rw [again, first, List.length_append, kept]
      exact Nat.lt_of_le_of_lt h (Nat.lt_add_of_pos_right (by decide))
    calc excerpt n (excerpt m text)
      _ = (excerpt m text).take n ++ ['.', '.', '.'] := by rw [excerpt_of_lt long, again]
      _ = ((trim text).take m).take n ++ ['.', '.', '.'] := by
        rw [first, List.take_append_of_le_length (by rw [kept]; exact h)]
      _ = (trim text).take n ++ ['.', '.', '.'] := by rw [List.take_take, Nat.min_eq_left h]
      _ = excerpt n text := (excerpt_of_lt (Nat.lt_of_le_of_lt h cut)).symm
  · rw [excerpt_of_le fits] at again ⊢
    rw [excerpt, again, excerpt]

/-- **Snippets are cut consistently.** A snippet of a snippet is the snippet of the text, because a
cut keeps the beginning and its dots keep the text too long for a lower limit. -/
theorem snippets_cut_consistently (text : String) {n m : Nat} (h : n ≤ m) :
    snippet n (snippet m text) = snippet n text ∧
      (∃ core, Trims text.toList core ∧
        (core.length ≤ n → (snippet n text).toList = core) ∧
        (n < core.length → (snippet n text).toList = core.take n ++ "...".toList)) ∧
      (snippet n text).toList.length ≤ n + 3 ∧
      IsTrimmed (snippet n text).toList := by
  have chars (limit : Nat) (s : String) : (snippet limit s).toList = excerpt limit s.toList :=
    String.toList_ofList
  refine ⟨?_, ⟨trim text.toList, trims_trim _, fun fits => ?_, fun cut => ?_⟩, ?_, ?_⟩
  · show String.ofList (excerpt n (snippet m text).toList) = _
    rw [chars, excerpt_excerpt h]
    rfl
  · rw [chars, excerpt_of_le fits]
  · rw [chars, excerpt_of_lt cut]
    rfl
  · rw [chars]
    exact length_excerpt_le n text.toList
  · rw [chars]
    exact excerpt_isTrimmed n text.toList

/-- Both cuts fall behind a space, the second one within what the first one left. -/
theorem snippets_cut_consistently_twice :
    let text := "\té è ù\n"
    2 ≤ 4 ∧ snippet 4 text = "é è ..." ∧ snippet 2 text = "é ..." ∧
      snippet 2 (snippet 4 text) = snippet 2 text := by
  intro text
  have le : 2 ≤ 4 := by decide
  exact ⟨le, by decide +kernel, by decide +kernel, (snippets_cut_consistently text le).1⟩

end SourceAudit.Text

namespace SourceAudit.Site

theorem ofText_snippet_length (line column : Nat) (text : String) :
    (ofText line column text).snippet.toList.length ≤ snippetLimit + 3 := by
  rw [ofText, Text.snippet, String.toList_ofList]
  exact Text.length_excerpt_le _ _

theorem ofText_snippet_isTrimmed (line column : Nat) (text : String) :
    Text.IsTrimmed (ofText line column text).snippet.toList := by
  rw [ofText, Text.snippet, String.toList_ofList]
  exact Text.excerpt_isTrimmed _ _

end SourceAudit.Site
