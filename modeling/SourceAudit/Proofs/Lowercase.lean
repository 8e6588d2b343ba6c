import SourceAudit.Proofs.Decoding
import SourceAudit.Proofs.Line.Texts
import SourceAudit.Text.Lowercase

/-! What a lowercase form tells about a text.

The form of a text is not made character by character: a sigma at the end of a word differs from
any other, so a part of a text may have another form than it has alone. But nothing else depends on
the surroundings (`map_plainSigma_lower`), and no sigma is ASCII. So an ASCII word stands in the
form of a text exactly if it stands among the forms of its characters (`infix_lower_iff`), and then
it also stands in the form of every longer text (`infix_lower_append`).

Two characters that are not ASCII have ASCII letters in their forms, the Kelvin sign and the I with
a dot above. The first becomes a k, and a mark follows on the i of the second. A word of small
letters without a k is therefore the form of its case variants only (`lowered_eq_iff`). -/
namespace SourceAudit

/-- Two strings that differ at most in the case of ASCII letters. -/
def CaseVariant (s t : String) : Prop :=
  s.toList.map Char.toLower = t.toList.map Char.toLower

instance (s t : String) : Decidable (CaseVariant s t) :=
  inferInstanceAs (Decidable (s.toList.map Char.toLower = t.toList.map Char.toLower))

namespace Text

/-- All characters are ASCII. -/
def IsAscii (word : List Char) : Prop := ∀ c ∈ word, c.toNat < 128

/-! ### Forms of characters -/

theorem lowerChar_ascii {c : Char} (ascii : c.toNat < 128) : lowerChar c = [c.toLower] :=
  if_pos ascii

theorem toLower_of_high {c : Char} (high : 128 ≤ c.toNat) : c.toLower = c := by
  rw [← Char.toNat_inj, toNat_toLower, if_neg (by omega)]

theorem toLower_ascii_iff {c : Char} : c.toLower.toNat < 128 ↔ c.toNat < 128 := by
  rw [toNat_toLower]
  split <;> omega

/-- Where the rows of the table lead: a row has ASCII capitals, or it is that of the Kelvin sign, or
its forms are characters that are not ASCII. -/
theorem caseRanges_leadOut : ∀ r ∈ caseRanges,
    r.last < 128 ∨ r.lower = 107 ∧ r.first = r.last ∨
      128 ≤ r.lower ∧
        (r.lower + (r.last - r.first) < 0xD800 ∨
          0xDFFF < r.lower ∧ r.lower + (r.last - r.first) < 0x110000) := by
  decide +kernel

theorem CaseRange.covers_iff {r : CaseRange} {n : Nat} :
    r.covers n = true ↔ r.first ≤ n ∧ n ≤ r.last ∧ (n - r.first) % r.step = 0 := by
  simp [covers, and_assoc]

/-- The form of a character that is not ASCII holds another one, or it is a k. -/
theorem exists_mem_lowerChar {c : Char} (high : 128 ≤ c.toNat) :
    ∃ d ∈ lowerChar c, 128 ≤ d.toNat ∨ d = 'k' := by
  unfold lowerChar
  rw [if_neg (by omega)]
  split
  · exact ⟨Char.ofNat 775, by simp, .inl (by decide)⟩
  · split
    · rename_i r found
      refine ⟨_, List.mem_singleton_self _, ?_⟩
      have covered : r.covers c.toNat = true := (List.find?_eq_some_iff_append.mp found).1
      obtain ⟨first, last, -⟩ := CaseRange.covers_iff.mp covered
      unfold CaseRange.lowerOf
      rcases caseRanges_leadOut r (List.mem_of_find?_eq_some found) with
        ascii | ⟨kelvin, single⟩ | ⟨out, valid⟩
      · omega
      · right
        rw [kelvin, show c.toNat - r.first = 0 by omega]
      · left
        exact Utf8.high_ofNat (by omega) (by omega)
    · exact ⟨c, List.mem_singleton_self c, .inl high⟩

/-- Characters that differ in case only have one form. -/
theorem lowerChar_eq_of_toLower {c d : Char} (h : c.toLower = d.toLower) :
    lowerChar c = lowerChar d := by
  by_cases ascii : c.toNat < 128
  · have ascii' : d.toNat < 128 := toLower_ascii_iff.mp (h ▸ toLower_ascii_iff.mpr ascii)
    rw [lowerChar_ascii ascii, lowerChar_ascii ascii', h]
  · have high : ¬d.toNat < 128 := fun ascii' =>
      ascii (toLower_ascii_iff.mp (h ▸ toLower_ascii_iff.mpr ascii'))
    rw [toLower_of_high (Nat.le_of_not_lt ascii), toLower_of_high (Nat.le_of_not_lt high)] at h
    rw [h]

/-! ### Forms of texts -/

/-- The two small sigmas made one. -/
def plainSigma (c : Char) : Char := if c = 'ς' then 'σ' else c

theorem map_plainSigma_lowerAt (before : List Char) (c : Char) (after : List Char) :
    (lowerAt before c after).map plainSigma = (lowerChar c).map plainSigma := by
  unfold lowerAt
  split
  · rename_i ends
    have sigma : c = 'Σ' := of_decide_eq_true (Bool.and_eq_true_iff.mp ends).1
    rw [sigma]
    decide +kernel
  · rfl

theorem map_plainSigma_lowerAfter (before text : List Char) :
    (lowerAfter before text).map plainSigma = (text.flatMap lowerChar).map plainSigma := by
  induction text generalizing before with
  | nil => rfl
  | cons c rest ih =>
    rw [lowerAfter, List.flatMap_cons, List.map_append, List.map_append, map_plainSigma_lowerAt, ih]

/-- Only the form of a sigma depends on what stands around it. -/
theorem map_plainSigma_lower (text : List Char) :
    (lower text).map plainSigma = (text.flatMap lowerChar).map plainSigma :=
  map_plainSigma_lowerAfter [] text

theorem plainSigma_eq_iff {c d : Char} (ascii : c.toNat < 128) : plainSigma d = c ↔ d = c := by
  unfold plainSigma
  split
  · rename_i final
    constructor
    · rintro rfl
      exact absurd ascii (by decide)
    · rintro rfl
      rw [final] at ascii
      exact absurd ascii (by decide)
  · rfl

theorem map_plainSigma_eq_iff {word text : List Char} (ascii : IsAscii word) :
    text.map plainSigma = word ↔ text = word := by
  induction word generalizing text with
  | nil => simp
  | cons c word ih =>
    obtain ⟨first, rest⟩ := List.forall_mem_cons.mp ascii
    cases text with
    | nil => simp
    | cons d text => simp [plainSigma_eq_iff first, ih rest]

theorem infix_map_plainSigma_iff {word text : List Char} (ascii : IsAscii word) :
    word <:+: text.map plainSigma ↔ word <:+: text := by
  rw [List.infix_map_iff]
  constructor
  · intro h
    obtain ⟨part, inside, same⟩ := h
    rwa [← (map_plainSigma_eq_iff ascii).mp same.symm]
  · intro h
    exact ⟨word, h, ((map_plainSigma_eq_iff ascii).mpr rfl).symm⟩

/-- An ASCII word is the form of a text if the forms of the characters make it up. -/
theorem lower_eq_iff {word text : List Char} (ascii : IsAscii word) :
    lower text = word ↔ text.flatMap lowerChar = word := by
  rw [← map_plainSigma_eq_iff ascii, map_plainSigma_lower, map_plainSigma_eq_iff ascii]

/-- An ASCII word stands in the form of a text if it stands among the forms of the characters. -/
theorem infix_lower_iff {word text : List Char} (ascii : IsAscii word) :
    word <:+: lower text ↔ word <:+: text.flatMap lowerChar := by
  rw [← infix_map_plainSigma_iff ascii, map_plainSigma_lower, infix_map_plainSigma_iff ascii]

/-- **An ASCII word that stands in the form of a text is not lost when the text is extended.** -/
theorem infix_lower_append {word text : List Char} (ascii : IsAscii word)
    (h : word <:+: lower text) (before after : List Char) :
    word <:+: lower (before ++ text ++ after) := by
  rw [infix_lower_iff ascii] at h ⊢
  rw [List.flatMap_append, List.flatMap_append]
  exact h.trans (List.infix_append _ _ _)

theorem flatMap_lowerChar_of_caseVariant {s t : String} (h : CaseVariant s t) :
    s.toList.flatMap lowerChar = t.toList.flatMap lowerChar := by
  unfold CaseVariant at h
  generalize s.toList = cs, t.toList = ds at h
  induction cs generalizing ds with
  | nil => rw [List.map_eq_nil_iff.mp h.symm]
  | cons c cs ih =>
    cases ds with
    | nil => cases h
    | cons d ds =>
      obtain ⟨first, rest⟩ := List.cons_eq_cons.mp h
      rw [List.flatMap_cons, List.flatMap_cons, lowerChar_eq_of_toLower first, ih ds rest]

theorem infix_lower_of_caseVariant {word : List Char} (ascii : IsAscii word) {s t : String}
    (h : CaseVariant s t) : word <:+: lower s.toList ↔ word <:+: lower t.toList := by
  rw [infix_lower_iff ascii, infix_lower_iff ascii, flatMap_lowerChar_of_caseVariant h]

/-! ### Words without a k -/

/-- Small ASCII letters, none of which is a k. -/
def isPlainWord (word : List Char) : Bool :=
  word.all fun c => 97 ≤ c.toNat && c.toNat ≤ 122 && c != 'k'

theorem isPlainWord_iff {word : List Char} :
    isPlainWord word = true ↔ ∀ c ∈ word, 97 ≤ c.toNat ∧ c.toNat ≤ 122 ∧ c ≠ 'k' := by
  simp [isPlainWord, and_assoc]

theorem isAscii_of_isPlainWord {word : List Char} (plain : isPlainWord word = true) :
    IsAscii word := by
  intro c mem
  have := isPlainWord_iff.mp plain c mem
  omega

theorem map_toLower_of_isPlainWord {word : List Char} (plain : isPlainWord word = true) :
    word.map Char.toLower = word := by
  have small (c : Char) (mem : c ∈ word) : c.toLower = id c := by
    have := isPlainWord_iff.mp plain c mem
    rw [id, ← Char.toNat_inj, toNat_toLower, if_neg (by omega)]
  rw [List.map_congr_left small, List.map_id]

theorem flatMap_lowerChar_of_isAscii {text : List Char} (ascii : IsAscii text) :
    text.flatMap lowerChar = text.map Char.toLower := by
  induction text with
  | nil => rfl
  | cons c rest ih =>
    obtain ⟨first, others⟩ := List.forall_mem_cons.mp ascii
    rw [List.flatMap_cons, lowerChar_ascii first, ih others]
    rfl

/-- **A plain word is the form of its case variants only.** -/
theorem lower_eq_iff_map_toLower {word text : List Char} (plain : isPlainWord word = true) :
    lower text = word ↔ text.map Char.toLower = word := by
  rw [lower_eq_iff (isAscii_of_isPlainWord plain)]
  constructor
  · intro h
    have ascii : IsAscii text := by
      intro c mem
      by_contra high
      obtain ⟨d, form, out⟩ := exists_mem_lowerChar (Nat.le_of_not_lt high)
      have letter := isPlainWord_iff.mp plain d (h ▸ List.mem_flatMap.mpr ⟨c, mem, form⟩)
      rcases out with out | out
      · omega
      · exact letter.2.2 out
    rw [← flatMap_lowerChar_of_isAscii ascii, h]
  · intro h
    have ascii : IsAscii text := by
      intro c mem
      have := isPlainWord_iff.mp plain c.toLower (h ▸ List.mem_map_of_mem mem)
      exact toLower_ascii_iff.mp (by omega)
    rw [flatMap_lowerChar_of_isAscii ascii, h]

theorem lowered_eq_iff {name : String} (plain : isPlainWord name.toList = true) (s : String) :
    lowered s = name ↔ CaseVariant s name := by
  rw [lowered, CaseVariant, map_toLower_of_isPlainWord plain, ← lower_eq_iff_map_toLower plain,
    ← String.toList_inj, String.toList_ofList]

end Text
end SourceAudit
