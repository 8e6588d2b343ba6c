import Mathlib.Data.List.Basic
import SourceAudit.Text.Lines
import SourceAudit.Text.Utf8

/-! Decoding does not reach past an ASCII byte.

Bytes are read unit by unit (`readUnit`). A unit is one ASCII byte, or else it takes only bytes
that are not ASCII and stands for no ASCII character (`readUnit_ascii`, `readUnit_high`); and
what is read before an ASCII byte does not depend on what follows (`readUnit_append`). So
decoding can be done on the two sides of a line feed (`decodeLossy_append`), and the decoded
text has as many line feeds as the bytes have (`count_newline`). -/
namespace SourceAudit.Text.Utf8

/-! ### Reading one unit -/

/-- Goes on with the next byte if it passes the test; otherwise the part is ill-formed, and
ends before that byte. -/
def expect (test : UInt8 → Bool) (next : UInt8 → List UInt8 → Option Char × List UInt8) :
    List UInt8 → Option Char × List UInt8
  | [] => (none, [])
  | b :: r => if test b then next b r else (none, b :: r)

/-- The first unit of `a :: r`, with the bytes after it. -/
def readUnit (a : UInt8) : List UInt8 → Option Char × List UInt8 :=
  if a < 0x80 then fun r => (some (Char.ofNat a.toNat), r)
  else if a < 0xC2 then fun r => (none, r)
  else if a < 0xE0 then expect isContinuation fun b r => (some (twoBytes a b), r)
  else if a < 0xF0 then
    expect (isSecondOfThree a) fun b => expect isContinuation fun c r =>
      (some (threeBytes a b c), r)
  else if a < 0xF5 then
    expect (isSecondOfFour a) fun b => expect isContinuation fun c =>
      expect isContinuation fun d r => (some (fourBytes a b c d), r)
  else fun r => (none, r)

theorem units_cons (a : UInt8) (r : List UInt8) :
    units (a :: r) = (readUnit a r).1 :: units (readUnit a r).2 := by
  rw [units.eq_def]
  unfold readUnit
  dsimp only
  split_ifs
  · rfl
  · rfl
  · cases r with
    | nil => rfl
    | cons b s => dsimp only [expect]; split_ifs <;> rfl
  · cases r with
    | nil => rfl
    | cons b s =>
      dsimp only [expect]
      split_ifs
      · cases s with
        | nil => rfl
        | cons c t => dsimp only [expect]; split_ifs <;> rfl
      · rfl
  · cases r with
    | nil => rfl
    | cons b s =>
      dsimp only [expect]
      split_ifs
      · cases s with
        | nil => rfl
        | cons c t =>
          dsimp only [expect]
          split_ifs
          · cases t with
            | nil => rfl
            | cons d u => dsimp only [expect]; split_ifs <;> rfl
          · rfl
      · rfl
  · rfl

/-! ### ASCII bytes end a unit -/

theorem isContinuation_iff {b : UInt8} :
    isContinuation b = true ↔ 128 ≤ b.toNat ∧ b.toNat < 192 := by
  simp only [isContinuation, Bool.and_eq_true, decide_eq_true_eq, UInt8.le_iff_toNat_le,
    UInt8.lt_iff_toNat_lt]
  rfl

theorem isSecondOfThree_iff {a b : UInt8} :
    isSecondOfThree a b = true ↔ 128 ≤ b.toNat ∧ b.toNat < 192 ∧
      (a.toNat = 224 → 160 ≤ b.toNat) ∧ (a.toNat = 237 → b.toNat < 160) := by
  simp only [isSecondOfThree, beq_iff_eq, ← UInt8.toNat_inj, UInt8.reduceToNat]
  split_ifs
  · simp only [Bool.and_eq_true, decide_eq_true_eq, UInt8.le_iff_toNat_le, UInt8.lt_iff_toNat_lt,
      UInt8.reduceToNat]
    omega
  · simp only [Bool.and_eq_true, decide_eq_true_eq, UInt8.le_iff_toNat_le, UInt8.lt_iff_toNat_lt,
      UInt8.reduceToNat]
    omega
  · rw [isContinuation_iff]
    omega

theorem isSecondOfFour_iff {a b : UInt8} :
    isSecondOfFour a b = true ↔ 128 ≤ b.toNat ∧ b.toNat < 192 ∧
      (a.toNat = 240 → 144 ≤ b.toNat) ∧ (a.toNat = 244 → b.toNat < 144) := by
  simp only [isSecondOfFour, beq_iff_eq, ← UInt8.toNat_inj, UInt8.reduceToNat]
  split_ifs
  · simp only [Bool.and_eq_true, decide_eq_true_eq, UInt8.le_iff_toNat_le, UInt8.lt_iff_toNat_lt,
      UInt8.reduceToNat]
    omega
  · simp only [Bool.and_eq_true, decide_eq_true_eq, UInt8.le_iff_toNat_le, UInt8.lt_iff_toNat_lt,
      UInt8.reduceToNat]
    omega
  · rw [isContinuation_iff]
    omega

/-- What is read does not depend on what stands from `x` on. -/
def EndsBefore (x : UInt8) (read : List UInt8 → Option Char × List UInt8) : Prop :=
  ∀ r rest, read (r ++ x :: rest) = ((read r).1, (read r).2 ++ x :: rest)

theorem expect_endsBefore {x : UInt8} {test : UInt8 → Bool}
    {next : UInt8 → List UInt8 → Option Char × List UInt8} (fails : test x = false)
    (h : ∀ b, EndsBefore x (next b)) : EndsBefore x (expect test next) := by
  intro r rest
  cases r with
  | nil => simp [expect, fails]
  | cons b r =>
    rw [List.cons_append, expect, expect]
    split_ifs
    · exact h b r rest
    · rfl

theorem readUnit_append (a : UInt8) {x : UInt8} (ascii : x < 0x80) : EndsBefore x (readUnit a) := by
  have low : x.toNat < 128 := UInt8.lt_iff_toNat_lt.mp ascii
  have continuation : isContinuation x = false := by
    rw [Bool.eq_false_iff, ne_eq, isContinuation_iff]
    omega
  have three : isSecondOfThree a x = false := by
    rw [Bool.eq_false_iff, ne_eq, isSecondOfThree_iff]
    omega
  have four : isSecondOfFour a x = false := by
    rw [Bool.eq_false_iff, ne_eq, isSecondOfFour_iff]
    omega
  have done (u : Option Char) : EndsBefore x fun r => (u, r) := fun _ _ => rfl
  unfold readUnit
  split_ifs
  · exact done _
  · exact done _
  · exact expect_endsBefore continuation fun b => done _
  · exact expect_endsBefore three fun b => expect_endsBefore continuation fun c => done _
  · exact expect_endsBefore four fun b => expect_endsBefore continuation fun c =>
      expect_endsBefore continuation fun d => done _
  · exact done _

/-! ### Units that are not ASCII -/

/-- Only bytes that are not ASCII are taken, and they make no ASCII character. -/
def TakesHigh (read : List UInt8 → Option Char × List UInt8) : Prop :=
  ∀ r, ∃ taken, r = taken ++ (read r).2 ∧ (∀ b ∈ taken, 128 ≤ b.toNat) ∧
    ∀ c, (read r).1 = some c → 128 ≤ c.toNat

theorem takesHigh_none : TakesHigh fun r => (none, r) :=
  fun r => ⟨[], rfl, by simp, by simp⟩

theorem takesHigh_some {c : Char} (h : 128 ≤ c.toNat) : TakesHigh fun r => (some c, r) :=
  fun r => ⟨[], rfl, by simp, fun d hd => Option.some.inj hd ▸ h⟩

theorem expect_takesHigh {test : UInt8 → Bool}
    {next : UInt8 → List UInt8 → Option Char × List UInt8}
    (high : ∀ b, test b = true → 128 ≤ b.toNat)
    (h : ∀ b, test b = true → TakesHigh (next b)) : TakesHigh (expect test next) := by
  intro r
  cases r with
  | nil => exact ⟨[], rfl, by simp, by simp [expect]⟩
  | cons b r =>
    rw [expect]
    split_ifs with hb
    · obtain ⟨taken, hr, ht, hc⟩ := h b hb r
      refine ⟨b :: taken, congrArg (b :: ·) hr, ?_, hc⟩
      exact List.forall_mem_cons.mpr ⟨high b hb, ht⟩
    · exact ⟨[], rfl, by simp, by simp⟩

theorem toNat_ofNat {n : Nat} (h : n < 0xD800 ∨ 0xDFFF < n ∧ n < 0x110000) :
    (Char.ofNat n).toNat = n := by
  have valid : n.isValidChar := h
  rw [Char.ofNat, dif_pos valid]
  rfl

theorem high_ofNat {n : Nat} (high : 128 ≤ n) (valid : n < 0xD800 ∨ 0xDFFF < n ∧ n < 0x110000) :
    128 ≤ (Char.ofNat n).toNat := by
  rwa [toNat_ofNat valid]

theorem readUnit_ascii {a : UInt8} (ascii : a < 0x80) (r : List UInt8) :
    readUnit a r = (some (Char.ofNat a.toNat), r) := by
  rw [readUnit, if_pos ascii]

theorem readUnit_high {a : UInt8} (high : ¬a < 0x80) : TakesHigh (readUnit a) := by
  have continuation {b : UInt8} (hb : isContinuation b = true) : 128 ≤ b.toNat :=
    (isContinuation_iff.mp hb).1
  unfold readUnit
  simp only [UInt8.lt_iff_toNat_lt, UInt8.reduceToNat] at high ⊢
  split_ifs with h₂ h₃ h₄ h₅
  · exact takesHigh_none
  · refine expect_takesHigh (fun b => continuation) fun b hb => takesHigh_some ?_
    have := isContinuation_iff.mp hb
    exact high_ofNat (by unfold payload; omega) (by unfold payload; omega)
  · refine expect_takesHigh (fun b hb => (isSecondOfThree_iff.mp hb).1) fun b hb =>
      expect_takesHigh (fun c => continuation) fun c hc => takesHigh_some ?_
    have := isSecondOfThree_iff.mp hb
    exact high_ofNat (by unfold payload; omega) (by unfold payload; omega)
  · refine expect_takesHigh (fun b hb => (isSecondOfFour_iff.mp hb).1) fun b hb =>
      expect_takesHigh (fun c => continuation) fun c hc =>
        expect_takesHigh (fun d => continuation) fun d hd => takesHigh_some ?_
    have := isSecondOfFour_iff.mp hb
    exact high_ofNat (by unfold payload; omega) (by unfold payload; omega)
  · exact takesHigh_none

/-! ### Reading all units -/

theorem length_readUnit_le (a : UInt8) (r : List UInt8) : (readUnit a r).2.length ≤ r.length := by
  by_cases ascii : a < 0x80
  · exact Nat.le_of_eq (by rw [readUnit_ascii ascii])
  · obtain ⟨taken, hr, -, -⟩ := readUnit_high ascii r
    have := congrArg List.length hr
    rw [List.length_append] at this
    omega

/-- Induction along the units. -/
theorem unit_induction {P : List UInt8 → Prop} (nil : P [])
    (cons : ∀ a r, P (readUnit a r).2 → P (a :: r)) : ∀ bytes, P bytes
  | [] => nil
  | a :: r =>
    have := length_readUnit_le a r
    cons a r (unit_induction nil cons (readUnit a r).2)
termination_by bytes => bytes.length

/-- **Decoding may be split before an ASCII byte.** -/
theorem units_append {x : UInt8} (ascii : x < 0x80) (a b : List UInt8) :
    units (a ++ x :: b) = units a ++ some (Char.ofNat x.toNat) :: units b := by
  induction a using unit_induction with
  | nil => rw [List.nil_append, units_cons, readUnit_ascii ascii]; rfl
  | cons c r ih =>
    rw [List.cons_append, units_cons, readUnit_append c ascii r b, units_cons c r, ih]
    rfl

theorem decodeLossy_append (a b : List UInt8) :
    decodeLossy (a ++ 10 :: b) = decodeLossy a ++ '\n' :: decodeLossy b := by
  rw [decodeLossy, units_append (by decide), List.map_append, List.map_cons]
  rfl

/-- The decoded text has the line feeds of the bytes. -/
theorem count_newline (bytes : List UInt8) : (decodeLossy bytes).count '\n' = bytes.count 10 := by
  induction bytes using unit_induction with
  | nil => rfl
  | cons a r ih =>
    have step : decodeLossy (a :: r) =
        (readUnit a r).1.getD '�' :: decodeLossy (readUnit a r).2 := by
      rw [decodeLossy, units_cons, List.map_cons, decodeLossy]
    rw [step, List.count_cons, List.count_cons, ih]
    have small := a.toNat_lt
    by_cases ascii : a < 0x80
    · have head : Char.ofNat a.toNat = '\n' ↔ a = 10 := by
        rw [← Char.toNat_inj, toNat_ofNat (by omega), ← UInt8.toNat_inj]
        rfl
      simp only [readUnit_ascii ascii, Option.getD_some, beq_iff_eq, head]
    · obtain ⟨taken, hr, ht, hc⟩ := readUnit_high ascii r
      have none_taken : taken.count 10 = 0 :=
        List.count_eq_zero.mpr fun h => absurd (ht 10 h) (by decide)
      have head : (readUnit a r).1.getD '�' ≠ '\n' := by
        cases hu : (readUnit a r).1 with
        | none => decide
        | some c =>
          rintro rfl
          exact absurd (hc _ hu) (by decide)
      have first : a ≠ 10 := by
        rintro rfl
        exact ascii (by decide)
      have count := congrArg (List.count 10) hr
      rw [List.count_append, none_taken, Nat.zero_add] at count
      simp [head, first, count]

/-- Well-formed bytes have characters as their units. -/
theorem decode?_eq_some_iff {bytes : List UInt8} {text : List Char} :
    decode? bytes = some text ↔ units bytes = text.map some := by
  unfold decode?
  generalize units bytes = parts
  induction parts generalizing text with
  | nil => cases text <;> simp
  | cons part parts ih =>
    rw [List.mapM_cons]
    cases part with
    | none => cases text <;> simp
    | some c =>
      cases text with
      | nil => cases parts.mapM id <;> simp
      | cons d text =>
        have rest : parts.mapM id = some text ↔ parts = text.map some := ih
        cases whole : parts.mapM id <;> simp_all

/-- A file has one line more than its text has line feeds. -/
theorem countLines_eq (bytes : List UInt8) :
    countLines bytes = (decodeLossy bytes).count '\n' + 1 := by
  rw [count_newline, countLines]

end SourceAudit.Text.Utf8
