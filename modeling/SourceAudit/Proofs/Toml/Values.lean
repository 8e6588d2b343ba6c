import SourceAudit.Proofs.Json.RoundTrip
import SourceAudit.Toml.Reader

/-! Values on a line are read back.

Strings, lists of strings and numbers have one way here in which they are written (`Plain.written`),
and are read back from it before a line end (`Plain.readValue_written`). -/
namespace SourceAudit.Toml

/-! ### Strings -/

/-- How a character is written in a string. -/
def quotedChar (c : Char) : List Char :=
  if c = '"' ∨ c = '\\' then ['\\', c]
  else if isPlain c then [c]
  else ['\\', 'u', '0', '0', Json.hexDigit (c.toNat / 16), Json.hexDigit c.toNat]

def quoted (s : String) : List Char := '"' :: (s.toList.flatMap quotedChar ++ ['"'])

theorem hexNumber?_control : ∀ n < 0x80,
    (hexNumber? ['0', '0', Json.hexDigit (n / 16), Json.hexDigit n]).bind charOf? =
      some (Char.ofNat n) := by
  decide +kernel

theorem readEscape_control {c : Char} (small : c.toNat < 0x80) (text : List Char) :
    readEscape ('u' :: '0' :: '0' :: Json.hexDigit (c.toNat / 16) :: Json.hexDigit c.toNat :: text) =
      some (c, text) := by
  obtain ⟨n, number, char⟩ := Option.bind_eq_some_iff.mp (hexNumber?_control c.toNat small)
  rw [Char.ofNat_toNat] at char
  simp [readEscape, hexChar?, number, char]

theorem readBasic_escape {c : Char} {r s : List Char} (h : readEscape r = some (c, s))
    (steps : Nat) :
    readBasic (steps + 1) ('\\' :: r) = (readBasic steps s).map fun p => (c :: p.1, p.2) := by
  rw [readBasic, h]
  show (readBasic steps s).bind _ = _
  cases readBasic steps s <;> rfl

/-- A character is read back from the way it is written in a string. -/
theorem readBasic_quotedChar (c : Char) (steps : Nat) (text : List Char) :
    readBasic (steps + 1) (quotedChar c ++ text) =
      (readBasic steps text).map fun p => (c :: p.1, p.2) := by
  unfold quotedChar
  split_ifs with special plain
  · rcases special with rfl | rfl
    · exact readBasic_escape rfl steps
    · exact readBasic_escape rfl steps
  · obtain ⟨quote, backslash⟩ := not_or.mp special
    show readBasic (steps + 1) (c :: text) = _
    rw [readBasic, if_pos plain]
    · exact quote
    · exact backslash
  · have small : c.toNat < 0x80 := by
      simp only [isPlain, Bool.or_eq_true, Bool.and_eq_true, decide_eq_true_eq, not_or,
        not_and] at plain
      omega
    exact readBasic_escape (readEscape_control small text) steps

theorem readBasic_quoted {cs : List Char} {steps : Nat} (enough : cs.length < steps)
    (rest : List Char) :
    readBasic steps (cs.flatMap quotedChar ++ '"' :: rest) = some (cs, rest) := by
  induction cs generalizing steps with
  | nil =>
    obtain ⟨n, rfl⟩ := Nat.exists_eq_succ_of_ne_zero (Nat.ne_zero_of_lt enough)
    rfl
  | cons c cs ih =>
    obtain ⟨n, rfl⟩ := Nat.exists_eq_succ_of_ne_zero (Nat.ne_zero_of_lt enough)
    rw [List.flatMap_cons, List.append_assoc, readBasic_quotedChar,
      ih (Nat.lt_of_succ_lt_succ enough)]
    rfl

theorem quotedChar_eq_cons (c : Char) : ∃ d ds, quotedChar c = d :: ds ∧ d ≠ '"' := by
  unfold quotedChar
  split_ifs with special plain
  · exact ⟨_, _, rfl, by decide⟩
  · exact ⟨_, _, rfl, (not_or.mp special).1⟩
  · exact ⟨_, _, rfl, by decide⟩

theorem length_le_flatMap_quotedChar (cs : List Char) :
    cs.length ≤ (cs.flatMap quotedChar).length := by
  induction cs with
  | nil => exact Nat.le_refl 0
  | cons c cs ih =>
    obtain ⟨d, ds, written, -⟩ := quotedChar_eq_cons c
    rw [List.flatMap_cons, written]
    simp only [List.length_cons, List.length_append]
    omega

theorem quoted_append (s : String) (rest : List Char) :
    quoted s ++ rest = '"' :: (s.toList.flatMap quotedChar ++ '"' :: rest) := by
  simp [quoted]

/-- Two quotes are the beginning of a longer string only if a third one follows. -/
theorem readString_short {text : List Char} (h : ∀ r, text ≠ '"' :: '"' :: r) :
    readString ('"' :: text) = readBasic (text.length + 1) text := by
  match text, h with
  | [], _ => rfl
  | [b], _ => rfl
  | b :: c :: r, h =>
    refine if_neg ?_
    simp only [Bool.and_eq_true, decide_eq_true_eq]
    rintro ⟨⟨-, rfl⟩, rfl⟩
    exact h r rfl

theorem readString_quoted (s : String) {rest : List Char} (h : ∀ r, rest ≠ '"' :: r) :
    readString (quoted s ++ rest) = some (s.toList, rest) := by
  rw [quoted_append, readString_short]
  · refine readBasic_quoted ?_ rest
    have := length_le_flatMap_quotedChar s.toList
    rw [List.length_append, List.length_cons]
    omega
  · intro r
    cases s.toList with
    | nil =>
      intro same
      exact h r (List.cons.inj same).2
    | cons c cs =>
      obtain ⟨d, ds, written, notQuote⟩ := quotedChar_eq_cons c
      rw [List.flatMap_cons, written]
      intro same
      exact notQuote (List.cons.inj same).1

theorem readValue_quoted (s : String) (steps depth : Nat) {rest : List Char}
    (h : ∀ r, rest ≠ '"' :: r) :
    readValue (steps + 1) depth (quoted s ++ rest) = some (.str s, rest) := by
  have read := readString_quoted s h
  rw [quoted_append] at read ⊢
  rw [readValue, read]
  simp

/-! ### Lists -/

/-- A list of strings with a comma after each. -/
def items (strings : List String) : List Char := strings.flatMap fun s => quoted s ++ [',']

def listed (strings : List String) : List Char := '[' :: (items strings ++ [']'])

theorem skipGap_cons {c : Char} (h : isBlank c = false) (comment : c ≠ '#') (newline : c ≠ '\n')
    (carriage : c ≠ '\r') (steps : Nat) (text : List Char) :
    skipGap (steps + 1) (c :: text) = c :: text := by
  have blanks : skipBlanks (c :: text) = c :: text := List.dropWhile_cons_of_neg (by simp [h])
  rw [skipGap, blanks]
  split
  · next same => exact absurd (List.cons.inj same).1 comment
  · next same => exact absurd (List.cons.inj same).1 newline
  · next same => exact absurd (List.cons.inj same).1 carriage
  · rfl

theorem readItems_close (steps depth : Nat) (rest : List Char) :
    readItems (steps + 1) depth (']' :: rest) = some ([], rest) := by
  rw [readItems, skipGap_cons (by decide) (by decide) (by decide) (by decide)]
  rfl

/-- A string with a comma after it is the first item of a list. -/
theorem readItems_quoted {steps depth : Nat} {text rest : List Char} {strings : List Toml}
    (others : readItems (steps + 1) depth text = some (strings, rest)) (s : String) :
    readItems (steps + 2) depth (quoted s ++ ',' :: text) = some (.str s :: strings, rest) := by
  have first : readValue (steps + 1) depth (quoted s ++ ',' :: text) =
      some (.str s, ',' :: text) :=
    readValue_quoted s steps depth (by simp)
  rw [quoted_append] at first ⊢
  rw [readItems, skipGap_cons (by decide) (by decide) (by decide) (by decide)]
  simp [first, skipGap_cons (show isBlank ',' = false by decide), others]

theorem length_le_items (strings : List String) : strings.length ≤ (items strings).length := by
  induction strings with
  | nil => exact Nat.le_refl 0
  | cons s strings ih =>
    rw [items, List.flatMap_cons, ← items]
    simp only [List.length_cons, List.length_append, List.length_nil]
    omega

theorem readItems_items {strings : List String} {steps : Nat} (enough : strings.length < steps)
    (depth : Nat) (rest : List Char) :
    readItems steps depth (items strings ++ ']' :: rest) = some (strings.map .str, rest) := by
  induction strings generalizing steps with
  | nil =>
    obtain ⟨n, rfl⟩ := Nat.exists_eq_succ_of_ne_zero (Nat.ne_zero_of_lt enough)
    exact readItems_close n depth rest
  | cons s strings ih =>
    obtain ⟨n, rfl⟩ := Nat.exists_eq_add_of_le' (Nat.lt_of_le_of_lt (Nat.zero_lt_succ _) enough)
    rw [items, List.flatMap_cons, List.append_assoc, List.append_assoc]
    exact readItems_quoted (ih (by simpa using enough)) s

theorem readValue_listed {strings : List String} {steps : Nat} (enough : strings.length < steps)
    (rest : List Char) :
    readValue (steps + 1) 0 (listed strings ++ rest) = some (.arr (strings.map .str), rest) := by
  have read := readItems_items enough 1 rest
  have written : listed strings ++ rest = '[' :: (items strings ++ ']' :: rest) := by simp [listed]
  rw [written, readValue, if_pos (by decide), read]
  rfl

/-! ### Numbers -/

section Numbers
variable {ds : List Char} (digits : ∀ c ∈ ds, c.isDigit = true) (rest : List Char)
include digits

theorem digitRun_line : digitRun Char.isDigit (ds ++ '\n' :: rest) = (ds, '\n' :: rest) := by
  induction ds with
  | nil => simp [digitRun]
  | cons d ds ih =>
    obtain ⟨digit, digits⟩ := List.forall_mem_cons.mp digits
    rw [List.cons_append, digitRun, if_pos digit, ih digits]
    rintro c r rfl
    cases digit

/-- What follows a number of digits in a line of digits is another one or the line end. -/
theorem afterChar_line {c : Char} (other : c.isDigit = false) (newline : c ≠ '\n')
    {n least most value : Nat} {r : List Char}
    (h : digitsWithin n least most (ds ++ '\n' :: rest) = some (value, r)) :
    afterChar c r = none := by
  unfold digitsWithin at h
  simp only [Option.ite_none_right_eq_some, Bool.and_eq_true, decide_eq_true_eq,
    List.all_eq_true, Option.some.injEq, Prod.mk.injEq] at h
  obtain ⟨⟨⟨⟨-, all⟩, -⟩, -⟩, -, rfl⟩ := h
  have short : n ≤ ds.length := by
    by_contra long
    have inside : '\n' ∈ (ds ++ '\n' :: rest).take n := by
      obtain ⟨k, rfl⟩ := Nat.exists_eq_add_of_lt (Nat.not_le.mp long)
      rw [Nat.add_assoc, List.take_length_add_append]
      simp
    exact absurd (all '\n' inside) (by decide)
  rw [List.drop_append_of_le_length short]
  cases left : ds.drop n with
  | nil => exact if_neg newline
  | cons d more =>
    refine if_neg ?_
    rintro rfl
    have mem : c ∈ ds := List.mem_of_mem_drop (left ▸ List.mem_cons_self)
    rw [digits c mem] at other
    cases other

theorem skipMoment_line : skipMoment (ds ++ '\n' :: rest) = none := by
  have date : skipDate (ds ++ '\n' :: rest) = none := by
    unfold skipDate
    cases read : digitsWithin 4 0 9999 (ds ++ '\n' :: rest) with
    | none => rfl
    | some found =>
      obtain ⟨year, r⟩ := found
      show (afterChar '-' r).bind _ = none
      rw [afterChar_line digits rest (by decide) (by decide) read]
      rfl
  have time : skipTime (ds ++ '\n' :: rest) = none := by
    unfold skipTime
    cases read : digitsWithin 2 0 23 (ds ++ '\n' :: rest) with
    | none => rfl
    | some found =>
      obtain ⟨hour, r⟩ := found
      show (afterChar ':' r).bind _ = none
      rw [afterChar_line digits rest (by decide) (by decide) read]
      rfl
  rw [skipMoment, date]
  exact time

end Numbers

theorem isDigit_toDigits (n : Nat) : ∀ c ∈ Nat.toDigits 10 n, c.isDigit = true :=
  fun _ mem => Nat.isDigit_of_mem_toDigits (by decide) (by decide) mem

section Digits
variable (n : Nat) (rest : List Char)

theorem readWhole_line :
    readWhole (Nat.toDigits 10 n ++ '\n' :: rest) = some (Nat.toDigits 10 n, '\n' :: rest) := by
  rcases Nat.eq_zero_or_pos n with rfl | pos
  · rfl
  · obtain ⟨d, ds, written, digit⟩ := Json.toDigits_eq_cons n
    have run := digitRun_line (isDigit_toDigits n) rest
    have nonzero := Json.toDigits_ne_zero_cons pos ds
    rw [written] at run nonzero ⊢
    rw [List.cons_append] at run ⊢
    rw [readWhole, readDigits, if_pos digit, run]
    intro r same
    exact nonzero (by rw [(List.cons.inj same).1])

/-- A number begins with a digit. -/
theorem isDigit_head {c : Char} {r : List Char}
    (h : Nat.toDigits 10 n ++ '\n' :: rest = c :: r) : c.isDigit = true := by
  obtain ⟨d, ds, written, digit⟩ := Json.toDigits_eq_cons n
  rw [written, List.cons_append] at h
  rwa [← (List.cons.inj h).1]

theorem readSign_line : readSign (Nat.toDigits 10 n ++ '\n' :: rest) =
    ([], Nat.toDigits 10 n ++ '\n' :: rest) := by
  unfold readSign
  split
  · next same => cases isDigit_head n rest same
  · next same => cases isDigit_head n rest same
  · rfl

theorem skipFloat_line : skipFloat (Nat.toDigits 10 n ++ '\n' :: rest) = none := by
  have word : ("inf".toList.isPrefixOf (Nat.toDigits 10 n ++ '\n' :: rest) ||
      "nan".toList.isPrefixOf (Nat.toDigits 10 n ++ '\n' :: rest)) = false := by
    cases text : Nat.toDigits 10 n ++ '\n' :: rest with
    | nil => rfl
    | cons c r =>
      have digit := isDigit_head n rest text
      have notI : 'i' ≠ c := by rintro rfl; cases digit
      have notN : 'n' ≠ c := by rintro rfl; cases digit
      simp [List.isPrefixOf, notI, notN]
  have exponent : readExponent ('\n' :: rest) = none := rfl
  unfold skipFloat
  rw [readSign_line]
  simp only [word, readWhole_line, Bool.false_eq_true, if_false]
  simp [exponent]

/-- Only zero begins with a zero. -/
theorem eq_newline_of_zero {c : Char} {r : List Char}
    (h : Nat.toDigits 10 n ++ '\n' :: rest = '0' :: c :: r) : c = '\n' := by
  rcases Nat.eq_zero_or_pos n with rfl | pos
  · exact (List.cons.inj (List.cons.inj h).2).1.symm
  · obtain ⟨d, ds, written, -⟩ := Json.toDigits_eq_cons n
    rw [written, List.cons_append] at h
    rw [(List.cons.inj h).1] at written
    exact absurd written (Json.toDigits_ne_zero_cons pos ds)

theorem readInteger_line (h : n < Word.signedLimit) :
    readInteger (Nat.toDigits 10 n ++ '\n' :: rest) = some ((n : Int), '\n' :: rest) := by
  unfold readInteger
  split
  · next same => cases eq_newline_of_zero n rest same
  · next same => cases eq_newline_of_zero n rest same
  · next same => cases eq_newline_of_zero n rest same
  · rw [readSign_line]
    simp [readWhole_line, Nat.ofDigitChars_ten_toDigits, h]

theorem readScalar_line (h : n < Word.signedLimit) :
    readScalar (Nat.toDigits 10 n ++ '\n' :: rest) = some (.int n, '\n' :: rest) := by
  have moment := skipMoment_line (isDigit_toDigits n) rest
  have float := skipFloat_line n rest
  have integer := readInteger_line n rest h
  unfold readScalar
  split
  · next same => cases isDigit_head n rest same
  · next same => cases isDigit_head n rest same
  · simp [moment, float, integer]

theorem readValue_line (h : n < Word.signedLimit) (steps depth : Nat) :
    readValue (steps + 1) depth (Nat.toDigits 10 n ++ '\n' :: rest) =
      some (.int n, '\n' :: rest) := by
  rw [readValue, readScalar_line n rest h]
  -- the other forms do not begin with a digit
  all_goals
    intro r same
    cases isDigit_head n rest same

end Digits

/-! ### Values on a line -/

/-- The kinds of values that settings have. -/
inductive Plain where
  | text (s : String)
  | number (n : Nat)
  | texts (strings : List String)

namespace Plain

def toToml : Plain → Toml
  | text s => .str s
  | number n => .int n
  | texts strings => .arr (strings.map .str)

def written : Plain → List Char
  | text s => quoted s
  | number n => Nat.toDigits 10 n
  | texts strings => listed strings

/-- A file holds no number that has no room in a word. -/
def Fits : Plain → Prop
  | number n => n < Word.signedLimit
  | _ => True

theorem written_eq_cons (v : Plain) : ∃ c cs, v.written = c :: cs ∧ isBlank c = false := by
  cases v with
  | text s => exact ⟨_, _, rfl, by decide⟩
  | number n =>
    obtain ⟨d, ds, written, digit⟩ := Json.toDigits_eq_cons n
    refine ⟨d, ds, written, ?_⟩
    simp only [isBlank, Bool.or_eq_false_iff, decide_eq_false_iff_not]
    constructor <;> rintro rfl <;> cases digit
  | texts strings => exact ⟨_, _, rfl, by decide⟩

theorem skipBlanks_written (v : Plain) (rest : List Char) :
    skipBlanks (' ' :: (v.written ++ rest)) = v.written ++ rest := by
  obtain ⟨c, cs, written, blank⟩ := v.written_eq_cons
  rw [written, List.cons_append, skipBlanks, List.dropWhile_cons_of_pos (by decide),
    List.dropWhile_cons_of_neg (by simp [blank])]

/-- A value is read back if a line end follows it. -/
theorem readValue_written {v : Plain} (fits : v.Fits) {steps : Nat}
    (enough : v.written.length < steps) (rest : List Char) :
    readValue steps 0 (v.written ++ '\n' :: rest) = some (v.toToml, '\n' :: rest) := by
  obtain ⟨steps, rfl⟩ := Nat.exists_eq_succ_of_ne_zero (Nat.ne_zero_of_lt enough)
  cases v with
  | text s => exact readValue_quoted s steps 0 (by simp)
  | number n => exact readValue_line n rest fits steps 0
  | texts strings =>
    refine readValue_listed ?_ ('\n' :: rest)
    have := length_le_items strings
    simp only [written, listed, List.length_cons, List.length_append, List.length_nil] at enough
    omega

end Plain

end SourceAudit.Toml
