import Mathlib.Data.List.TakeDrop
import Mathlib.Tactic.SplitIfs
import SourceAudit.Json.Printer
import SourceAudit.Json.Reader

/-! Indented JSON text stands for the value that it was written from.

The reader does not know where a value ends, so every statement is about a value with some text
after it: `Reads j` says that the reader takes exactly the written form of `j`, at any level of
indentation, from every text that cannot go on as a number. There is one lemma for each form of
a value; lists and objects follow from their parts.

`ofText?_pretty`: a value whose numbers are integers of 64 bits is read back from its text. -/
namespace SourceAudit.Json

/-- A value in which every number is an integer of 64 bits, with or without a sign. -/
inductive Integral : Json → Prop where
  | null : Integral .null
  | bool (b : Bool) : Integral (.bool b)
  | int {n : Int} (low : -Word.signedLimit ≤ n) (high : n < Word.unsignedLimit) : Integral (.int n)
  | str (s : String) : Integral (.str s)
  | arr {items : List Json} (h : ∀ j ∈ items, Integral j) : Integral (.arr items)
  | obj {fields : List (String × Json)} (h : ∀ f ∈ fields, Integral f.2) : Integral (.obj fields)

namespace Integral

@[simp]
theorem bool_iff (b : Bool) : Integral (.bool b) ↔ True := iff_true_intro (.bool b)

@[simp]
theorem str_iff (s : String) : Integral (.str s) ↔ True := iff_true_intro (.str s)

@[simp]
theorem ofNat_iff (n : Nat) : Integral (ofNat n) ↔ n < Word.unsignedLimit := by
  constructor
  · intro h
    cases h with
    | int _ high => exact Int.ofNat_lt.mp high
  · intro h
    exact .int (Int.le_trans (by decide) (Int.natCast_nonneg n)) (Int.ofNat_lt.mpr h)

@[simp]
theorem arr_iff (items : List Json) : Integral (.arr items) ↔ ∀ j ∈ items, j.Integral := by
  constructor
  · intro h
    cases h with
    | arr each => exact each
  · exact .arr

@[simp]
theorem obj_iff (fields : List (String × Json)) :
    Integral (.obj fields) ↔ ∀ f ∈ fields, f.2.Integral := by
  constructor
  · intro h
    cases h with
    | obj each => exact each
  · exact .obj

end Integral

/-! ### Blanks -/

theorem skipSpace_cons {c : Char} (h : isSpace c = false) (text : List Char) :
    skipSpace (c :: text) = c :: text := by
  simp [skipSpace, h]

theorem skipSpace_lineBreak (level : Nat) (text : List Char) :
    skipSpace (lineBreak level ++ text) = skipSpace text := by
  have blanks : ∀ n, skipSpace (List.replicate n ' ' ++ text) = skipSpace text := by
    intro n
    induction n with
    | zero => rfl
    | succ n ih => exact ih
  exact blanks (2 * level)

theorem readValue_skip {a b : List Char} (h : skipSpace a = skipSpace b) (steps : Nat) :
    readValue steps a = readValue steps b := by
  cases steps with
  | zero => rfl
  | succ n => simp only [readValue, h]

theorem readField_skip {a b : List Char} (h : skipSpace a = skipSpace b) (steps : Nat) :
    readField steps a = readField steps b := by
  cases steps with
  | zero => rfl
  | succ n => simp only [readField, h]

/-! ### Strings -/

/-- A character stands in a string as a letter after a backslash, as its number, or as it is. -/
theorem escapeChar_cases (c : Char) :
    (∃ letter, escapeChar c = ['\\', letter] ∧ letter ≠ 'u' ∧ escaped? letter = some c) ∨
    (c.toNat < 0x20 ∧
      escapeChar c = ['\\', 'u', '0', '0', hexDigit (c.toNat / 16), hexDigit c.toNat]) ∨
    (c ≠ '"' ∧ c ≠ '\\' ∧ ¬ c.toNat < 0x20 ∧ escapeChar c = [c]) := by
  unfold escapeChar
  split_ifs with quote backslash newline carriage tab backspace formFeed control
  · exact .inl ⟨'"', rfl, by decide, by rw [quote]; rfl⟩
  · exact .inl ⟨'\\', rfl, by decide, by rw [backslash]; rfl⟩
  · exact .inl ⟨'n', rfl, by decide, by rw [newline]; rfl⟩
  · exact .inl ⟨'r', rfl, by decide, by rw [carriage]; rfl⟩
  · exact .inl ⟨'t', rfl, by decide, by rw [tab]; rfl⟩
  · exact .inl ⟨'b', rfl, by decide, by rw [backspace]; rfl⟩
  · exact .inl ⟨'f', rfl, by decide, by rw [formFeed]; rfl⟩
  · exact .inr (.inl ⟨control, rfl⟩)
  · exact .inr (.inr ⟨quote, backslash, control, rfl⟩)

theorem readString_letter {letter c : Char} (notNumber : letter ≠ 'u')
    (h : escaped? letter = some c) (text : List Char) :
    readString ('\\' :: letter :: text) = (readString text).map fun p => (c :: p.1, p.2) := by
  rw [readString, h]
  intro _ _ _ _ _ number
  exact absurd number notNumber

theorem hexValue4?_control :
    ∀ n < 0x20, hexValue4? '0' '0' (hexDigit (n / 16)) (hexDigit n) = some n := by
  decide

theorem readString_control {c : Char} (h : c.toNat < 0x20) (text : List Char) :
    readString ('\\' :: 'u' :: '0' :: '0' :: hexDigit (c.toNat / 16) :: hexDigit c.toNat :: text) =
      (readString text).map fun p => (c :: p.1, p.2) := by
  -- a number as small as this is no half of a surrogate pair
  have notLow : isLowSurrogate c.toNat = false :=
    Bool.and_eq_false_imp.mpr fun low => absurd (of_decide_eq_true low) (by omega)
  have notHigh : isHighSurrogate c.toNat = false :=
    Bool.and_eq_false_imp.mpr fun high => absurd (of_decide_eq_true high) (by omega)
  simp [readString, hexValue4?_control c.toNat h, notLow, notHigh]

theorem readString_plain {c : Char} (quote : c ≠ '"') (backslash : c ≠ '\\')
    (control : ¬ c.toNat < 0x20) (text : List Char) :
    readString (c :: text) = (readString text).map fun p => (c :: p.1, p.2) := by
  simp [readString, backslash, control]

/-- A character is read back from the way it stands in a string. -/
theorem readString_escapeChar (c : Char) (text : List Char) :
    readString (escapeChar c ++ text) = (readString text).map fun p => (c :: p.1, p.2) := by
  rcases escapeChar_cases c with
    ⟨letter, written, notNumber, h⟩ | ⟨control, written⟩ | ⟨quote, backslash, control, written⟩
  · rw [written]
    exact readString_letter notNumber h text
  · rw [written]
    exact readString_control control text
  · rw [written]
    exact readString_plain quote backslash control text

theorem quote_append (s : String) (rest : List Char) :
    quote s ++ rest = '"' :: (s.toList.flatMap escapeChar ++ '"' :: rest) := by
  simp [quote]

theorem readString_quote (s : String) (rest : List Char) :
    readString (s.toList.flatMap escapeChar ++ '"' :: rest) = some (s.toList, rest) := by
  induction s.toList with
  | nil => simp [readString]
  | cons c cs ih =>
    rw [List.flatMap_cons, List.append_assoc, readString_escapeChar, ih]
    rfl

/-! ### Numbers -/

/-- A text that is not the rest of a number. -/
def endsNumber : List Char → Bool
  | [] => true
  | c :: _ => !c.isDigit && c ≠ '.' && c ≠ 'e' && c ≠ 'E'

theorem endsNumber_cons {c : Char} {cs : List Char} :
    endsNumber (c :: cs) = true ↔ c.isDigit = false ∧ c ≠ '.' ∧ c ≠ 'e' ∧ c ≠ 'E' := by
  simp [endsNumber, and_assoc]

theorem digits_append {ds rest : List Char} (all : ∀ c ∈ ds, c.isDigit = true)
    (rest_ends : endsNumber rest = true) : digits (ds ++ rest) = (ds, rest) := by
  have none_left : rest.takeWhile Char.isDigit = [] ∧ rest.dropWhile Char.isDigit = rest := by
    cases rest with
    | nil => exact ⟨rfl, rfl⟩
    | cons c cs => simp [(endsNumber_cons.mp rest_ends).1]
  rw [digits, List.span_eq_takeWhile_dropWhile, List.takeWhile_append_of_pos all,
    List.dropWhile_append_of_pos all, none_left.1, none_left.2, List.append_nil]

theorem readFraction_ends {rest : List Char} (h : endsNumber rest = true) :
    readFraction rest = some ([], rest) := by
  unfold readFraction
  split
  · exact absurd rfl (endsNumber_cons.mp h).2.1
  · rfl

theorem readExponent_ends {rest : List Char} (h : endsNumber rest = true) :
    readExponent rest = some ([], rest) := by
  cases rest with
  | nil => rfl
  | cons c cs =>
    obtain ⟨-, -, small, capital⟩ := endsNumber_cons.mp h
    simp [readExponent, small, capital]

theorem toDigits_ne_zero_cons {n : Nat} (pos : 0 < n) (cs : List Char) :
    Nat.toDigits 10 n ≠ '0' :: cs := by
  induction n using Nat.strongRecOn generalizing cs with
  | ind n ih =>
    intro h
    rw [Nat.toDigits_eq_if (by decide)] at h
    split at h
    next small =>
      have digits : ∀ n < 10, 0 < n → Nat.digitChar n ≠ '0' := by decide
      exact digits n small pos (List.cons.inj h).1
    next large =>
      -- the first digit is that of the tenth part
      cases tenth : Nat.toDigits 10 (n / 10) with
      | nil => exact Nat.toDigits_ne_nil tenth
      | cons d ds =>
        rw [tenth, List.cons_append] at h
        rw [(List.cons.inj h).1] at tenth
        exact ih (n / 10) (by omega) (by omega) ds tenth

theorem readNumber_toDigits (negative : Bool) (n : Nat) {rest : List Char}
    (h : endsNumber rest = true) :
    readNumber negative (Nat.toDigits 10 n ++ rest) =
      some (ofInteger negative (Nat.toDigits 10 n), rest) := by
  have all : ∀ c ∈ Nat.toDigits 10 n, c.isDigit = true := fun c hc =>
    Nat.isDigit_of_mem_toDigits (by decide) (by decide) hc
  unfold readNumber
  rw [digits_append all h]
  split
  next none_read => exact absurd (congrArg Prod.fst none_read) Nat.toDigits_ne_nil
  next zero_first =>
    -- only zero itself begins with a zero
    have first := congrArg Prod.fst zero_first
    rcases Nat.eq_zero_or_pos n with rfl | pos
    · cases first
    · exact absurd first (toDigits_ne_zero_cons pos _)
  next some_read =>
    obtain ⟨rfl, rfl⟩ := Prod.mk.inj some_read
    simp [readFraction_ends h, readExponent_ends h]

/-! ### Values -/

/-- The characters that a written value can begin with. -/
def beginsValue (c : Char) : Bool :=
  c.isDigit || ['"', '[', '\x7b', '-', 't', 'f', 'n'].contains c

theorem isSpace_of_beginsValue {c : Char} (h : beginsValue c = true) : isSpace c = false := by
  cases space : isSpace c with
  | false => rfl
  | true =>
    have blank : ((c = ' ' ∨ c = '\n') ∨ c = '\r') ∨ c = '\t' := by simpa [isSpace] using space
    rcases blank with ((rfl | rfl) | rfl) | rfl <;> revert h <;> decide

theorem toDigits_eq_cons (n : Nat) : ∃ d ds, Nat.toDigits 10 n = d :: ds ∧ d.isDigit = true := by
  cases h : Nat.toDigits 10 n with
  | nil => exact absurd h Nat.toDigits_ne_nil
  | cons d ds =>
    have mem : d ∈ Nat.toDigits 10 n := h ▸ List.mem_cons_self
    exact ⟨d, ds, rfl, Nat.isDigit_of_mem_toDigits (by decide) (by decide) mem⟩

theorem pretty_eq_cons {j : Json} (h : j.Integral) (level : Nat) :
    ∃ c cs, pretty level j = c :: cs ∧ beginsValue c = true := by
  cases h with
  | null => exact ⟨'n', _, rfl, by decide⟩
  | bool b =>
    cases b with
    | true => exact ⟨'t', _, rfl, by decide⟩
    | false => exact ⟨'f', _, rfl, by decide⟩
  | @int n _ _ =>
    cases n with
    | ofNat n =>
      obtain ⟨d, ds, written, digit⟩ := toDigits_eq_cons n
      exact ⟨d, ds, written, by simp [beginsValue, digit]⟩
    | negSucc n => exact ⟨'-', _, rfl, by decide⟩
  | str s => exact ⟨'"', _, rfl, by decide⟩
  | @arr items _ => cases items <;> exact ⟨'[', _, rfl, by decide⟩
  | @obj fields _ => cases fields <;> exact ⟨'\x7b', _, rfl, by decide⟩

/-- The reader takes the written form of a value from every text that cannot go on as a
number, if it may take a step for each character. -/
def Reads (j : Json) : Prop :=
  ∀ (level steps : Nat) (rest : List Char), endsNumber rest = true →
    (pretty level j).length ≤ steps → readValue steps (pretty level j ++ rest) = some (j, rest)

theorem reads_of_succ {j : Json} (integral : j.Integral)
    (h : ∀ (level n : Nat) (rest : List Char), endsNumber rest = true →
      (pretty level j).length ≤ n + 1 →
      readValue (n + 1) (pretty level j ++ rest) = some (j, rest)) : Reads j := by
  intro level steps rest ends enough
  cases steps with
  | zero =>
    obtain ⟨c, cs, written, _⟩ := pretty_eq_cons integral level
    rw [written] at enough
    exact absurd enough (Nat.not_succ_le_zero _)
  | succ n => exact h level n rest ends enough

theorem reads_null : Reads .null :=
  reads_of_succ .null fun _ _ _ _ _ => rfl

theorem reads_bool (b : Bool) : Reads (.bool b) := by
  cases b <;> exact reads_of_succ (.bool _) fun _ _ _ _ _ => rfl

theorem readValue_digits (n steps : Nat) {rest : List Char} (h : endsNumber rest = true) :
    readValue (steps + 1) (Nat.toDigits 10 n ++ rest) =
      some (ofInteger false (Nat.toDigits 10 n), rest) := by
  have number := readNumber_toDigits false n h
  obtain ⟨d, ds, written, digit⟩ := toDigits_eq_cons n
  rw [written, List.cons_append] at number ⊢
  rw [readValue, skipSpace_cons (isSpace_of_beginsValue (by simp [beginsValue, digit]))]
  -- no other form begins with a digit
  split
  case h_8 => exact number
  all_goals
    next first =>
      obtain ⟨rfl, -⟩ := List.cons.inj first
      exact absurd digit (by decide)

theorem reads_int {n : Int} (low : -Word.signedLimit ≤ n) (high : n < Word.unsignedLimit) :
    Reads (.int n) := by
  refine reads_of_succ (.int low high) fun level steps rest ends _ => ?_
  cases n with
  | ofNat n =>
    have small : n < Word.unsignedLimit := Int.ofNat_lt.mp high
    show readValue (steps + 1) (Nat.toDigits 10 n ++ rest) = _
    rw [readValue_digits n steps ends]
    simp [ofInteger, Nat.ofDigitChars_ten_toDigits, small]
  | negSucc n =>
    have small : n + 1 ≤ Word.signedLimit := by omega
    show readValue (steps + 1) ('-' :: (Nat.toDigits 10 (n + 1) ++ rest)) = _
    rw [readValue, skipSpace_cons (by decide)]
    show readNumber true (Nat.toDigits 10 (n + 1) ++ rest) = _
    rw [readNumber_toDigits true (n + 1) ends]
    simp [ofInteger, Nat.ofDigitChars_ten_toDigits, small, Int.negSucc_eq]

theorem reads_str (s : String) : Reads (.str s) := by
  refine reads_of_succ (.str s) fun level steps rest _ _ => ?_
  show readValue (steps + 1) (quote s ++ rest) = _
  rw [quote_append, readValue, skipSpace_cons (by decide)]
  simp [readString_quote]

/-! ### Lists -/

theorem readValue_list {n : Nat} {r s t : List Char} {x : Json} {xs : List Json}
    (nonempty : ∀ u, skipSpace r ≠ ']' :: u) (first : readValue n r = some (x, s))
    (others : readItems n s = some (xs, t)) :
    readValue (n + 1) ('[' :: r) = some (.arr (x :: xs), t) := by
  rw [readValue, skipSpace_cons (by decide)]
  -- `nonempty` rules out the empty list
  simp [first, others]

theorem endsNumber_prettyItems (level outer : Nat) (xs : List Json) (rest : List Char) :
    endsNumber (prettyItems level xs ++ (lineBreak outer ++ rest)) = true := by
  cases xs <;> rfl

theorem readItems_prettyItems {xs : List Json} (h : ∀ x ∈ xs, Reads x) (level outer steps : Nat)
    (rest : List Char) (enough : (prettyItems level xs).length < steps) :
    readItems steps (prettyItems level xs ++ (lineBreak outer ++ ']' :: rest)) =
      some (xs, rest) := by
  induction xs generalizing steps with
  | nil =>
    obtain ⟨n, rfl⟩ := Nat.exists_eq_succ_of_ne_zero (Nat.ne_zero_of_lt enough)
    rw [prettyItems, List.nil_append, readItems, skipSpace_lineBreak, skipSpace_cons (by decide)]
    rfl
  | cons x xs ih =>
    obtain ⟨n, rfl⟩ := Nat.exists_eq_succ_of_ne_zero (Nat.ne_zero_of_lt enough)
    simp only [prettyItems, List.length_cons, List.length_append, List.cons_append] at enough
    have first : readValue n (lineBreak level ++ (pretty level x ++
        (prettyItems level xs ++ (lineBreak outer ++ ']' :: rest)))) =
        some (x, prettyItems level xs ++ (lineBreak outer ++ ']' :: rest)) := by
      rw [readValue_skip (skipSpace_lineBreak level _)]
      exact h x List.mem_cons_self level n _ (endsNumber_prettyItems level outer xs _) (by omega)
    have others := ih (fun y hy => h y (List.mem_cons_of_mem x hy)) n (by omega)
    simp only [prettyItems, List.cons_append, List.append_assoc]
    rw [readItems, skipSpace_cons (by decide)]
    simp [first, others]

theorem reads_arr {xs : List Json} (integral : ∀ x ∈ xs, x.Integral) (h : ∀ x ∈ xs, Reads x) :
    Reads (.arr xs) := by
  refine reads_of_succ (.arr integral) fun level n rest _ enough => ?_
  cases xs with
  | nil => rfl
  | cons x xs =>
    obtain ⟨c, cs, written, begins⟩ := pretty_eq_cons (integral x List.mem_cons_self) (level + 1)
    simp only [pretty, List.length_cons, List.length_append, List.cons_append,
      List.append_assoc] at enough ⊢
    refine readValue_list ?_ ?_ (readItems_prettyItems (fun y hy => h y (List.mem_cons_of_mem x hy))
      (level + 1) level _ rest (by omega))
    · intro u closed
      rw [skipSpace_lineBreak, written, List.cons_append,
        skipSpace_cons (isSpace_of_beginsValue begins)] at closed
      obtain ⟨rfl, -⟩ := List.cons.inj closed
      exact absurd begins (by decide)
    · rw [readValue_skip (skipSpace_lineBreak (level + 1) _)]
      exact h x List.mem_cons_self (level + 1) n _
        (endsNumber_prettyItems (level + 1) level xs _) (by omega)

/-! ### Objects -/

theorem readField_pretty {k : String} {v : Json} (h : Reads v) (level : Nat) {n : Nat}
    {rest : List Char} (ends : endsNumber rest = true) (enough : (pretty level v).length ≤ n) :
    readField (n + 1) (quote k ++ ':' :: ' ' :: (pretty level v ++ rest)) =
      some ((k, v), rest) := by
  have value : readValue n (' ' :: (pretty level v ++ rest)) = some (v, rest) := by
    rw [readValue_skip (show skipSpace (' ' :: (pretty level v ++ rest)) =
      skipSpace (pretty level v ++ rest) from rfl)]
    exact h level n rest ends enough
  rw [quote_append, readField, skipSpace_cons (by decide)]
  simp [readString_quote, skipSpace_cons (show isSpace ':' = false by decide), value]

theorem readValue_object {n : Nat} {r s t : List Char} {f : String × Json}
    {fs : List (String × Json)} (nonempty : ∀ u, skipSpace r ≠ '\x7d' :: u)
    (first : readField n r = some (f, s)) (others : readFields n s = some (fs, t)) :
    readValue (n + 1) ('\x7b' :: r) = some (.obj (f :: fs), t) := by
  rw [readValue, skipSpace_cons (by decide)]
  simp [first, others]

theorem endsNumber_prettyFields (level outer : Nat) (fs : List (String × Json))
    (rest : List Char) :
    endsNumber (prettyFields level fs ++ (lineBreak outer ++ rest)) = true := by
  cases fs <;> rfl

theorem readFields_prettyFields {fs : List (String × Json)} (h : ∀ f ∈ fs, Reads f.2)
    (level outer steps : Nat) (rest : List Char)
    (enough : (prettyFields level fs).length < steps) :
    readFields steps (prettyFields level fs ++ (lineBreak outer ++ '\x7d' :: rest)) =
      some (fs, rest) := by
  induction fs generalizing steps with
  | nil =>
    obtain ⟨n, rfl⟩ := Nat.exists_eq_succ_of_ne_zero (Nat.ne_zero_of_lt enough)
    rw [prettyFields, List.nil_append, readFields, skipSpace_lineBreak, skipSpace_cons (by decide)]
    rfl
  | cons f fs ih =>
    obtain ⟨k, v⟩ := f
    obtain ⟨n, rfl⟩ := Nat.exists_eq_succ_of_ne_zero (Nat.ne_zero_of_lt enough)
    simp only [prettyFields, List.length_cons, List.length_append, List.cons_append] at enough
    have first : readField n (lineBreak level ++ (quote k ++ ':' :: ' ' :: (pretty level v ++
        (prettyFields level fs ++ (lineBreak outer ++ '\x7d' :: rest))))) =
        some ((k, v), prettyFields level fs ++ (lineBreak outer ++ '\x7d' :: rest)) := by
      obtain ⟨m, rfl⟩ : ∃ m, n = m + 1 := ⟨n - 1, by omega⟩
      rw [readField_skip (skipSpace_lineBreak level _)]
      exact readField_pretty (v := v) (h (k, v) List.mem_cons_self) level
        (endsNumber_prettyFields level outer fs _) (by omega)
    have others := ih (fun g hg => h g (List.mem_cons_of_mem _ hg)) n (by omega)
    simp only [prettyFields, List.cons_append, List.append_assoc]
    rw [readFields, skipSpace_cons (by decide)]
    simp [first, others]

theorem reads_obj {fs : List (String × Json)} (integral : ∀ f ∈ fs, f.2.Integral)
    (h : ∀ f ∈ fs, Reads f.2) : Reads (.obj fs) := by
  refine reads_of_succ (.obj integral) fun level n rest _ enough => ?_
  cases fs with
  | nil => rfl
  | cons f fs =>
    obtain ⟨k, v⟩ := f
    simp only [pretty, List.length_cons, List.length_append, List.cons_append,
      List.append_assoc] at enough ⊢
    obtain ⟨m, rfl⟩ : ∃ m, n = m + 1 := ⟨n - 1, by omega⟩
    refine readValue_object ?_ ?_ (readFields_prettyFields
      (fun g hg => h g (List.mem_cons_of_mem _ hg)) (level + 1) level _ rest (by omega))
    · intro u closed
      rw [skipSpace_lineBreak, quote_append, skipSpace_cons (by decide)] at closed
      exact absurd (List.cons.inj closed).1 (by decide)
    · rw [readField_skip (skipSpace_lineBreak (level + 1) _)]
      exact readField_pretty (v := v) (h (k, v) List.mem_cons_self) (level + 1)
        (endsNumber_prettyFields (level + 1) level fs _) (by omega)

/-! ### Texts -/

theorem Integral.reads {j : Json} (h : j.Integral) : Reads j := by
  induction h with
  | null => exact reads_null
  | bool b => exact reads_bool b
  | int low high => exact reads_int low high
  | str s => exact reads_str s
  | arr integral ih => exact reads_arr integral ih
  | obj integral ih => exact reads_obj integral ih

/-- **A value is read back from its indented text** if its numbers are integers of 64 bits. -/
theorem ofText?_pretty {j : Json} (h : j.Integral) : ofText? j.toText.toList = some j := by
  have whole := h.reads 0 (2 * (pretty 0 j).length + 2) [] rfl (by omega)
  rw [List.append_nil] at whole
  rw [toText, String.toList_ofList, ofText?, whole]
  rfl

end SourceAudit.Json
