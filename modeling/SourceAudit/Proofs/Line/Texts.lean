import SourceAudit.Proofs.Pattern
import SourceAudit.Rule.Line
import SourceAudit.Text.Blank

/-! The texts that the line rules look for.

The patterns of the catalog are read without regard to letter case, where a blank is any
character with the property `White_Space` and a run takes any character but the line feed.
Here each of the three languages is said in these words alone (`SecretText`, `QueryText`,
`MarkupText`), and the patterns are shown to have exactly these texts. All of them end in a
character that is not blank (`ends_visibly`). -/
namespace SourceAudit

/-! ### Characters -/

theorem toNat_toLower (c : Char) :
    c.toLower.toNat = if 65 ≤ c.toNat ∧ c.toNat ≤ 90 then c.toNat + 32 else c.toNat := by
  have capital : (c.val ≥ 'A'.val ∧ c.val ≤ 'Z'.val) ↔ (65 ≤ c.toNat ∧ c.toNat ≤ 90) := by
    simp only [ge_iff_le, UInt32.le_iff_toNat_le]
    rfl
  unfold Char.toLower
  by_cases h : 65 ≤ c.toNat ∧ c.toNat ≤ 90
  · rw [dif_pos (capital.mpr h), if_pos h]
    show (c.val + ('a'.val - 'A'.val)).toNat = c.toNat + 32
    rw [UInt32.toNat_add]
    show (c.toNat + 32) % 4294967296 = c.toNat + 32
    omega
  · rw [dif_neg (fun hc => h (capital.mp hc)), if_neg h]

theorem toNat_toUpper (c : Char) :
    c.toUpper.toNat = if 97 ≤ c.toNat ∧ c.toNat ≤ 122 then c.toNat - 32 else c.toNat := by
  have small : ('a'.val ≤ c.val ∧ c.val ≤ 'z'.val) ↔ (97 ≤ c.toNat ∧ c.toNat ≤ 122) := by
    simp only [UInt32.le_iff_toNat_le]
    rfl
  unfold Char.toUpper
  by_cases h : 97 ≤ c.toNat ∧ c.toNat ≤ 122
  · rw [dif_pos (small.mpr h), if_pos h]
    show (c.val + ('A'.val - 'a'.val)).toNat = c.toNat - 32
    rw [UInt32.toNat_add]
    show (c.toNat + 4294967264) % 4294967296 = c.toNat - 32
    omega
  · rw [dif_neg (fun hc => h (small.mp hc)), if_neg h]

/-- What a character becomes under simple case folding, as far as the result is ASCII: of all
other characters only the long s and the Kelvin sign fold into it. -/
def foldAscii (c : Char) : Char :=
  if c = 'ſ' then 's' else if c = Char.ofNat 0x212A then 'k' else c.toLower

theorem toNat_foldAscii (c : Char) :
    (foldAscii c).toNat =
      if c.toNat = 0x17F then 115 else if c.toNat = 0x212A then 107
      else if 65 ≤ c.toNat ∧ c.toNat ≤ 90 then c.toNat + 32 else c.toNat := by
  have long : c = 'ſ' ↔ c.toNat = 0x17F := Char.toNat_inj.symm
  have kelvin : c = Char.ofNat 0x212A ↔ c.toNat = 0x212A := Char.toNat_inj.symm
  unfold foldAscii
  simp only [long, kelvin]
  split
  · rfl
  · split
    · rfl
    · exact toNat_toLower c

namespace CharSet

theorem contains_ofList {cs : List Char} {c : Char} : (ofList cs).contains c = true ↔ c ∈ cs := by
  simp only [ofList, contains, List.any_map, List.any_eq_true, Function.comp_apply,
    Bool.and_eq_true, decide_eq_true_eq]
  constructor
  · rintro ⟨d, hd, h₁, h₂⟩
    rwa [Char.toNat_inj.mp (Nat.le_antisymm h₂ h₁)]
  · intro h
    exact ⟨c, h, Nat.le_refl _, Nat.le_refl _⟩

theorem mem_caseless {c d : Char} :
    (caseless c).contains d = true ↔
      d = c.toLower ∨ d = c.toUpper ∨ (c.toLower = 's' ∧ d = Char.ofNat 0x17F) ∨
        (c.toLower = 'k' ∧ d = Char.ofNat 0x212A) := by
  rw [caseless, contains_ofList]
  by_cases hs : c.toLower = 's'
  · have hk : ¬c.toLower = 'k' := by rw [hs]; decide
    simp [hs]
  · by_cases hk : c.toLower = 'k'
    · simp [hk]
    · simp [hs, hk]

/-- The characters that an ASCII one stands for in any case are those that fold alike. -/
theorem contains_caseless {c d : Char} (ascii : c.toNat < 128) :
    (caseless c).contains d = true ↔ foldAscii d = foldAscii c := by
  have long : (Char.ofNat 0x17F).toNat = 0x17F := rfl
  have kelvin : (Char.ofNat 0x212A).toNat = 0x212A := rfl
  have s : 's'.toNat = 115 := rfl
  have k : 'k'.toNat = 107 := rfl
  rw [mem_caseless]
  simp only [← Char.toNat_inj, toNat_foldAscii, toNat_toLower, toNat_toUpper, long, kelvin, s, k]
  split_ifs <;> omega

theorem contains_blank {c : Char} : blank.contains c = Text.isBlank c := by
  rw [Bool.eq_iff_iff]
  simp only [contains, blank, Text.isBlank, List.any_cons, List.any_nil, Bool.or_eq_true,
    Bool.and_eq_true, decide_eq_true_eq, beq_iff_eq, Bool.or_false]
  omega

theorem contains_notNewline {c : Char} : notNewline.contains c = true ↔ c ≠ '\n' := by
  have valid : c.toNat < 0xD800 ∨ 0xDFFF < c.toNat ∧ c.toNat < 0x110000 := c.valid
  have line : '\n'.toNat = 10 := rfl
  simp only [ne_eq, ← Char.toNat_inj, line, contains, notNewline, List.any_cons, List.any_nil,
    Bool.or_eq_true, Bool.and_eq_true, decide_eq_true_eq, Bool.or_false]
  omega

end CharSet

/-! ### Words, blanks and runs -/

/-- A text is a word, in any letter case. -/
def Spells (word : String) (w : List Char) : Prop :=
  w.map foldAscii = word.toList.map foldAscii

/-- Any number of blanks. -/
def Blanks (w : List Char) : Prop := ∀ c ∈ w, Text.isBlank c = true

/-- At least one character, and no line feed. -/
def Run (w : List Char) : Prop := w ≠ [] ∧ '\n' ∉ w

theorem spells_append {u v : String} {w : List Char} :
    Spells (u ++ v) w ↔ ∃ s t, w = s ++ t ∧ Spells u s ∧ Spells v t := by
  rw [Spells, String.toList_append, List.map_append, List.map_eq_append_iff]
  rfl

theorem matches_word_iff (word : String) (ascii : ∀ c ∈ word.toList, c.toNat < 128)
    {w : List Char} : (Pattern.word word.toList).Matches w ↔ Spells word w := by
  rw [Pattern.matches_word, Spells]
  generalize word.toList = cs at ascii
  induction cs generalizing w with
  | nil => simp
  | cons c cs ih =>
    obtain ⟨hc, hcs⟩ := List.forall_mem_cons.mp ascii
    cases w with
    | nil => simp
    | cons d w => simp [CharSet.contains_caseless hc, ih hcs]

theorem matches_oneOf {cs w : List Char} :
    (Pattern.char (.ofList cs)).Matches w ↔ ∃ c, w = [c] ∧ c ∈ cs := by
  simp only [Pattern.matches_char, CharSet.contains_ofList]

theorem matches_blanks {w : List Char} : LineRule.blanks.Matches w ↔ Blanks w := by
  simp only [LineRule.blanks, Pattern.matches_star_char, CharSet.contains_blank, Blanks]

theorem matches_gap {w : List Char} : LineRule.gap.Matches w ↔ w ≠ [] ∧ Blanks w := by
  simp only [LineRule.gap, Pattern.matches_plus_char, CharSet.contains_blank, Blanks]

theorem matches_anything {w : List Char} : LineRule.anything.Matches w ↔ Run w := by
  simp only [LineRule.anything, Pattern.matches_plus_char, CharSet.contains_notNewline, Run]
  exact and_congr_right fun _ => ⟨fun h hn => h _ hn rfl, fun h c hc he => h (he ▸ hc)⟩

/-! ### Secrets -/

/-- The names of secrets. -/
def secretWords : List String := ["apikey", "api_key", "api-key", "password", "secret", "token"]

/-- A character of a written-out secret: in any case, a letter, a digit, an underscore or a
hyphen. -/
def IsSecretChar (c : Char) : Prop :=
  (foldAscii c).isAlphanum = true ∨ foldAscii c = '_' ∨ foldAscii c = '-'

def IsQuote (c : Char) : Prop := c = '\x27' ∨ c = '"'

/-- The name of a secret, a colon or an equals sign between blanks, and at least sixteen
characters of a secret in quotes. -/
def SecretText (w : List Char) : Prop :=
  ∃ name before sign after opening body closing,
    w = name ++ before ++ [sign] ++ after ++ [opening] ++ body ++ [closing] ∧
    (∃ word ∈ secretWords, Spells word name) ∧
    Blanks before ∧ (sign = ':' ∨ sign = '=') ∧ Blanks after ∧
    IsQuote opening ∧ 16 ≤ body.length ∧ (∀ c ∈ body, IsSecretChar c) ∧ IsQuote closing

theorem contains_secretChar {c : Char} :
    LineRule.secretChar.contains c = true ↔ IsSecretChar c := by
  have alphanum (d : Char) : d.isAlphanum = true ↔
      (65 ≤ d.toNat ∧ d.toNat ≤ 90) ∨ (97 ≤ d.toNat ∧ d.toNat ≤ 122) ∨
        (48 ≤ d.toNat ∧ d.toNat ≤ 57) := by
    have ranges : d.isAlphanum =
        (decide ('A'.val ≤ d.val ∧ d.val ≤ 'Z'.val) ||
          (decide ('a'.val ≤ d.val) && decide (d.val ≤ 'z'.val)) ||
          (decide ('0'.val ≤ d.val) && decide (d.val ≤ '9'.val))) := rfl
    simp only [ranges, Bool.or_eq_true, Bool.and_eq_true, decide_eq_true_eq,
      UInt32.le_iff_toNat_le]
    exact or_assoc
  have underscore : '_'.toNat = 95 := rfl
  have hyphen : '-'.toNat = 45 := rfl
  simp only [IsSecretChar, alphanum, ← Char.toNat_inj, toNat_foldAscii, underscore, hyphen,
    CharSet.contains, LineRule.secretChar, List.any_cons, List.any_nil, Bool.or_eq_true,
    Bool.and_eq_true, decide_eq_true_eq, Bool.or_false]
  split_ifs <;> omega

/-- A mark that no other character folds to is spelled by itself alone. -/
theorem spells_mark {mark : Char} (h : mark = '_' ∨ mark = '-') {w : List Char} :
    Spells (String.ofList [mark]) w ↔ w = [mark] := by
  have fold (c : Char) : foldAscii c = foldAscii mark ↔ c = mark := by
    have underscore : '_'.toNat = 95 := rfl
    have hyphen : '-'.toNat = 45 := rfl
    simp only [← Char.toNat_inj, toNat_foldAscii] at h ⊢
    split_ifs <;> omega
  rw [Spells, String.toList_ofList]
  cases w with
  | nil => simp
  | cons c w => simp [fold]

theorem matches_apiKey {w : List Char} :
    (Pattern.sequence [.word "api".toList, .option (.char (.ofList ['_', '-'])),
      .word "key".toList]).Matches w ↔
      Spells "apikey" w ∨ Spells "api_key" w ∨ Spells "api-key" w := by
  have hapi {w : List Char} := matches_word_iff "api" (by simp) (w := w)
  have hkey {w : List Char} := matches_word_iff "key" (by simp) (w := w)
  have joined : Spells "apikey" w ↔ _ := spells_append (u := "api") (v := "key")
  have underscored : Spells "api_key" w ↔ _ := spells_append (u := "api") (v := "_" ++ "key")
  have hyphened : Spells "api-key" w ↔ _ := spells_append (u := "api") (v := "-" ++ "key")
  have underscore {w : List Char} : Spells "_" w ↔ w = ['_'] := spells_mark (.inl rfl)
  have hyphen {w : List Char} : Spells "-" w ↔ w = ['-'] := spells_mark (.inr rfl)
  simp only [joined, underscored, hyphened, spells_append, underscore, hyphen, hapi, hkey,
    Pattern.matches_sequence_cons, Pattern.matches_sequence_nil, Pattern.matches_option,
    matches_oneOf, List.mem_cons, List.not_mem_nil, or_false]
  constructor
  · rintro ⟨api, _, rfl, ha, _, _, rfl, hmark, key, _, rfl, hk, rfl⟩
    rw [List.append_nil]
    obtain ⟨_, rfl, rfl | rfl⟩ | rfl := hmark
    · exact .inr (.inl ⟨api, _, rfl, ha, _, key, rfl, rfl, hk⟩)
    · exact .inr (.inr ⟨api, _, rfl, ha, _, key, rfl, rfl, hk⟩)
    · exact .inl ⟨api, key, rfl, ha, hk⟩
  · rintro (⟨api, key, rfl, ha, hk⟩ | ⟨api, _, rfl, ha, _, key, rfl, rfl, hk⟩ |
      ⟨api, _, rfl, ha, _, key, rfl, rfl, hk⟩)
    · exact ⟨api, key, rfl, ha, [], key, rfl, .inr rfl, key, [], (List.append_nil key).symm, hk,
        rfl⟩
    · exact ⟨api, _, rfl, ha, _, key, rfl, .inl ⟨'_', rfl, .inl rfl⟩, key, [],
        (List.append_nil key).symm, hk, rfl⟩
    · exact ⟨api, _, rfl, ha, _, key, rfl, .inl ⟨'-', rfl, .inr rfl⟩, key, [],
        (List.append_nil key).symm, hk, rfl⟩

/-- The names of secrets are the spellings of the words. -/
theorem matches_secretName {w : List Char} :
    (Pattern.choice
      [.sequence [.word "api".toList, .option (.char (.ofList ['_', '-'])), .word "key".toList],
       .word "password".toList, .word "secret".toList, .word "token".toList]).Matches w ↔
      ∃ word ∈ secretWords, Spells word w := by
  have hpassword := matches_word_iff "password" (by simp) (w := w)
  have hsecret := matches_word_iff "secret" (by simp) (w := w)
  have htoken := matches_word_iff "token" (by simp) (w := w)
  simp only [Pattern.matches_choice_cons, Pattern.matches_choice_nil, matches_apiKey, hpassword,
    hsecret, htoken, or_assoc, or_false, secretWords, List.mem_cons, List.not_mem_nil,
    exists_eq_or_imp, exists_eq_left]

theorem matches_secretPattern {w : List Char} :
    LineRule.secretPattern.Matches w ↔ SecretText w := by
  simp only [LineRule.secretPattern, Pattern.matches_sequence_cons, Pattern.matches_sequence_nil,
    matches_secretName, matches_blanks, LineRule.quoteChar, matches_oneOf,
    Pattern.matches_atLeast_char, contains_secretChar, List.mem_cons, List.not_mem_nil, or_false]
  constructor
  · rintro ⟨name, _, rfl, hname, before, _, rfl, hbefore, _, _, rfl, ⟨sign, rfl, hsign⟩, after, _,
      rfl, hafter, _, _, rfl, ⟨opening, rfl, hopening⟩, body, _, rfl, ⟨hlong, hbody⟩, _, _, rfl,
      ⟨closing, rfl, hclosing⟩, rfl⟩
    exact ⟨name, before, sign, after, opening, body, closing, by simp, hname, hbefore, hsign,
      hafter, hopening.symm, hlong, hbody, hclosing.symm⟩
  · rintro ⟨name, before, sign, after, opening, body, closing, rfl, hname, hbefore, hsign, hafter,
      hopening, hlong, hbody, hclosing⟩
    exact ⟨name, _, by simp only [List.append_assoc]; rfl, hname, before, _, rfl, hbefore, _, _,
      rfl, ⟨sign, rfl, hsign⟩, after, _, rfl, hafter, _, _, rfl, ⟨opening, rfl, hopening.symm⟩, body, _,
      rfl, ⟨hlong, hbody⟩, [closing], [], rfl, ⟨closing, rfl, hclosing.symm⟩, rfl⟩

/-! ### Queries -/

/-- `select` and `from`, each before a run and with blanks around it, then any blanks, and a
plus sign, a place holder or an opening brace. -/
def QueryText (w : List Char) : Prop :=
  ∃ select gap₁ columns gap₂ source gap₃ table gap₄ mark,
    w = select ++ gap₁ ++ columns ++ gap₂ ++ source ++ gap₃ ++ table ++ gap₄ ++ mark ∧
    Spells "select" select ∧ gap₁ ≠ [] ∧ Blanks gap₁ ∧ Run columns ∧ gap₂ ≠ [] ∧ Blanks gap₂ ∧
    Spells "from" source ∧ gap₃ ≠ [] ∧ Blanks gap₃ ∧ Run table ∧ Blanks gap₄ ∧
    (mark = ['+'] ∨ Spells "%s" mark ∨ mark = ['\x7b'])

theorem matches_queryPattern {w : List Char} :
    LineRule.queryPattern.Matches w ↔ QueryText w := by
  have hselect {w : List Char} := matches_word_iff "select" (by simp) (w := w)
  have hfrom {w : List Char} := matches_word_iff "from" (by simp) (w := w)
  have hholder {w : List Char} : (Pattern.word ['%', 's']).Matches w ↔ Spells "%s" w :=
    matches_word_iff "%s" (by simp)
  simp only [LineRule.queryPattern, Pattern.matches_sequence_cons, Pattern.matches_sequence_nil,
    Pattern.matches_choice_cons, Pattern.matches_choice_nil, hselect, hfrom, hholder, matches_gap,
    matches_anything, matches_blanks, matches_oneOf, List.mem_singleton, or_false]
  constructor
  · rintro ⟨select, _, rfl, hs, gap₁, _, rfl, ⟨h₁, hb₁⟩, columns, _, rfl, hc, gap₂, _, rfl,
      ⟨h₂, hb₂⟩, source, _, rfl, hf, gap₃, _, rfl, ⟨h₃, hb₃⟩, table, _, rfl, ht, gap₄, _, rfl, hb₄,
      mark, _, rfl, hm, rfl⟩
    refine ⟨select, gap₁, columns, gap₂, source, gap₃, table, gap₄, mark, by simp, hs, h₁, hb₁, hc,
      h₂, hb₂, hf, h₃, hb₃, ht, hb₄, ?_⟩
    obtain ⟨_, rfl, rfl⟩ | hm | ⟨_, rfl, rfl⟩ := hm
    · exact .inl rfl
    · exact .inr (.inl hm)
    · exact .inr (.inr rfl)
  · rintro ⟨select, gap₁, columns, gap₂, source, gap₃, table, gap₄, mark, rfl, hs, h₁, hb₁, hc,
      h₂, hb₂, hf, h₃, hb₃, ht, hb₄, hm⟩
    refine ⟨select, _, by simp only [List.append_assoc], hs, gap₁, _, rfl, ⟨h₁, hb₁⟩, columns,
      _, rfl, hc, gap₂, _, rfl, ⟨h₂, hb₂⟩, source, _, rfl, hf, gap₃, _, rfl, ⟨h₃, hb₃⟩, table, _,
      rfl, ht, gap₄, mark, rfl, hb₄, mark, [], (List.append_nil mark).symm, ?_, rfl⟩
    obtain rfl | hm | rfl := hm
    · exact .inl ⟨'+', rfl, rfl⟩
    · exact .inr (.inl hm)
    · exact .inr (.inr ⟨'\x7b', rfl, rfl⟩)

/-! ### Markup -/

/-- The name of the member, any blanks, and an equals sign. -/
def MarkupText (w : List Char) : Prop :=
  ∃ name blanks, w = name ++ blanks ++ ['='] ∧ Spells "innerHTML" name ∧ Blanks blanks

theorem matches_markupPattern {w : List Char} :
    LineRule.markupPattern.Matches w ↔ MarkupText w := by
  have hname {w : List Char} := matches_word_iff "innerHTML" (by simp) (w := w)
  simp only [LineRule.markupPattern, Pattern.matches_sequence_cons, Pattern.matches_sequence_nil,
    hname, matches_blanks, matches_oneOf, List.mem_singleton]
  constructor
  · rintro ⟨name, _, rfl, hn, blanks, _, rfl, hb, _, _, rfl, ⟨_, rfl, rfl⟩, rfl⟩
    exact ⟨name, blanks, by simp, hn, hb⟩
  · rintro ⟨name, blanks, rfl, hn, hb⟩
    exact ⟨name, _, List.append_assoc .., hn, blanks, _, rfl, hb, ['='], [], rfl, ⟨'=', rfl, rfl⟩,
      rfl⟩

/-! ### The catalog -/

/-- The patterns of the catalog have exactly the texts described above. -/
theorem catalog_texts :
    List.Forall₂ (fun rule texts => rule.pattern.Matches = texts) LineRule.catalog
      [SecretText, QueryText, MarkupText] := by
  refine .cons ?_ (.cons ?_ (.cons ?_ .nil))
  · exact funext fun w => propext matches_secretPattern
  · exact funext fun w => propext matches_queryPattern
  · exact funext fun w => propext matches_markupPattern

/-- Every text ends in a character that is not blank. -/
def EndsVisibly (texts : List Char → Prop) : Prop :=
  ∀ w, texts w → ∃ init last, w = init ++ [last] ∧ Text.isBlank last = false

theorem EndsVisibly.nullable {p : Pattern} (h : EndsVisibly p.Matches) : p.nullable = false := by
  apply Bool.eq_false_iff.mpr
  intro hnull
  obtain ⟨init, last, hw, -⟩ := h [] (Pattern.nullable_iff.mp hnull)
  exact absurd hw.symm (by simp)

theorem secretText_endsVisibly : EndsVisibly SecretText := by
  rintro w ⟨name, before, sign, after, opening, body, closing, rfl, -, -, -, -, -, -, -, rfl | rfl⟩
  · exact ⟨_, _, rfl, by decide⟩
  · exact ⟨_, _, rfl, by decide⟩

theorem spells_placeHolder {w : List Char} (h : Spells "%s" w) :
    ∃ init last, w = init ++ [last] ∧ Text.isBlank last = false := by
  have chars : w.map foldAscii = [foldAscii '%', foldAscii 's'] := h
  obtain ⟨percent, _, rfl, -, htail⟩ := List.map_eq_cons_iff.mp chars
  obtain ⟨letter, _, rfl, fold, hnil⟩ := List.map_eq_cons_iff.mp htail
  obtain rfl := List.map_eq_nil_iff.mp hnil
  refine ⟨[percent], letter, rfl, ?_⟩
  have s : (foldAscii 's').toNat = 115 := rfl
  rw [← Char.toNat_inj, toNat_foldAscii letter, s] at fold
  simp only [Text.isBlank, Bool.or_eq_false_iff, Bool.and_eq_false_iff, decide_eq_false_iff_not,
    beq_eq_false_iff_ne]
  split_ifs at fold <;> omega

theorem queryText_endsVisibly : EndsVisibly QueryText := by
  rintro w ⟨select, gap₁, columns, gap₂, source, gap₃, table, gap₄, mark, rfl, -, -, -, -, -, -, -,
    -, -, -, -, rfl | hm | rfl⟩
  · exact ⟨_, _, rfl, by decide⟩
  · obtain ⟨init, last, rfl, hlast⟩ := spells_placeHolder hm
    exact ⟨_, last, (List.append_assoc ..).symm, hlast⟩
  · exact ⟨_, _, rfl, by decide⟩

theorem markupText_endsVisibly : EndsVisibly MarkupText := by
  rintro w ⟨name, blanks, rfl, -, -⟩
  exact ⟨_, _, rfl, by decide⟩

/-- **All that a line rule looks for ends in a character that is not blank.** -/
theorem catalog_endsVisibly {rule : LineRule} (h : rule ∈ LineRule.catalog) :
    EndsVisibly rule.pattern.Matches := by
  intro w hw
  rcases h with _ | ⟨_, _ | ⟨_, _ | ⟨_, h⟩⟩⟩
  · exact secretText_endsVisibly w (matches_secretPattern.mp hw)
  · exact queryText_endsVisibly w (matches_queryPattern.mp hw)
  · exact markupText_endsVisibly w (matches_markupPattern.mp hw)
  · cases h

end SourceAudit
