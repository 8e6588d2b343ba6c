import SourceAudit.Proofs.Lowercase
import SourceAudit.Report.Format

/-! Which spellings of a name are understood.

Languages, grades and formats are read by comparing the lowercase form of a text with some names,
and an extension with the names of the extensions. Every one of these names is a plain word, so the
form equals it only if the text differs from it in the case of ASCII letters at most (`Answers`): no
character from elsewhere is taken for a letter of a name.

The dialect of a file is found the other way, by comparing bytes without regard to the case of ASCII
letters. Both ways agree on paths, so wherever markup is allowed the file has a language, and it is
one that has markup. -/
namespace SourceAudit

/-! ### Names -/

/-- An answer to a text, by a list of names: the value of a name that the text spells, if there is
one. -/
structure Answers {α : Type} (names : List (String × α)) (text : String) (answer : Option α) :
    Prop where
  isSome_iff : answer.isSome = true ↔ ∃ name ∈ names.map Prod.fst, CaseVariant text name
  eq_some_iff : ∀ value, answer = some value ↔
    ∃ name, (name, value) ∈ names ∧ CaseVariant text name

/-- Comparing the lowercase form with plain names finds their case variants. -/
theorem answers_of_lowered {α : Type} {names : List (String × α)} {text : String}
    {answer : Option α}
    (plain : names.all (fun entry => Text.isPlainWord entry.1.toList) = true)
    (reads : ∀ value, answer = some value ↔ (Text.lowered text, value) ∈ names) :
    Answers names text answer := by
  have variant {name : String} {value : α} (mem : (name, value) ∈ names) :
      Text.lowered text = name ↔ CaseVariant text name :=
    Text.lowered_eq_iff (List.all_eq_true.mp plain _ mem) text
  have spells (value : α) : answer = some value ↔
      ∃ name, (name, value) ∈ names ∧ CaseVariant text name := by
    rw [reads]
    constructor
    · intro mem
      exact ⟨_, mem, (variant mem).mp rfl⟩
    · intro h
      obtain ⟨name, mem, same⟩ := h
      rwa [(variant mem).mpr same]
  refine ⟨?_, spells⟩
  rw [Option.isSome_iff_exists]
  constructor
  · intro h
    obtain ⟨value, found⟩ := h
    obtain ⟨name, mem, same⟩ := (spells value).mp found
    exact ⟨name, List.mem_map_of_mem mem, same⟩
  · intro h
    obtain ⟨name, mem, same⟩ := h
    obtain ⟨entry, listed, rfl⟩ := List.mem_map.mp mem
    exact ⟨entry.2, (spells entry.2).mpr ⟨_, listed, same⟩⟩

namespace Language

/-- The extensions of source files. -/
def extensions : List (String × Language) :=
  [("js", .javascript), ("jsx", .javascript), ("mjs", .javascript), ("cjs", .javascript),
   ("ts", .typescript), ("tsx", .typescript), ("py", .python), ("go", .go)]

/-- The names of the languages. -/
def names : List (String × Language) :=
  [("javascript", .javascript), ("js", .javascript), ("typescript", .typescript),
   ("ts", .typescript), ("python", .python), ("py", .python), ("go", .go), ("golang", .go)]

theorem answers_ofExtension? (ext : String) : Answers extensions ext (ofExtension? ext) := by
  refine answers_of_lowered (by decide +kernel) fun value => ?_
  unfold ofExtension?
  generalize Text.lowered ext = word
  split <;> simp_all [extensions, eq_comm]

theorem answers_ofName? (name : String) : Answers names (Text.trimmed name) (ofName? name) := by
  refine answers_of_lowered (by decide +kernel) fun value => ?_
  unfold ofName?
  generalize Text.lowered (Text.trimmed name) = word
  split <;> simp_all [names, eq_comm]

end Language

namespace Severity

/-- The names of the grades. -/
def names : List (String × Severity) :=
  [("info", .info), ("low", .low), ("medium", .medium), ("med", .medium), ("high", .high),
   ("critical", .critical), ("crit", .critical)]

theorem answers_ofName? (name : String) : Answers names (Text.trimmed name) (ofName? name) := by
  refine answers_of_lowered (by decide +kernel) fun value => ?_
  unfold ofName?
  generalize Text.lowered (Text.trimmed name) = word
  split <;> simp_all [names, eq_comm]

end Severity

namespace Report.Format

/-- The names of the formats. -/
def names : List (String × Format) :=
  [("console", .console), ("text", .console), ("json", .json), ("sarif", .sarif)]

theorem answers_ofName? (name : String) : Answers names name (ofName? name) := by
  refine answers_of_lowered (by decide +kernel) fun value => ?_
  unfold ofName?
  generalize Text.lowered name = word
  split <;> simp_all [names, eq_comm]

end Report.Format

/-! ### Extensions -/

theorem toNat_lowerByte (b : UInt8) :
    (Dialect.lowerByte b).toNat =
      if 65 ≤ b.toNat ∧ b.toNat ≤ 90 then b.toNat + 32 else b.toNat := by
  unfold Dialect.lowerByte
  simp only [Bool.and_eq_true, decide_eq_true_eq, UInt8.le_iff_toNat_le, UInt8.reduceToNat]
  split
  · rw [UInt8.toNat_add]
    show (b.toNat + 32) % 256 = b.toNat + 32
    omega
  · rfl

namespace Text.Utf8

theorem encode_cons_ascii {c : Char} (ascii : c.toNat < 128) (text : List Char) :
    encode (c :: text) = UInt8.ofNat c.toNat :: encode text := by
  have single : String.utf8EncodeChar c = [UInt8.ofNat c.toNat] := if_pos (Nat.le_of_lt_succ ascii)
  rw [encode, List.flatMap_cons, single]
  rfl

theorem lowerByte_eq_iff {a : UInt8} {c : Char} (ascii : c.toNat < 128) :
    Dialect.lowerByte a = UInt8.ofNat c.toNat ↔
      a < 0x80 ∧ (Char.ofNat a.toNat).toLower = c := by
  have bound := a.toNat_lt
  rw [← UInt8.toNat_inj, toNat_lowerByte, UInt8.toNat_ofNat', UInt8.lt_iff_toNat_lt,
    ← Char.toNat_inj, toNat_toLower, toNat_ofNat (by omega)]
  show _ ↔ a.toNat < 128 ∧ _
  split <;> omega

/-- Comparing bytes without regard to the case of ASCII letters is comparing the characters that
they encode. -/
theorem map_lowerByte_eq_iff {bytes : List UInt8} {word : List Char} (ascii : IsAscii word) :
    bytes.map Dialect.lowerByte = encode word ↔
      ∃ text, decode? bytes = some text ∧ text.map Char.toLower = word := by
  simp only [decode?_eq_some_iff]
  induction bytes using unit_induction generalizing word with
  | nil =>
    cases word with
    | nil => simp [units, encode]
    | cons c word => simp [units, encode_cons_ascii (ascii c List.mem_cons_self)]
  | cons a r ih =>
    cases word with
    | nil => simp [units_cons, encode]
    | cons c word =>
      obtain ⟨first, rest⟩ := List.forall_mem_cons.mp ascii
      rw [encode_cons_ascii first, List.map_cons, List.cons_eq_cons, lowerByte_eq_iff first,
        units_cons]
      by_cases low : a < 0x80
      · rw [readUnit_ascii low] at ih ⊢
        rw [ih rest]
        constructor
        · intro h
          obtain ⟨⟨-, same⟩, text, read, rfl⟩ := h
          refine ⟨Char.ofNat a.toNat :: text, ?_, ?_⟩
          · rw [read, List.map_cons]
          · rw [List.map_cons, same]
        · intro h
          obtain ⟨text, read, same⟩ := h
          cases text with
          | nil => cases read
          | cons d text =>
            obtain ⟨head, tail⟩ := List.cons_eq_cons.mp read
            obtain ⟨head', tail'⟩ := List.cons_eq_cons.mp same
            cases head
            exact ⟨⟨low, head'⟩, text, tail, tail'⟩
      · -- a unit of other bytes is no ASCII character
        obtain ⟨-, -, -, high⟩ := readUnit_high low r
        refine iff_of_false (fun h => low h.1.1) fun h => ?_
        obtain ⟨text, read, same⟩ := h
        cases text with
        | nil => cases read
        | cons d text =>
          have out := high d (List.cons_eq_cons.mp read).1
          have same : d.toLower = c := (List.cons_eq_cons.mp same).1
          rw [toLower_of_high out] at same
          rw [same] at out
          omega

end Text.Utf8

/-- The extension of a path is a case variant of a name. -/
def Path.HasExtension (p : Path) (name : String) : Prop :=
  ∃ ext text, p.extension? = some ext ∧ Text.Utf8.decode? ext = some text ∧
    CaseVariant (String.ofList text) name

/-- An extension may as well be compared as bytes. -/
theorem Path.hasExtension_iff {p : Path} {name : String}
    (plain : Text.isPlainWord name.toList = true) :
    p.HasExtension name ↔
      ∃ ext, p.extension? = some ext ∧
        ext.map Dialect.lowerByte = Text.Utf8.encode name.toList := by
  simp only [HasExtension, Text.Utf8.map_lowerByte_eq_iff (Text.isAscii_of_isPlainWord plain),
    CaseVariant, String.toList_ofList, Text.map_toLower_of_isPlainWord plain, exists_and_left]

/-- The language of a file goes by the extensions. -/
theorem Language.ofPath?_eq_some_iff {p : Path} {language : Language} :
    ofPath? p = some language ↔ ∃ name, (name, language) ∈ extensions ∧ p.HasExtension name := by
  unfold ofPath? Path.HasExtension
  simp only [Option.bind_eq_bind, Option.bind_eq_some_iff, (answers_ofExtension? _).eq_some_iff]
  constructor
  · intro h
    obtain ⟨ext, found, text, decoded, name, listed, same⟩ := h
    exact ⟨name, listed, ext, text, found, decoded, same⟩
  · intro h
    obtain ⟨name, listed, ext, text, found, decoded, same⟩ := h
    exact ⟨ext, found, text, decoded, name, listed, same⟩

/-- Markup is allowed with two of the extensions. -/
theorem Dialect.ofPath_eq_jsx_iff {p : Path} :
    ofPath p = .jsx ↔ p.HasExtension "tsx" ∨ p.HasExtension "jsx" := by
  have tsx : "tsx".toList = ['t', 's', 'x'] := rfl
  have jsx : "jsx".toList = ['j', 's', 'x'] := rfl
  rw [Path.hasExtension_iff (by decide +kernel), Path.hasExtension_iff (by decide +kernel), tsx, jsx,
    ofPath]
  cases p.extension? with
  | none => simp
  | some ext => simp [or_iff_not_imp_left]

/-- **A name is understood in the spellings that differ in the case of ASCII letters, and in no
other.** Languages and grades may have blanks around them, formats may not. -/
theorem names_have_no_other_spelling :
    (∀ s : String, Answers Language.extensions s (Language.ofExtension? s) ∧
      Answers Language.names (Text.trimmed s) (Language.ofName? s) ∧
      Answers Severity.names (Text.trimmed s) (Severity.ofName? s) ∧
      Answers Report.Format.names s (Report.Format.ofName? s)) ∧
    ∀ p : Path,
      (Dialect.ofPath p = .jsx ↔
        Language.ofPath? p = some .javascript ∧ p.HasExtension "jsx" ∨
        Language.ofPath? p = some .typescript ∧ p.HasExtension "tsx") ∧
      (Dialect.ofPath p = .jsx →
        Language.ofPath? p ≠ some .python ∧ Language.ofPath? p ≠ some .go ∧
        Language.ofPath? p ≠ none) := by
  have both (p : Path) : Dialect.ofPath p = .jsx ↔
      Language.ofPath? p = some .javascript ∧ p.HasExtension "jsx" ∨
      Language.ofPath? p = some .typescript ∧ p.HasExtension "tsx" := by
    rw [Dialect.ofPath_eq_jsx_iff]
    constructor
    · intro h
      rcases h with tsx | jsx
      · exact .inr ⟨Language.ofPath?_eq_some_iff.mpr ⟨_, by decide +kernel, tsx⟩, tsx⟩
      · exact .inl ⟨Language.ofPath?_eq_some_iff.mpr ⟨_, by decide +kernel, jsx⟩, jsx⟩
    · intro h
      rcases h with ⟨-, jsx⟩ | ⟨-, tsx⟩
      · exact .inr jsx
      · exact .inl tsx
  refine ⟨fun s => ⟨Language.answers_ofExtension? s, Language.answers_ofName? s,
    Severity.answers_ofName? s, Report.Format.answers_ofName? s⟩, fun p => ⟨both p, ?_⟩⟩
  intro markup
  rcases (both p).mp markup with ⟨language, -⟩ | ⟨language, -⟩ <;> simp [language]

/-- A file with markup in a directory whose name ends in another extension. -/
theorem names_have_no_other_spelling_capitals :
    let p := Path.ofString "app.py/View.tSX"
    Dialect.ofPath p = .jsx ∧ Language.ofPath? p = some .typescript ∧ p.HasExtension "tsx" ∧
      Language.ofPath? p ≠ some .python ∧ Language.ofPath? p ≠ some .go ∧
      Language.ofPath? p ≠ none := by
  intro p
  have markup : Dialect.ofPath p = .jsx := by decide +kernel
  have language : Language.ofPath? p = some .typescript := by decide +kernel
  obtain ⟨both, never⟩ := names_have_no_other_spelling.2 p
  rcases both.mp markup with ⟨other, -⟩ | ⟨-, tsx⟩
  · cases language.symm.trans other
  · exact ⟨markup, language, tsx, never markup⟩

-- the I with a dot above keeps its dot, so it is not taken for an I
example : Report.Format.ofName? "SarIF" = some .sarif ∧ Report.Format.ofName? "SarİF" = none := by
  decide +kernel

end SourceAudit
