import SourceAudit.Proofs.Json.RoundTrip
import SourceAudit.Report.Document

/-! A report is read back from its text.

A finding without a column is written without one, a complete report does not say that it is
complete, and the files are not written at all; the reader puts the defaults in their places.
So nothing but the files is lost (`report_read_back`), provided that every number has at
most 64 bits, which is all that the reader takes. -/
namespace SourceAudit

open Json (ofNat ofList)

/-! ### Numbers of 64 bits -/

/-- The position of a finding is given in numbers of 64 bits. -/
structure Finding.Fits (f : Finding) : Prop where
  line : f.line < Word.unsignedLimit
  column : ∀ c ∈ f.column, c < Word.unsignedLimit

/-- All numbers of a report have 64 bits. -/
structure Report.Fits (r : Report) : Prop where
  files : r.summary.totalFiles < Word.unsignedLimit
  findings : r.summary.totalFindings < Word.unsignedLimit
  counts : ∀ s, r.summary.bySeverity.get s < Word.unsignedLimit
  each : ∀ f ∈ r.findings, f.Fits

/-! ### Reading records -/

/-- Names are compared one after the other. -/
theorem Json.lookup_cons {ν : Type} (name k : String) (v : ν) (fields : List (String × ν)) :
    ((k, v) :: fields).lookup name = if name = k then some v else fields.lookup name := by
  by_cases h : name = k
  · rw [h, List.lookup_cons_self, if_pos rfl]
  · rw [List.lookup_cons, beq_false_of_ne h, if_neg h]

/-- An object that gives no field twice stands for the record of its fields. -/
@[simp]
theorem Json.record?_obj (names : List String) {fields : List (String × Json)}
    (distinct : (fields.map (·.1)).Nodup) :
    (Json.obj fields).record? names = some (.ofFields fields) := by
  refine if_pos ?_
  rw [List.all_eq_true]
  intro name _
  exact decide_eq_true (List.nodup_iff_count.mp distinct name)

@[simp]
theorem Record.required_ofFields {ν α : Type} (fields : List (String × ν)) (name : String)
    (read : ν → Option α) :
    (Record.ofFields fields).required name read = (fields.lookup name).bind read := rfl

@[simp]
theorem Record.defaulted_ofFields {ν α : Type} (fields : List (String × ν)) (name : String)
    (value : α) (read : ν → Option α) :
    (Record.ofFields fields).defaulted name value read =
      (fields.lookup name).elim (some value) read := by
  simp only [Record.defaulted, Record.ofFields]
  cases fields.lookup name <;> rfl

@[simp]
theorem Json.string?_str (s : String) : Json.string? (.str s) = some s := rfl

@[simp]
theorem Json.bool?_bool (b : Bool) : Json.bool? (.bool b) = some b := rfl

@[simp]
theorem Severity.ofJson?_toJson (s : Severity) : Severity.ofJson? s.toJson = some s := by
  cases s <;> rfl

@[simp]
theorem Language.ofJson?_toJson (l : Language) : Language.ofJson? l.toJson = some l := by
  cases l <;> rfl

theorem Json.count?_ofNat {n : Nat} (h : n < Word.unsignedLimit) :
    Json.count? (ofNat n) = some n :=
  if_pos h

theorem Json.nullable?_ofNat {n : Nat} (h : n < Word.unsignedLimit) :
    Json.nullable? Json.count? (ofNat n) = some (some n) :=
  congrArg (Option.map some) (Json.count?_ofNat h)

theorem Json.list?_ofList {α : Type} {write : α → Json} {read : Json → Option α} {xs : List α}
    (h : ∀ x ∈ xs, read (write x) = some x) : Json.list? read (ofList write xs) = some xs := by
  show (xs.map write).mapM read = some xs
  induction xs with
  | nil => rfl
  | cons x xs ih =>
    have rest := ih fun y hy => h y (List.mem_cons_of_mem x hy)
    simp [h x List.mem_cons_self, rest]

theorem Finding.ofJson?_toJson {f : Finding} (h : f.Fits) : Finding.ofJson? f.toJson = some f := by
  obtain ⟨id, kind, severity, file, line, column, snippet, message, cwe, language⟩ := f
  have line_read : Json.count? (ofNat line) = some line := Json.count?_ofNat h.line
  cases column with
  | none => simp [Finding.ofJson?, Finding.toJson, Json.lookup_cons, line_read]
  | some c =>
    have column_read := Json.nullable?_ofNat (h.column c rfl)
    simp [Finding.ofJson?, Finding.toJson, Json.lookup_cons, line_read, column_read]

theorem Counts.ofJson?_toJson {c : Counts} (h : ∀ s, c.get s < Word.unsignedLimit) :
    Counts.ofJson? c.toJson = some c := by
  have critical := Json.count?_ofNat (h .critical)
  have high := Json.count?_ofNat (h .high)
  have medium := Json.count?_ofNat (h .medium)
  have low := Json.count?_ofNat (h .low)
  have info := Json.count?_ofNat (h .info)
  simp only [Counts.get] at critical high medium low info
  simp [Counts.ofJson?, Counts.toJson, Json.lookup_cons, critical, high, medium, low, info]

theorem Report.summary_ofJson?_toJson {r : Report} (h : r.Fits) :
    Summary.ofJson? r.summary.toJson = some r.summary := by
  have files := Json.count?_ofNat h.files
  have findings := Json.count?_ofNat h.findings
  have counts := Counts.ofJson?_toJson h.counts
  simp [Summary.ofJson?, Summary.toJson, Json.lookup_cons, files, findings, counts]

/-- A report is read back from its JSON value, without the files. -/
theorem Report.ofJson?_toJson {r : Report} (h : r.Fits) :
    Report.ofJson? r.toJson = some { r with files := [] } := by
  have summary := Report.summary_ofJson?_toJson h
  have findings : Json.list? Finding.ofJson? (ofList Finding.toJson r.findings) = some r.findings :=
    Json.list?_ofList fun f hf => Finding.ofJson?_toJson (h.each f hf)
  cases truncated : r.truncated <;>
    simp [Report.ofJson?, Report.toJson, Json.lookup_cons, summary, findings, truncated]

/-! ### Reading texts -/

theorem Finding.toJson_integral {f : Finding} (h : f.Fits) : f.toJson.Integral := by
  have line := h.line
  have column := h.column
  cases hc : f.column with
  | none => simp [Finding.toJson, Severity.toJson, Language.toJson, hc, line]
  | some c => simp [Finding.toJson, Severity.toJson, Language.toJson, hc, line, column c hc]

theorem Counts.toJson_integral {c : Counts} (h : ∀ s, c.get s < Word.unsignedLimit) :
    c.toJson.Integral := by
  simp only [Counts.toJson, Json.Integral.obj_iff, List.forall_mem_cons, Json.Integral.ofNat_iff]
  exact ⟨h .critical, h .high, h .medium, h .low, h .info, by simp⟩

theorem Report.toJson_integral {r : Report} (h : r.Fits) : r.toJson.Integral := by
  have counts := Counts.toJson_integral h.counts
  have findings : ∀ f ∈ r.findings, f.toJson.Integral := fun f hf =>
    Finding.toJson_integral (h.each f hf)
  cases truncated : r.truncated <;>
    simp [Report.toJson, Summary.toJson, ofList, h.files, h.findings, counts, truncated] <;>
    exact findings

theorem Report.ofText?_toText {r : Report} (h : r.Fits) :
    Json.ofText? r.toText.toList = some r.toJson :=
  Json.ofText?_pretty (Report.toJson_integral h)

/-- **A report is read back from its text.** Whatever its strings hold and whichever of its
optional parts are there, reading the text succeeds and gives the report, only without the
files, which are no part of the text. -/
theorem report_read_back (r : Report) (h : r.Fits) :
    Report.ofText? r.toText = some { r with files := [] } := by
  rw [Report.ofText?, Report.ofText?_toText h, Option.bind_some, Report.ofJson?_toJson h]

/-- A finding at the last line that a number of 64 bits can give. -/
def lastLineFinding (column : Option Nat) : Finding :=
  { id := "00\x00ff"
    kind := "xss"
    severity := .medium
    file := "C:\\a \"b\".js"
    line := Word.unsignedLimit - 1
    column
    snippet := "\tel.innerHTML = '\x08\x0c\x1f\x7f';\r\n"
    message := "ä \u2028 😀"
    cwe := ""
    language := .typescript }

/-- A report with everything that is written in a way of its own: characters that are escaped,
a finding with a column and one without, a mark that the scan was cut short, and a file. -/
def cutShortReport : Report :=
  { scanId := "\\u0041"
    timestamp := "/"
    project := "\"quoted\""
    summary :=
      { totalFiles := Word.unsignedLimit - 1
        totalFindings := 2
        bySeverity := { medium := 2 } }
    findings := [lastLineFinding none, lastLineFinding (some 0)]
    files := [{ path := .ofString "a.ts", language := .typescript, lines := 1, findings := [],
                error := none }]
    truncated := true }

theorem cutShortReport_fits : cutShortReport.Fits where
  files := by decide
  findings := by decide
  counts := by
    intro s
    cases s <;> decide
  each := by
    intro f hf
    simp only [cutShortReport, List.mem_cons, List.not_mem_nil, or_false] at hf
    rcases hf with rfl | rfl
    · exact ⟨by decide, by simp [lastLineFinding]⟩
    · exact ⟨by decide, by simp [lastLineFinding, Word.unsignedLimit]⟩

theorem report_read_back_cut_short :
    Report.ofText? cutShortReport.toText = some { cutShortReport with files := [] } :=
  report_read_back cutShortReport cutShortReport_fits

end SourceAudit
