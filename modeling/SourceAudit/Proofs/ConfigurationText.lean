import Mathlib.Data.Option.Basic
import SourceAudit.Proofs.Configuration
import SourceAudit.Proofs.Toml.Sections

/-! Configurations in files.

Every configuration can be written in a file that says it (`Config.saidBy_text`): a section for the
settings, one for the policy, and a line for each value that is given. -/
namespace SourceAudit

namespace Toml

/-! ### Fields that may be left out -/

/-- The pairs of the fields that are given. -/
def stated (fields : List (String × Option Plain)) : List (String × Plain) :=
  fields.filterMap fun f => f.2.map (f.1, ·)

theorem keys_stated (fields : List (String × Option Plain)) :
    ((stated fields).map (·.1)).Sublist (fields.map (·.1)) := by
  induction fields with
  | nil => exact .slnil
  | cons field fields ih =>
    obtain ⟨name, value⟩ := field
    cases value with
    | none => exact ih.cons _
    | some v => exact ih.cons_cons _

theorem mem_of_mem_stated {fields : List (String × Option Plain)} {pair : String × Plain}
    (mem : pair ∈ stated fields) : (pair.1, some pair.2) ∈ fields := by
  obtain ⟨⟨name, value⟩, field, given⟩ := List.mem_filterMap.mp mem
  obtain ⟨v, rfl, rfl⟩ := Option.map_eq_some_iff.mp given
  exact field

section
variable {fields : List (String × Option Plain)} (distinct : (fields.map (·.1)).Nodup)
include distinct

/-- What is found under a key is what its field gives. -/
theorem lookup_stated {key : String} {value : Option Plain}
    (field : fields.lookup key = some value) :
    ((stated fields).map fun p => (p.1, p.2.toToml)).lookup key = value.map (·.toToml) := by
  induction fields with
  | nil => cases field
  | cons first fields ih =>
    obtain ⟨name, given⟩ := first
    obtain ⟨fresh, others⟩ := List.nodup_cons.mp distinct
    by_cases same : key = name
    · subst same
      rw [List.lookup_cons_self, Option.some.injEq] at field
      subst field
      cases given with
      | none =>
        show ((stated fields).map _).lookup key = none
        refine lookup_eq_none fun mem => fresh ((keys_stated fields).subset ?_)
        simpa using mem
      | some v => exact List.lookup_cons_self
    · rw [List.lookup_cons, beq_false_of_ne same] at field
      cases given with
      | none => exact ih others field
      | some v =>
        show List.lookup key ((name, v.toToml) :: _) = _
        rw [List.lookup_cons, beq_false_of_ne same]
        exact ih others field

theorem gives_stated {α : Type} {Means : Toml → α → Prop} {key : String} (place : Nat)
    {value : Option α} {write : α → Plain} (field : fields.lookup key = some (value.map write))
    (means : ∀ x, Means (write x).toToml x) (name : String) :
    Gives Means key place (Section.mk name (stated fields)).toToml value := by
  have found := lookup_stated distinct field
  cases value with
  | none =>
    refine .missing fun v under => ?_
    cases under with
    | entry h => cases found.symm.trans h
  | some x => exact .given (.entry found) (means x)

theorem isWritable_stated {name : String} (bare : IsBare name)
    (keys : ∀ key ∈ fields.map (·.1), IsBare key)
    (fits : ∀ field ∈ fields, ∀ v ∈ field.2, v.Fits) :
    (Section.mk name (stated fields)).IsWritable where
  name_bare := bare
  keys_bare _ mem := keys _ (List.mem_map_of_mem (mem_of_mem_stated mem))
  fits _ mem := fits _ (mem_of_mem_stated mem) _ rfl
  keys_nodup := distinct.sublist (keys_stated fields)

end

theorem lists_texts {α : Type} {Means : Toml → α → Prop} (write : α → String)
    (means : ∀ x, Means (.str (write x)) x) (xs : List α) :
    Lists Means (Plain.texts (xs.map write)).toToml xs := by
  refine .intro ?_
  rw [List.map_map, List.forall₂_map_left_iff]
  exact List.forall₂_same.mpr fun x _ => means x

end Toml

/-! ### Configurations -/

namespace Settings

def fields (s : Settings) : List (String × Option Toml.Plain) :=
  [("languages", s.languages.map fun ls => .texts (ls.map Language.tag)),
   ("exclude_dirs", s.excludeDirs.map .texts),
   ("concurrency", s.concurrency.map .number),
   ("min_severity", s.leastSeverity.map fun level => .text level.tag)]

def toSection (s : Settings) : Toml.Section := ⟨"scan", Toml.stated s.fields⟩

/-- A file holds no number of workers that has no room in a word. -/
def Fits (s : Settings) : Prop := ∀ n, s.concurrency = some n → n < Word.signedLimit

theorem fields_nodup (s : Settings) : (s.fields.map (·.1)).Nodup := fieldNames_nodup

theorem saidBy_section (s : Settings) : SaidBy s.toSection.toToml s where
  form := .table fun e mem => by
    obtain ⟨pair, stated, rfl⟩ := List.mem_map.mp mem
    have named : pair.1 ∈ s.fields.map (·.1) :=
      List.mem_map_of_mem (Toml.mem_of_mem_stated stated)
    exact named
  languages := Toml.gives_stated s.fields_nodup 0 rfl (Toml.lists_texts _ .alone) _
  excludeDirs := Toml.gives_stated s.fields_nodup 1 rfl
    (fun names => by simpa using Toml.lists_texts id .intro names) _
  concurrency := Toml.gives_stated s.fields_nodup 2 rfl .intro _
  leastSeverity := Toml.gives_stated s.fields_nodup 3 rfl .alone _

theorem isWritable_section {s : Settings} (fits : s.Fits) : s.toSection.IsWritable := by
  refine Toml.isWritable_stated s.fields_nodup (by decide) ?_ ?_
  · show ∀ key ∈ fieldNames, Toml.IsBare key
    decide
  · simp only [fields, List.forall_mem_cons, Option.forall_mem_map]
    exact ⟨fun _ _ => trivial, fun _ _ => trivial, fits, fun _ _ => trivial, List.forall_mem_nil _⟩

end Settings

namespace Policy

def fields (p : Policy) : List (String × Option Toml.Plain) :=
  [("fail_on", p.failOn.map fun level => .text level.tag)]

def toSection (p : Policy) : Toml.Section := ⟨"policy", Toml.stated p.fields⟩

theorem fields_nodup (p : Policy) : (p.fields.map (·.1)).Nodup := by
  show ["fail_on"].Nodup
  decide

theorem saidBy_section (p : Policy) : SaidBy p.toSection.toToml p where
  record := .table _
  failOn := Toml.gives_stated p.fields_nodup 0 rfl .alone _

theorem isWritable_section (p : Policy) : p.toSection.IsWritable := by
  refine Toml.isWritable_stated p.fields_nodup (by decide) ?_ ?_
  · show ∀ key ∈ ["fail_on"], Toml.IsBare key
    decide
  · simp only [fields, List.forall_mem_cons, Option.forall_mem_map]
    exact ⟨fun _ _ => trivial, List.forall_mem_nil _⟩

end Policy

namespace Config

def sections (c : Config) : List Toml.Section := [c.settings.toSection, c.policy.toSection]

/-- A file that says the configuration. -/
def text (c : Config) : List Char := c.sections.flatMap (·.text)

/-- **Every configuration can be said.** -/
theorem saidBy_text {c : Config} (fits : c.settings.Fits) :
    ∃ t, Toml.ofText? c.text = some t ∧ SaidBy t c := by
  refine ⟨_, Toml.ofText?_sections ?_ ?_, .table _, ?_, ?_⟩
  · simp only [sections, List.forall_mem_cons]
    exact ⟨Settings.isWritable_section fits, c.policy.isWritable_section, List.forall_mem_nil _⟩
  · show ["scan", "policy"].Nodup
    decide
  · exact ⟨_, .given (.entry List.lookup_cons_self) c.settings.saidBy_section, rfl⟩
  · exact ⟨_, .given (.entry rfl) c.policy.saidBy_section, rfl⟩

example : Config.text ⟨{ languages := some [.python, .go], concurrency := some 3 }, ⟨some .high⟩⟩ =
    ("[scan]\nlanguages = [\"python\",\"go\",]\nconcurrency = 3\n" ++
      "[policy]\nfail_on = \"high\"\n").toList := by
  decide +kernel

end Config
end SourceAudit
