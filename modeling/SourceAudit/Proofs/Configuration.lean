import Mathlib.Data.List.Forall2
import SourceAudit.Config

/-! What the table of a configuration file says.

Which key gives which setting, which values a setting can have and which tables are refused is
stated here apart from the program (`Settings.SaidBy`, `Policy.SaidBy`, `Config.SaidBy`). The program
makes of a table exactly the configuration that the table says, and refuses a table that says none
(`Config.ofToml?_eq_some_iff`). -/
namespace SourceAudit

namespace Toml

/-! ### Values -/

/-- A value that names something: by its tag alone, or by its tag as the only key of a table, with
nothing in the list or table under it. -/
inductive Names {α : Type} (tag : α → String) : Toml → α → Prop
  | alone (x : α) : Names tag (.str (tag x)) x
  | overList (x : α) : Names tag (.table [(tag x, .arr [])]) x
  | overTable (x : α) : Names tag (.table [(tag x, .table [])]) x

inductive IsText : Toml → String → Prop
  | intro (s : String) : IsText (.str s) s

/-- A number that is not negative. -/
inductive IsNumber : Toml → Nat → Prop
  | intro (n : Nat) : IsNumber (.int n) n

/-- A list whose items all mean something. -/
inductive Lists {α : Type} (Means : Toml → α → Prop) : Toml → List α → Prop
  | intro {items : List Toml} {xs : List α} (each : List.Forall₂ Means items xs) :
      Lists Means (.arr items) xs

/-- What stands under a key of a table, or at the place of that key in a list. -/
inductive Under (key : String) (place : Nat) : Toml → Toml → Prop
  | entry {entries : List (String × Toml)} {v : Toml} (h : entries.lookup key = some v) :
      Under key place (.table entries) v
  | item {items : List Toml} {v : Toml} (h : items[place]? = some v) :
      Under key place (.arr items) v

/-- What a key gives: what its value means, or nothing if it is missing. -/
inductive Gives {α : Type} (Means : Toml → α → Prop) (key : String) (place : Nat) (t : Toml) :
    Option α → Prop
  | given {v : Toml} {x : α} (under : Under key place t v) (means : Means v x) :
      Gives Means key place t (some x)
  | missing (h : ∀ v, ¬Under key place t v) : Gives Means key place t none

/-- A value with parts. A moment in time counts as one, but none of its parts has a key. -/
inductive IsRecord : Toml → Prop
  | table (entries : List (String × Toml)) : IsRecord (.table entries)
  | list (items : List Toml) : IsRecord (.arr items)
  | moment (text : List Char) : IsRecord (.moment text)

end Toml

/-! ### Tables -/

/-- A table with no keys but those of settings, or a list with a value for each of them. -/
inductive Settings.IsForm : Toml → Prop
  | table {entries : List (String × Toml)}
      (known : ∀ e ∈ entries, e.1 ∈ ["languages", "exclude_dirs", "concurrency", "min_severity"]) :
      IsForm (.table entries)
  | list {items : List Toml} (all : 4 ≤ items.length) : IsForm (.arr items)

theorem Settings.IsForm.isRecord {t : Toml} (h : Settings.IsForm t) : t.IsRecord := by
  cases h with
  | table known => exact .table _
  | list all => exact .list _

/-- The settings that a table says. -/
structure Settings.SaidBy (t : Toml) (s : Settings) : Prop where
  form : Settings.IsForm t
  languages : Toml.Gives (Toml.Lists (Toml.Names Language.tag)) "languages" 0 t s.languages
  excludeDirs : Toml.Gives (Toml.Lists Toml.IsText) "exclude_dirs" 1 t s.excludeDirs
  concurrency : Toml.Gives Toml.IsNumber "concurrency" 2 t s.concurrency
  leastSeverity : Toml.Gives (Toml.Names Severity.tag) "min_severity" 3 t s.leastSeverity

/-- The policy that a table says; other keys do not matter. -/
structure Policy.SaidBy (t : Toml) (p : Policy) : Prop where
  record : t.IsRecord
  failOn : Toml.Gives (Toml.Names Severity.tag) "fail_on" 0 t p.failOn

/-- The configuration that a table says; other keys do not matter, and a part that is missing says
nothing. -/
structure Config.SaidBy (t : Toml) (c : Config) : Prop where
  record : t.IsRecord
  settings : ∃ given, Toml.Gives Settings.SaidBy "scan" 0 t given ∧ c.settings = given.getD {}
  policy : ∃ given, Toml.Gives Policy.SaidBy "policy" 1 t given ∧ c.policy = given.getD {}

/-! ### Reading records -/

namespace Record
variable {ν α : Type} (r : Record ν) (name : String) (read : ν → Option α)

theorem defaulted_eq (value : α) :
    r.defaulted name value read = ((r.field? name).mapM read).map (·.getD value) := by
  unfold defaulted
  cases r.field? name with
  | none => rfl
  | some v =>
    rw [Option.mapM_some]
    show read v = ((read v).map some).map _
    cases read v <;> rfl

theorem defaulted_none_eq :
    r.defaulted name none (fun v => (read v).map some) = (r.field? name).mapM read := by
  unfold defaulted
  cases r.field? name <;> rfl

end Record

/-! ### Reading values -/

theorem Language.ofTag?_eq_some_iff (s : String) (l : Language) :
    Language.ofTag? s = some l ↔ l.tag = s := by
  constructor
  · intro h
    simpa using List.find?_some h
  · rintro rfl
    cases l <;> rfl

theorem Severity.ofTag?_eq_some_iff (s : String) (level : Severity) :
    Severity.ofTag? s = some level ↔ level.tag = s := by
  constructor
  · intro h
    simpa using List.find?_some h
  · rintro rfl
    cases level <;> rfl

namespace Toml

theorem isEmpty_iff {t : Toml} : t.isEmpty = true ↔ t = .arr [] ∨ t = .table [] := by
  unfold isEmpty
  split <;> simp_all

theorem tag?_eq_some_iff {α : Type} {ofTag? : String → Option α} {tag : α → String}
    (exact : ∀ s x, ofTag? s = some x ↔ tag x = s) (t : Toml) (x : α) :
    tag? ofTag? t = some x ↔ Names tag t x := by
  constructor
  · intro h
    unfold tag? at h
    split at h
    · obtain rfl := (exact _ x).mp h
      exact .alone x
    · split at h
      · obtain rfl := (exact _ x).mp h
        rcases isEmpty_iff.mp ‹_› with rfl | rfl
        · exact .overList x
        · exact .overTable x
      · cases h
    · cases h
  · intro h
    cases h with
    | alone => exact (exact _ x).mpr rfl
    | overList => exact (exact _ x).mpr rfl
    | overTable => exact (exact _ x).mpr rfl

theorem string?_eq_some_iff (t : Toml) (s : String) : string? t = some s ↔ IsText t s := by
  constructor
  · intro h
    cases t with
    | str =>
      cases h
      exact .intro s
    | _ => cases h
  · intro h
    cases h
    rfl

theorem count?_eq_some_iff (t : Toml) (n : Nat) : count? t = some n ↔ IsNumber t n := by
  constructor
  · intro h
    unfold count? at h
    split at h
    · cases h
      exact .intro n
    · cases h
  · intro h
    cases h
    rfl

section
variable {α : Type} {read : Toml → Option α} {Means : Toml → α → Prop}
  (reads : ∀ v x, read v = some x ↔ Means v x)
include reads

theorem mapM_eq_some_iff (items : List Toml) (xs : List α) :
    items.mapM read = some xs ↔ List.Forall₂ Means items xs := by
  induction items generalizing xs with
  | nil => simp [eq_comm]
  | cons v items ih =>
    simp only [List.mapM_cons, Option.bind_eq_bind, Option.bind_eq_some_iff, Option.pure_def,
      Option.some.injEq, List.forall₂_cons_left_iff, reads, ih]
    grind

theorem list?_eq_some_iff (t : Toml) (xs : List α) :
    list? read t = some xs ↔ Lists Means t xs := by
  constructor
  · intro h
    cases t with
    | arr items => exact .intro ((mapM_eq_some_iff reads items xs).mp h)
    | _ => cases h
  · intro h
    cases h with
    | intro each => exact (mapM_eq_some_iff reads _ xs).mpr each

end

/-! ### Reading tables -/

theorem isRecord_iff (names : List String) (t : Toml) :
    t.IsRecord ↔ ∃ r, t.record? names = some r := by
  constructor
  · intro h
    cases h with
    | table entries => exact ⟨_, rfl⟩
    | list items => exact ⟨_, rfl⟩
    | moment text => exact ⟨_, rfl⟩
  · rintro ⟨r, h⟩
    cases t with
    | table entries => exact .table entries
    | arr items => exact .list items
    | moment text => exact .moment text
    | _ => cases h

/-- The items of a list are found under the names in their places. -/
theorem lookup_zip {names : List String} (distinct : names.Nodup) {place : Nat} {key : String}
    (named : names[place]? = some key) (items : List Toml) :
    (names.zip items).lookup key = items[place]? := by
  induction names generalizing place items with
  | nil => cases named
  | cons name names ih =>
    obtain ⟨absent, distinct⟩ := List.nodup_cons.mp distinct
    cases items with
    | nil => rfl
    | cons item items =>
      cases place with
      | zero =>
        cases named
        exact List.lookup_cons_self
      | succ place =>
        rw [List.getElem?_cons_succ] at named ⊢
        have other : (key == name) = false := by
          apply beq_false_of_ne
          rintro rfl
          exact absent (List.mem_of_getElem? named)
        rw [List.zip_cons_cons, List.lookup_cons, other, ih distinct named]

theorem field?_eq_some_iff {names : List String} (distinct : names.Nodup) (place : Nat)
    {key : String} (named : names[place]? = some key) {t : Toml} {r : Record Toml}
    (h : t.record? names = some r) (v : Toml) :
    r.field? key = some v ↔ Under key place t v := by
  cases t with
  | table entries =>
    cases h
    exact ⟨.entry, fun | .entry found => found⟩
  | arr items =>
    cases h
    show (names.zip items).lookup key = some v ↔ _
    rw [lookup_zip distinct named]
    exact ⟨.item, fun | .item found => found⟩
  | moment text =>
    cases h
    exact ⟨fun found => (nomatch found), fun found => (nomatch found)⟩
  | _ => cases h

/-- What a key gives is read off its field. -/
theorem gives_iff {α : Type} {read : Toml → Option α} {Means : Toml → α → Prop}
    (reads : ∀ v x, read v = some x ↔ Means v x) {key : String} {place : Nat} {t : Toml}
    {r : Record Toml} (fields : ∀ v, r.field? key = some v ↔ Under key place t v)
    (x : Option α) : Gives Means key place t x ↔ (r.field? key).mapM read = some x := by
  constructor
  · intro h
    cases h with
    | @given v y under means =>
      rw [(fields v).mpr under, Option.mapM_some, (reads v y).mpr means]
      rfl
    | missing none =>
      have absent : r.field? key = Option.none :=
        Option.eq_none_iff_forall_ne_some.mpr fun v found => none v ((fields v).mp found)
      rw [absent]
      rfl
  · intro h
    cases found : r.field? key with
    | none =>
      rw [found] at h
      cases h
      exact .missing fun v under => by cases found.symm.trans ((fields v).mpr under)
    | some v =>
      rw [found, Option.mapM_some] at h
      obtain ⟨y, value, rfl⟩ := Option.map_eq_some_iff.mp h
      exact .given ((fields v).mp found) ((reads v y).mp value)

theorem defaulted_eq_some_iff {α : Type} {read : Toml → Option α} {Means : Toml → α → Prop}
    (reads : ∀ v x, read v = some x ↔ Means v x) {key : String} {place : Nat} {t : Toml}
    {r : Record Toml} (fields : ∀ v, r.field? key = some v ↔ Under key place t v) (value x : α) :
    r.defaulted key value read = some x ↔
      ∃ given, Gives Means key place t given ∧ x = given.getD value := by
  rw [r.defaulted_eq, Option.map_eq_some_iff]
  simp only [gives_iff reads fields, eq_comm]

end Toml

/-! ### Reading configurations -/

namespace Settings

theorem fieldNames_nodup : fieldNames.Nodup := by decide

/-- No key is unknown, and no item of a list is missing. -/
theorem isForm_iff {t : Toml} {r : Record Toml} (h : t.record? fieldNames = some r) :
    IsForm t ↔ t.keys.all fieldNames.contains = true ∧
      (r.positional = true → ∀ name ∈ fieldNames, ∃ v, r.field? name = some v) := by
  cases t with
  | table entries =>
    cases h
    have known : (Toml.table entries).keys.all fieldNames.contains = true ↔
        ∀ e ∈ entries, e.1 ∈ fieldNames := by
      simp [Toml.keys, List.all_eq_true]
    rw [known]
    exact ⟨fun | .table known => ⟨known, fun listed => nomatch listed⟩, fun h => .table h.1⟩
  | arr items =>
    cases h
    have unkeyed : (Toml.arr items).keys.all fieldNames.contains = true := rfl
    constructor
    · intro form
      refine ⟨unkeyed, fun _ name mem => ?_⟩
      cases form with
      | list all =>
        obtain ⟨place, named⟩ := List.getElem?_of_mem mem
        have inside : place < items.length :=
          Nat.lt_of_lt_of_le (List.getElem?_eq_some_iff.mp named).1 all
        exact ⟨items[place], (Toml.lookup_zip fieldNames_nodup named items).trans
          (List.getElem?_eq_getElem inside)⟩
    · intro h
      obtain ⟨v, last⟩ := h.2 rfl "min_severity" (by decide)
      have found : items[3]? = some v :=
        (Toml.lookup_zip fieldNames_nodup rfl items).symm.trans last
      exact .list (List.getElem?_eq_some_iff.mp found).1
  | moment text =>
    have unknown : (Toml.moment text).keys.all fieldNames.contains = false := rfl
    constructor
    · intro form
      cases form
    · intro h
      cases unknown.symm.trans h.1
  | _ => cases h

section
variable {t : Toml} {r : Record Toml} (record : t.record? fieldNames = some r)
include record

theorem setting?_eq_some_iff {α : Type} {read : Toml → Option α} {Means : Toml → α → Prop}
    (reads : ∀ v x, read v = some x ↔ Means v x) {key : String} (place : Nat)
    (named : fieldNames[place]? = some key) (x : Option α) :
    setting? r key read = some x ↔
      Toml.Gives Means key place t x ∧ (r.positional = true → ∃ v, r.field? key = some v) := by
  rw [Toml.gives_iff reads (Toml.field?_eq_some_iff fieldNames_nodup place named record)]
  unfold setting? Record.optional
  cases r.field? key with
  | none => cases r.positional <;> simp
  | some v => simp

theorem ofToml?_of_record (s : Settings) :
    ofToml? t = some s ↔ t.keys.all fieldNames.contains = true ∧
      setting? r "languages" (Toml.list? (Toml.tag? Language.ofTag?)) = some s.languages ∧
      setting? r "exclude_dirs" (Toml.list? Toml.string?) = some s.excludeDirs ∧
      setting? r "concurrency" Toml.count? = some s.concurrency ∧
      setting? r "min_severity" (Toml.tag? Severity.ofTag?) = some s.leastSeverity := by
  obtain ⟨languages, excludeDirs, concurrency, leastSeverity⟩ := s
  unfold ofToml?
  rw [record]
  simp [Option.bind_eq_some_iff]

end

theorem ofToml?_eq_some_iff (t : Toml) (s : Settings) : ofToml? t = some s ↔ SaidBy t s := by
  have languages := Toml.list?_eq_some_iff (Toml.tag?_eq_some_iff Language.ofTag?_eq_some_iff)
  have excludeDirs := Toml.list?_eq_some_iff Toml.string?_eq_some_iff
  have leastSeverity := Toml.tag?_eq_some_iff Severity.ofTag?_eq_some_iff
  cases record : t.record? fieldNames with
  | none =>
    have refused : ofToml? t = none := by rw [ofToml?, record]; rfl
    constructor
    · intro h
      cases refused.symm.trans h
    · intro h
      obtain ⟨r, found⟩ := (Toml.isRecord_iff fieldNames t).mp h.form.isRecord
      cases record.symm.trans found
  | some r =>
    rw [ofToml?_of_record record, setting?_eq_some_iff record languages 0 rfl,
      setting?_eq_some_iff record excludeDirs 1 rfl,
      setting?_eq_some_iff record Toml.count?_eq_some_iff 2 rfl,
      setting?_eq_some_iff record leastSeverity 3 rfl]
    constructor
    · rintro ⟨known, ⟨hl, l⟩, ⟨he, e⟩, ⟨hc, c⟩, ⟨hs, s⟩⟩
      refine ⟨(isForm_iff record).mpr ⟨known, fun listed => ?_⟩, hl, he, hc, hs⟩
      simp only [fieldNames, List.forall_mem_cons]
      exact ⟨l listed, e listed, c listed, s listed, List.forall_mem_nil _⟩
    · rintro ⟨form, hl, he, hc, hs⟩
      obtain ⟨known, all⟩ := (isForm_iff record).mp form
      exact ⟨known, ⟨hl, fun listed => all listed _ (by decide)⟩,
        ⟨he, fun listed => all listed _ (by decide)⟩, ⟨hc, fun listed => all listed _ (by decide)⟩,
        ⟨hs, fun listed => all listed _ (by decide)⟩⟩

end Settings

theorem Policy.ofToml?_eq_some_iff (t : Toml) (p : Policy) : ofToml? t = some p ↔ SaidBy t p := by
  have severity := Toml.tag?_eq_some_iff Severity.ofTag?_eq_some_iff
  constructor
  · intro h
    obtain ⟨r, record, h⟩ := Option.bind_eq_some_iff.mp h
    obtain ⟨failOn, read, h⟩ := Option.bind_eq_some_iff.mp h
    cases h
    have field := Toml.field?_eq_some_iff (by decide) 0 rfl record
    rw [Record.defaulted_none_eq, ← Toml.gives_iff severity field] at read
    exact ⟨(Toml.isRecord_iff _ t).mpr ⟨r, record⟩, read⟩
  · intro h
    obtain ⟨r, record⟩ := (Toml.isRecord_iff ["fail_on"] t).mp h.record
    have field := Toml.field?_eq_some_iff (by decide) 0 rfl record
    have read := (Toml.gives_iff severity field _).mp h.failOn
    rw [← Record.defaulted_none_eq] at read
    exact Option.bind_eq_some_iff.mpr ⟨r, record, Option.bind_eq_some_iff.mpr ⟨_, read, rfl⟩⟩

/-- **A table is read as the configuration that it says.** One that says none is refused. -/
theorem Config.ofToml?_eq_some_iff (t : Toml) (c : Config) : ofToml? t = some c ↔ SaidBy t c := by
  constructor
  · intro h
    obtain ⟨r, record, h⟩ := Option.bind_eq_some_iff.mp h
    obtain ⟨settings, readScan, h⟩ := Option.bind_eq_some_iff.mp h
    obtain ⟨policy, readPolicy, h⟩ := Option.bind_eq_some_iff.mp h
    cases h
    have scanField := Toml.field?_eq_some_iff (by decide) 0 rfl record
    have policyField := Toml.field?_eq_some_iff (by decide) 1 rfl record
    rw [Toml.defaulted_eq_some_iff Settings.ofToml?_eq_some_iff scanField] at readScan
    rw [Toml.defaulted_eq_some_iff Policy.ofToml?_eq_some_iff policyField] at readPolicy
    exact ⟨(Toml.isRecord_iff _ t).mpr ⟨r, record⟩, readScan, readPolicy⟩
  · intro h
    obtain ⟨r, record⟩ := (Toml.isRecord_iff ["scan", "policy"] t).mp h.record
    have scanField := Toml.field?_eq_some_iff (by decide) 0 rfl record
    have policyField := Toml.field?_eq_some_iff (by decide) 1 rfl record
    have readScan :=
      (Toml.defaulted_eq_some_iff Settings.ofToml?_eq_some_iff scanField {} _).mpr h.settings
    have readPolicy :=
      (Toml.defaulted_eq_some_iff Policy.ofToml?_eq_some_iff policyField {} _).mpr h.policy
    refine Option.bind_eq_some_iff.mpr ⟨r, record, Option.bind_eq_some_iff.mpr ⟨_, readScan, ?_⟩⟩
    exact Option.bind_eq_some_iff.mpr ⟨_, readPolicy, rfl⟩

end SourceAudit
