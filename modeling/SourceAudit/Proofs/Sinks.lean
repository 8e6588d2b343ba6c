import SourceAudit.Proofs.Lowering.Sites
import SourceAudit.Proofs.Lowering.Vocabulary

/-! Calls that hand something harmful on.

Three rules inspect one argument of certain calls: the command of a new process, the path of a file,
the text of a query. Which calls these are and where the argument stands is a table of rows (`rows`),
and what is harmful is said of the argument inside its wrappers, in the vocabulary of the language
(`Harms`). A rule reports a node exactly if it hands something harmful to such a call (`Flags`); the
lookups of the rule are the rows of the table because no name stands in two of them. -/
namespace SourceAudit
open Syntax

/-- What a call hands its argument to. -/
inductive Sink where
  | command
  | file
  | query

/-- A row of the table of dangerous calls. -/
structure Sink.Row where
  /-- Whether the names are those of whole callees. -/
  callees : Bool := false
  /-- Whether the names are those of called members. -/
  members : Bool := false
  names : List String
  /-- The place of the argument to inspect. -/
  place : Nat := 0

namespace Sink

/-- The rule about calls of a sink. -/
def rule : Sink → StructuralRule
  | .command => .command
  | .file => .fileAccess
  | .query => .query

/-- The table of dangerous calls. -/
def rows : Sink → Language → List Row
  | .command, .javascript | .command, .typescript =>
    [{ callees := true, members := true,
       names := ["exec", "execSync", "execFile", "execFileSync", "spawn", "spawnSync"] }]
  | .command, .python =>
    [{ callees := true,
       names := ["os.system", "os.popen", "os.exec", "os.execv", "os.execve", "os.execvp",
         "subprocess.call", "subprocess.run", "subprocess.Popen", "subprocess.check_output",
         "subprocess.check_call", "commands.getoutput"] }]
  | .command, .go =>
    [{ callees := true, names := ["exec.Command"] },
     { callees := true, names := ["exec.CommandContext"], place := 1 }]
  | .file, .javascript | .file, .typescript =>
    [{ members := true,
       names := ["readFile", "readFileSync", "writeFile", "writeFileSync", "appendFile",
         "appendFileSync", "unlink", "unlinkSync", "readdir", "readdirSync", "createReadStream",
         "createWriteStream"] }]
  | .file, .python => [{ callees := true, names := ["open"] }]
  | .file, .go =>
    [{ callees := true,
       names := ["os.Open", "os.Create", "os.OpenFile", "os.ReadFile", "os.WriteFile"] }]
  | .query, .javascript | .query, .typescript =>
    [{ members := true, names := ["query", "execute", "raw", "prepare"] }]
  | .query, .python => [{ members := true, names := ["execute", "executemany"] }]
  | .query, .go =>
    [{ members := true, names := ["Query", "Exec", "QueryRow"] },
     { members := true, names := ["QueryContext", "ExecContext", "QueryRowContext"], place := 1 }]

/-- Which argument of a call is inspected: the row of the whole callee tells, or else that of the
called member. -/
inductive Inspects (sink : Sink) (language : Language) (source : Source) (callee : Tree) :
    Nat → Prop
  | callee {row : Row} (mem : row ∈ sink.rows language) (compared : row.callees = true)
      (listed : Lowering.calleeText source callee ∈ row.names) :
      Inspects sink language source callee row.place
  | member {row : Row} {name : String}
      (other : ∀ row ∈ sink.rows language, row.callees = true →
        Lowering.calleeText source callee ∉ row.names)
      (named : language.vocabulary.Names source callee name)
      (mem : row ∈ sink.rows language) (compared : row.members = true)
      (listed : name ∈ row.names) :
      Inspects sink language source callee row.place

/-- The inspected argument of a call. -/
def Inspected (sink : Sink) (language : Language) (source : Source) (t arg : Tree) : Prop :=
  ∃ callee place, language.vocabulary.Calls t callee ∧
    sink.Inspects language source callee place ∧ language.vocabulary.Passes t place arg

/-- What a sink must not be handed. -/
def Harms : Sink → Vocabulary → Source → Tree → Prop
  | .command, v, _, t => ¬v.IsPlain t
  | .file, v, _, t => v.IsDynamic t
  | .query, v, source, t => v.IsBuilt source t

/-- A call whose inspected argument, inside its wrappers, does harm. -/
def Flags (sink : Sink) (language : Language) (source : Source) (t : Tree) : Prop :=
  ∃ arg inner, sink.Inspected language source t arg ∧ language.vocabulary.Peels arg inner ∧
    sink.Harms language.vocabulary source inner

/-! ### The tables of the rules -/

def table : Sink → Language → CallTable
  | .command => StructuralRule.spawnTable
  | .file => StructuralRule.fileTable
  | .query => StructuralRule.queryTable

def Row.entries (row : Row) : List (String × Nat) := CallTable.entries row.names row.place

/-- Two rows that share no name. -/
def Row.Apart (row other : Row) : Prop := ∀ name ∈ row.names, name ∉ other.names

instance (row other : Row) : Decidable (Row.Apart row other) :=
  inferInstanceAs (Decidable (∀ name ∈ row.names, name ∉ other.names))

/-- What the rule about a sink asks of a call. -/
def judges : Sink → Language → Call → Bool
  | .command => StructuralRule.isCommand
  | .file => StructuralRule.isFileAccess
  | .query => StructuralRule.isQuery

theorem criterion_eq (sink : Sink) : sink.rule.criterion = .calls sink.judges := by
  cases sink <;> rfl

def test : Sink → Shape → Bool
  | .command, shape => !shape.isStringLiteral
  | .file, shape => shape.isDynamic
  | .query, shape => shape.isBuiltString

section Table
variable (sink : Sink) (language : Language)

theorem callees_eq : (sink.table language).callees =
    ((sink.rows language).filter (·.callees)).flatMap Row.entries := by
  cases sink <;> cases language <;> rfl

theorem properties_eq : (sink.table language).properties =
    ((sink.rows language).filter (·.members)).flatMap Row.entries := by
  cases sink <;> cases language <;> rfl

theorem rows_apart : (sink.rows language).Pairwise Row.Apart := by
  cases sink <;> cases language <;> decide +kernel

end Table

theorem lookup_entries (row : Row) (name : String) :
    row.entries.lookup name = if name ∈ row.names then some row.place else none := by
  unfold Row.entries CallTable.entries
  induction row.names with
  | nil => rfl
  | cons first names ih =>
    rw [List.map_cons, List.lookup_cons, ih]
    by_cases same : name = first
    · simp [same]
    · simp [same, beq_false_of_ne same]

theorem lookup_rows {rows : List Row} (apart : rows.Pairwise Row.Apart) {name : String}
    {place : Nat} :
    (rows.flatMap Row.entries).lookup name = some place ↔
      ∃ row ∈ rows, name ∈ row.names ∧ row.place = place := by
  induction rows with
  | nil => simp
  | cons row rows ih =>
    obtain ⟨first, rest⟩ := List.pairwise_cons.mp apart
    rw [List.flatMap_cons, List.lookup_append, lookup_entries]
    by_cases listed : name ∈ row.names
    · -- no later row lists the name again
      have later : ∀ other ∈ rows, name ∉ other.names := fun other mem => first other mem name listed
      simp_all
    · simp [listed, ih rest]

theorem lookup_rows_none {rows : List Row} {name : String} :
    (rows.flatMap Row.entries).lookup name = none ↔ ∀ row ∈ rows, name ∉ row.names := by
  induction rows with
  | nil => simp
  | cons row rows ih =>
    rw [List.flatMap_cons, List.lookup_append, lookup_entries, Option.or_eq_none_iff, ih,
      List.forall_mem_cons]
    simp

/-! ### Reported calls -/

section Reports
variable {sink : Sink} {language : Language} {source : Source} {t callee : Tree} {c : Call}

/-- The lookups of a rule follow the rows of the table. -/
theorem index?_iff (h : language.lowering.Reads language.vocabulary source t callee c)
    {place : Nat} :
    (sink.table language).index? c = some place ↔ sink.Inspects language source callee place := by
  have apart := rows_apart sink language
  rw [CallTable.index?, callees_eq, properties_eq, h.callee_eq, Option.or_eq_some_iff,
    lookup_rows (apart.filter _), lookup_rows_none, Option.bind_eq_some_iff]
  simp only [lookup_rows (apart.filter _), List.mem_filter, h.property]
  constructor
  · intro found
    rcases found with ⟨row, ⟨mem, compared⟩, listed, rfl⟩ |
      ⟨other, name, named, row, ⟨mem, compared⟩, listed, rfl⟩
    · exact .callee mem compared listed
    · exact .member (fun row mem compared => other row ⟨mem, compared⟩) named mem compared listed
  · intro inspects
    cases inspects with
    | callee mem compared listed => exact .inl ⟨_, ⟨mem, compared⟩, listed, rfl⟩
    | member other named mem compared listed =>
      exact .inr ⟨fun row h => other row h.1 h.2, _, named, _, ⟨mem, compared⟩, listed, rfl⟩

theorem inspects_iff {table : CallTable} {test : Shape → Bool} :
    table.inspects test c = true ↔
      ∃ place shape, table.index? c = some place ∧
        (c.args[place]?).map (·.shape) = some shape ∧ test shape = true := by
  simp only [CallTable.inspects, CallTable.argument?, Option.any_eq_true, Option.bind_eq_some_iff,
    Option.map_eq_some_iff]
  constructor
  · intro h
    obtain ⟨x, ⟨place, index, item⟩, accepted⟩ := h
    exact ⟨place, x.shape, index, ⟨x, item, rfl⟩, accepted⟩
  · intro h
    obtain ⟨place, shape, index, ⟨x, item, rfl⟩, accepted⟩ := h
    exact ⟨x, ⟨place, index, item⟩, accepted⟩

/-- Only a called member is looked up as a query. -/
theorem isSome_property (h : (table .query language).inspects (·.isBuiltString) c = true) :
    c.property.isSome = true := by
  obtain ⟨place, -, index, -⟩ := inspects_iff.mp h
  cases property : c.property with
  | none =>
    have missed : (table .query language).index? c = none := by
      rw [CallTable.index?, property]
      cases language <;> rfl
    cases missed.symm.trans index
  | some name => rfl

/-- A rule judges a call by the inspected argument, unless an object is constructed. -/
theorem judges_iff :
    sink.judges language c = true ↔
      c.construct = false ∧ (sink.table language).inspects sink.test c = true := by
  cases sink with
  | command =>
    show StructuralRule.isCommand language c = true ↔ _
    simp only [StructuralRule.isCommand, Bool.and_eq_true, Bool.not_eq_true']
    rfl
  | file =>
    show StructuralRule.isFileAccess language c = true ↔ _
    simp only [StructuralRule.isFileAccess, Bool.and_eq_true, Bool.not_eq_true']
    rfl
  | query =>
    show StructuralRule.isQuery language c = true ↔ _
    simp only [StructuralRule.isQuery, Bool.and_eq_true, Bool.not_eq_true']
    constructor
    · intro h
      obtain ⟨⟨plain, -⟩, inspected⟩ := h
      exact ⟨plain, inspected⟩
    · intro h
      obtain ⟨plain, inspected⟩ := h
      exact ⟨⟨plain, isSome_property inspected⟩, inspected⟩

theorem reports_iff :
    sink.rule.reports source language t = true ↔
      ∃ c, language.lowering.call? source t = some c ∧ c.construct = false ∧
        (sink.table language).inspects sink.test c = true := by
  rw [StructuralRule.reports, criterion_eq]
  simp only [Option.any_eq_true, judges_iff]

theorem test_iff {v : Vocabulary} {inner : Tree} {shape : Shape}
    (h : v.Describes source inner shape) :
    sink.test shape = true ↔ sink.Harms v source inner := by
  cases sink with
  | command =>
    show (!shape.isStringLiteral) = true ↔ ¬v.IsPlain inner
    rw [← h.plain, Bool.not_eq_true', Bool.not_eq_true]
  | file => exact h.dynamic
  | query => exact h.built

theorem test_of_isStringLiteral {shape : Shape} (h : shape.isStringLiteral = true) :
    sink.test shape = false := by
  cases shape with
  | stringLiteral => cases sink <;> rfl
  | _ => cases h

/-- A call is judged by its inspected argument alone. -/
theorem reports_of_inspected {arg inner : Tree} (h : sink.Inspected language source t arg)
    (peels : language.vocabulary.Peels arg inner) :
    sink.rule.reports source language t = true ↔
      sink.Harms language.vocabulary source inner := by
  obtain ⟨callee, place, calls, inspects, passes⟩ := h
  obtain ⟨c, call, reads⟩ := language.follows.reads calls source
  have index := (index?_iff reads).mpr inspects
  have item := reads.args.mpr ⟨arg, passes, rfl⟩
  rw [reports_iff, ← test_iff (language.follows.describes peels source)]
  constructor
  · intro h
    obtain ⟨c', call', -, inspected⟩ := h
    cases call.symm.trans call'
    obtain ⟨place', shape, index', item', accepted⟩ := inspects_iff.mp inspected
    cases index.symm.trans index'
    cases item.symm.trans item'
    exact accepted
  · intro accepted
    exact ⟨c, call, reads.call, inspects_iff.mpr ⟨place, _, index, item, accepted⟩⟩

theorem exists_inspected (h : sink.rule.reports source language t = true) :
    ∃ arg, sink.Inspected language source t arg := by
  obtain ⟨c, call, plain, inspected⟩ := reports_iff.mp h
  obtain ⟨place, shape, index, item, -⟩ := inspects_iff.mp inspected
  obtain ⟨callee, calls⟩ := language.follows.calls call plain
  obtain ⟨c', call', reads⟩ := language.follows.reads calls source
  cases call.symm.trans call'
  obtain ⟨arg, passes, -⟩ := reads.args.mp item
  exact ⟨arg, callee, place, calls, (index?_iff reads).mp index, passes⟩

theorem reports_iff_flags :
    sink.rule.reports source language t = true ↔ sink.Flags language source t := by
  constructor
  · intro h
    obtain ⟨arg, inspected⟩ := exists_inspected h
    obtain ⟨inner, peels⟩ := language.follows.peels arg
    exact ⟨arg, inner, inspected, peels, (reports_of_inspected inspected peels).mp h⟩
  · intro h
    obtain ⟨arg, inner, inspected, peels, harms⟩ := h
    exact (reports_of_inspected inspected peels).mpr harms

/-- What a sink must not be handed is no plain string. -/
theorem not_harms_of_isPlain {arg inner : Tree} (peels : language.vocabulary.Peels arg inner)
    (h : language.vocabulary.IsPlain inner) : ¬sink.Harms language.vocabulary source inner := by
  have describes := language.follows.describes peels source
  rw [← test_iff describes, test_of_isStringLiteral (describes.plain.mpr h)]
  exact Bool.false_ne_true

end Reports

instance (sink : Sink) (language : Language) (source : Source) (t : Tree) :
    Decidable (sink.Flags language source t) :=
  decidable_of_iff _ reports_iff_flags

end Sink

/-- **The rules about commands, files and queries report exactly the calls that hand something
harmful on**, in pre-order and each at its node. In particular no call is reported whose inspected
argument is a plain string, under whatever wrappers. -/
theorem sinks_reported_exactly (sink : Sink) (language : Language) (source : Source) (t : Tree) :
    sink.rule.sites language (t.constructs source language) =
        (t.preorder.filter fun n => sink.Flags language source n).map (Site.ofTree source) ∧
      ∀ n arg inner, sink.Inspected language source n arg →
        language.vocabulary.Peels arg inner → language.vocabulary.IsPlain inner →
          sink.rule.sites language (language.lowering.own source n) = [] := by
  constructor
  · have same (n : Tree) : sink.rule.reports source language n =
        decide (sink.Flags language source n) := by
      rw [Bool.eq_iff_iff, decide_eq_true_iff, Sink.reports_iff_flags]
    rw [StructuralRule.sites_eq, funext same]
  · intro n arg inner inspected peels plain
    apply StructuralRule.sites_own_eq_nil
    rw [← Bool.not_eq_true, Sink.reports_of_inspected inspected peels]
    exact Sink.not_harms_of_isPlain peels plain

/-- A command that varies, and one that is written out, in parentheses and behind a comment. -/
theorem sinks_reported_exactly_context :
    let source := Source.ofText "exec.Command(x);exec.CommandContext(c,/**/(\"ls\"))".toList
    let literal : Tree := .node "interpreted_string_literal" none true 43 47 []
    let wrapped : Tree := .node "parenthesized_expression" none true 42 48 [literal]
    let varying : Tree := .node "call_expression" none true 0 15
      [.node "selector_expression" (some "function") true 0 12 [],
       .node "argument_list" (some "arguments") true 12 15 [.node "identifier" none true 13 14 []]]
    let fixed : Tree := .node "call_expression" none true 16 49
      [.node "selector_expression" (some "function") true 16 35 [],
       .node "argument_list" (some "arguments") true 35 49
         [.node "identifier" none true 36 37 [], .node "comment" none true 38 42 [], wrapped]]
    let file : Tree := .node "source_file" none true 0 49 [varying, fixed]
    let rule := Sink.command.rule
    rule.sites .go (file.constructs source .go) = [Site.ofTree source varying] ∧
      Sink.command.Inspected .go source fixed wrapped ∧
      Vocabulary.golang.Peels wrapped literal ∧ Vocabulary.golang.IsPlain literal ∧
      rule.sites .go (Language.go.lowering.own source fixed) = [] := by
  intro source literal wrapped varying fixed file rule
  obtain ⟨reported, never⟩ := sinks_reported_exactly .command .go source file
  have inspected : Sink.command.Inspected .go source fixed wrapped := by
    have callee : Lowering.calleeText source
        (.node "selector_expression" (some "function") true 16 35 []) ∈ ["exec.CommandContext"] := by
      decide +kernel
    have row : ⟨true, false, ["exec.CommandContext"], 1⟩ ∈ Sink.command.rows .go :=
      List.mem_cons_of_mem _ List.mem_cons_self
    exact ⟨_, 1, ⟨rfl, rfl⟩, Sink.Inspects.callee row rfl callee,
      .listed rfl (fun _ h => nomatch h) rfl (Lowering.standsFor_self rfl)⟩
  have peels : Vocabulary.golang.Peels wrapped literal :=
    .wrapped List.mem_cons_self rfl (.bare (by decide))
  have plain : Vocabulary.golang.IsPlain literal := .string List.mem_cons_self
  refine ⟨reported.trans ?_, inspected, peels, plain, never _ _ _ inspected peels plain⟩
  decide +kernel

end SourceAudit
