import SourceAudit.Proofs.Sinks

/-! The order of arguments that are passed by name.

In Python the arguments of a call that are passed by name may stand in any order behind the others.
A call keeps them in one list with those, and the three rules that inspect an argument take the
first of the list, whatever its name (`Sink.reportsCall_iff`). With an argument in front that is
passed by its place, the order of the rest is of no account. Without one it decides which argument
is inspected: the order matters exactly if two of them would be judged differently. -/
namespace SourceAudit

/-- A rule reports a call that stands alone. -/
def StructuralRule.ReportsCall (rule : StructuralRule) (language : Language) (call : Call) : Prop :=
  call.site ∈ rule.sites language ⟨[call], []⟩

instance (rule : StructuralRule) (language : Language) (call : Call) :
    Decidable (rule.ReportsCall language call) :=
  inferInstanceAs (Decidable (call.site ∈ rule.sites language ⟨[call], []⟩))

theorem StructuralRule.reportsCall_iff {rule : StructuralRule} {test : Language → Call → Bool}
    (criterion : rule.criterion = .calls test) {language : Language} {call : Call} :
    rule.ReportsCall language call ↔ test language call = true := by
  rw [ReportsCall, sites, criterion]
  cases h : test language call <;> simp [h]

namespace Sink

/-- The table of a sink in Python lists a call, by its callee or by the called member. -/
def Lists (sink : Sink) (call : Call) : Prop :=
  ∃ row ∈ sink.rows .python, row.callees = true ∧ call.callee ∈ row.names ∨
    row.members = true ∧ ∃ name ∈ row.names, call.property = some name

theorem place_eq_zero {sink : Sink} : ∀ row ∈ sink.rows .python, row.place = 0 := by
  cases sink <;> simp [rows]

theorem index?_python {sink : Sink} {call : Call} {place : Nat} :
    (sink.table .python).index? call = some place ↔ sink.Lists call ∧ place = 0 := by
  have apart := rows_apart sink .python
  rw [CallTable.index?, callees_eq, properties_eq, Option.or_eq_some_iff,
    lookup_rows (apart.filter _), lookup_rows_none, Option.bind_eq_some_iff]
  simp only [lookup_rows (apart.filter _), List.mem_filter]
  constructor
  · intro found
    rcases found with ⟨row, ⟨mem, compared⟩, listed, rfl⟩ |
      ⟨-, name, named, row, ⟨mem, compared⟩, listed, rfl⟩
    · exact ⟨⟨row, mem, .inl ⟨compared, listed⟩⟩, place_eq_zero row mem⟩
    · exact ⟨⟨row, mem, .inr ⟨compared, name, listed, named⟩⟩, place_eq_zero row mem⟩
  · intro h
    obtain ⟨⟨row, mem, how⟩, rfl⟩ := h
    by_cases whole : ∃ row ∈ sink.rows .python, row.callees = true ∧ call.callee ∈ row.names
    · obtain ⟨row, mem, compared, listed⟩ := whole
      exact .inl ⟨row, ⟨mem, compared⟩, listed, place_eq_zero row mem⟩
    · rcases how with ⟨compared, listed⟩ | ⟨compared, name, listed, named⟩
      · exact absurd ⟨row, mem, compared, listed⟩ whole
      · exact .inr ⟨fun other h listed => whole ⟨other, h.1, h.2, listed⟩, name, named, row,
          ⟨mem, compared⟩, listed, place_eq_zero row mem⟩

/-- **The first argument decides**, whether it is passed by its place or by a name. -/
theorem reportsCall_iff {sink : Sink} {call : Call} :
    sink.rule.ReportsCall .python call ↔
      call.construct = false ∧ sink.Lists call ∧
        call.args.head?.any (fun v => sink.test v.shape) = true := by
  rw [StructuralRule.reportsCall_iff sink.criterion_eq, judges_iff, inspects_iff]
  simp only [index?_python, Option.map_eq_some_iff, Option.any_eq_true, List.head?_eq_getElem?]
  refine and_congr_right fun _ => ?_
  constructor
  · intro h
    obtain ⟨place, shape, ⟨lists, rfl⟩, ⟨first, item, rfl⟩, accepted⟩ := h
    exact ⟨lists, first, item, accepted⟩
  · intro h
    obtain ⟨lists, first, item, accepted⟩ := h
    exact ⟨0, first.shape, ⟨lists, rfl⟩, ⟨first, item, rfl⟩, accepted⟩

theorem rule_mem_catalog (sink : Sink) : sink.rule ∈ StructuralRule.catalog := by
  cases sink <;> simp [rule, StructuralRule.catalog]

end Sink

/-- The other rules do not look at arguments. -/
theorem exists_sink_or_blind {rule : StructuralRule} (mem : rule ∈ StructuralRule.catalog) :
    (∃ sink : Sink, rule = sink.rule) ∨ ∀ (call : Call) (args : List Value),
      rule.ReportsCall .python { call with args } ↔ rule.ReportsCall .python call := by
  have blind {rule : StructuralRule} {test : Language → Call → Bool}
      (criterion : rule.criterion = .calls test) (call : Call) (args : List Value)
      (same : test .python { call with args } = test .python call) :
      rule.ReportsCall .python { call with args } ↔ rule.ReportsCall .python call := by
    rw [StructuralRule.reportsCall_iff criterion, StructuralRule.reportsCall_iff criterion, same]
  simp only [StructuralRule.catalog, List.mem_cons, List.not_mem_nil, or_false] at mem
  rcases mem with rfl | rfl | rfl | rfl | rfl | rfl | rfl | rfl
  · exact .inr fun call args => blind rfl call args rfl
  · exact .inl ⟨.command, rfl⟩
  · exact .inl ⟨.file, rfl⟩
  · exact .inr fun _ _ => Iff.rfl
  · exact .inl ⟨.query, rfl⟩
  · exact .inr fun _ _ => Iff.rfl
  · exact .inr fun call args => blind rfl call args rfl
  · exact .inr fun _ _ => Iff.rfl

/-- If a test does not tell the members of a list apart, any order of them has a first member that
passes or none that does. -/
theorem head?_any_of_perm {α : Type} {xs ys : List α} (perm : xs.Perm ys) {test : α → Bool}
    (alike : ∀ x ∈ ys, ∀ y ∈ ys, test x = test y) : xs.head?.any test = ys.head?.any test := by
  cases xs with
  | nil => rw [perm.nil_eq]
  | cons x xs =>
    cases ys with
    | nil => exact absurd perm.eq_nil (List.cons_ne_nil x xs)
    | cons y ys =>
      exact alike x (perm.mem_iff.mp List.mem_cons_self) y List.mem_cons_self

/-- **The order of arguments passed by name is of no account, except in one case**: that there is no
other argument, and one of the rules that inspect an argument judges two of these differently. -/
theorem keyword_order_ignored_iff (call : Call) (positional keywords : List Value) :
    (∀ permuted : List Value, permuted.Perm keywords → ∀ rule ∈ StructuralRule.catalog,
      (rule.ReportsCall .python { call with args := positional ++ permuted } ↔
        rule.ReportsCall .python { call with args := positional ++ keywords })) ↔
      positional ≠ [] ∨ call.construct = true ∨
        ∀ sink : Sink, sink.Lists call → ∀ v ∈ keywords, ∀ w ∈ keywords,
          sink.test v.shape = sink.test w.shape := by
  have first (sink : Sink) (args : List Value) :
      sink.rule.ReportsCall .python { call with args } ↔
        call.construct = false ∧ sink.Lists call ∧
          args.head?.any (fun v => sink.test v.shape) = true := Sink.reportsCall_iff
  constructor
  · intro ignored
    by_cases leads : positional = []
    · by_cases plain : call.construct = false
      · subst leads
        refine .inr (.inr fun sink lists v hv w hw => ?_)
        -- any of the arguments can be brought to the front
        have moved (x : Value) (hx : x ∈ keywords) : sink.test x.shape = true ↔
            sink.rule.ReportsCall .python { call with args := keywords } := by
          have front := ignored (x :: keywords.erase x) (List.perm_cons_erase hx).symm sink.rule
            sink.rule_mem_catalog
          rw [List.nil_append, List.nil_append, first sink (x :: _)] at front
          simpa [plain, lists] using front
        rw [Bool.eq_iff_iff, moved v hv, moved w hw]
      · exact .inr (.inl (Bool.not_eq_false _ ▸ plain))
    · exact .inl leads
  · intro h permuted perm rule mem
    obtain ⟨sink, rfl⟩ | blind := exists_sink_or_blind mem
    · rw [first, first]
      refine and_congr_right fun plain => and_congr_right fun lists => ?_
      cases positional with
      | cons value rest => rfl
      | nil =>
        rcases h with leads | constructs | alike
        · exact absurd rfl leads
        · rw [plain] at constructs
          cases constructs
        · rw [List.nil_append, List.nil_append, head?_any_of_perm perm (alike sink lists)]
    · exact (blind call _).trans (blind call _).symm

/-- A command and a directory, both passed by name: only with the command in front is the call
reported. -/
theorem keyword_order_decides_command :
    ¬∀ (call : Call) (positional keywords permuted : List Value),
      (∀ v ∈ positional, v.keyword = none) → (∀ v ∈ keywords, v.keyword ≠ none) →
      permuted.Perm keywords → ∀ rule ∈ StructuralRule.catalog,
        (rule.ReportsCall .python { call with args := positional ++ permuted } ↔
          rule.ReportsCall .python { call with args := positional ++ keywords }) := by
  intro ignored
  let command : Value := { shape := .reference, text := "cmd", keyword := some "args" }
  let directory : Value := { shape := .stringLiteral, text := "\"/srv\"", keyword := some "cwd" }
  let text : String := "subprocess.run(args=cmd, cwd=\"/srv\")"
  let call : Call :=
    { callee := "subprocess.run", property := some "run", construct := false, args := [], text,
      site := ⟨1, 1, text⟩ }
  have same := ignored call [] [command, directory] [directory, command] (by simp)
    (by simp [command, directory]) (List.Perm.swap command directory []) .command
    (Sink.rule_mem_catalog .command)
  revert same
  decide +kernel

end SourceAudit
