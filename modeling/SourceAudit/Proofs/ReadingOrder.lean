import SourceAudit.Proofs.Engine
import SourceAudit.Proofs.FileSystem
import SourceAudit.Proofs.ReportOrder
import SourceAudit.Scan

/-! Findings stand in the order of reading.

In a well-formed tree a node spans a part of the source, its children span parts of that, and its
named children span one part after the other (`Tree.Spans`). Going through such a tree in pre-order
is going through the source from its beginning to its end, and lines and columns grow with the
offset (`Source.lineOf_mono`, `Source.columnOf_mono`); so every structural rule reports its sites
from left to right and from top to bottom (`StructuralRule.sites_inOrder`).

The canonical order of a report does not look at columns. But findings that tie in it are findings
of one rule in one line of one file, and sorting leaves them as they come; so they stand from left
to right all the same. -/
namespace SourceAudit
open Syntax StableSort

/-! ### Offsets -/

namespace Syntax.Source
variable {s : Source} {m n : Nat}

theorem lineOf_mono (h : m ≤ n) : s.lineOf m ≤ s.lineOf n := by
  obtain ⟨k, rfl⟩ := Nat.exists_eq_add_of_le h
  rw [lineOf, lineOf, List.take_add, List.count_append]
  omega

/-- Further right in the same line. -/
theorem columnOf_mono (h : m ≤ n) (same : s.lineOf m = s.lineOf n) :
    s.columnOf m ≤ s.columnOf n := by
  obtain ⟨k, rfl⟩ := Nat.exists_eq_add_of_le h
  have none : ((s.bytes.drop m).take k).count 10 = 0 := by
    rw [lineOf, lineOf, List.take_add, List.count_append] at same
    omega
  have between : ∀ b ∈ ((s.bytes.drop m).take k).reverse, decide (b ≠ 10) = true := by
    intro b hb
    refine decide_eq_true fun newline => List.count_eq_zero.mp none ?_
    rw [← newline]
    exact List.mem_reverse.mp hb
  rw [columnOf, columnOf, List.take_add, List.reverse_append,
    List.takeWhile_append_of_pos between, List.length_append]
  omega

end Syntax.Source

/-- Not after another site when the file is read. -/
def Site.AtOrBefore (a b : Site) : Prop := a.line < b.line ∨ a.line = b.line ∧ a.column ≤ b.column

theorem Site.atOrBefore_ofTree (source : Source) {a b : Tree} (h : a.start ≤ b.start) :
    (Site.ofTree source a).AtOrBefore (Site.ofTree source b) := by
  rcases Nat.lt_or_eq_of_le (Source.lineOf_mono (s := source) h) with above | same
  · exact .inl above
  · exact .inr ⟨same, Source.columnOf_mono h same⟩

/-! ### Spans -/

namespace Syntax.Tree

/-- A node that ends within the first `limit` bytes, whose children lie inside of it, the named ones
one after the other. -/
structure Spans (limit : Nat) (t : Tree) : Prop where
  ordered : t.start ≤ t.stop
  within : t.stop ≤ limit
  inside : ∀ c ∈ t.children, t.start ≤ c.start ∧ c.stop ≤ t.stop
  apart : t.namedChildren.Pairwise fun a b => a.stop ≤ b.start

instance (limit : Nat) (t : Tree) : Decidable (t.Spans limit) :=
  decidable_of_iff
    ((t.start ≤ t.stop ∧ t.stop ≤ limit) ∧
      (∀ c ∈ t.children, t.start ≤ c.start ∧ c.stop ≤ t.stop) ∧
      t.namedChildren.Pairwise fun a b => a.stop ≤ b.start)
    ⟨fun h => ⟨h.1.1, h.1.2, h.2.1, h.2.2⟩, fun h => ⟨⟨h.ordered, h.within⟩, h.inside, h.apart⟩⟩

/-- Every node that can be reached spans a part of the source as it should. -/
def WellFormed (source : Source) (t : Tree) : Prop :=
  ∀ n ∈ t.preorder, n.Spans source.bytes.length

theorem mem_preorder {n t : Tree} :
    n ∈ t.preorder ↔ n = t ∨ ∃ c ∈ t.namedChildren, n ∈ c.preorder := by
  rw [preorder_eq, List.mem_cons, List.mem_flatMap]

section WellFormed
variable {source : Source} {t : Tree}

theorem WellFormed.root (h : t.WellFormed source) : t.Spans source.bytes.length :=
  h t (mem_preorder.mpr (.inl rfl))

theorem WellFormed.child {c : Tree} (h : t.WellFormed source) (mem : c ∈ t.namedChildren) :
    c.WellFormed source :=
  fun n hn => h n (mem_preorder.mpr (.inr ⟨c, mem, hn⟩))

theorem WellFormed.inside {c : Tree} (h : t.WellFormed source) (mem : c ∈ t.namedChildren) :
    t.start ≤ c.start ∧ c.stop ≤ t.stop :=
  h.root.inside c (List.mem_filter.mp mem).1

/-- What can be reached from a node lies inside of it. -/
theorem WellFormed.nested (h : t.WellFormed source) :
    ∀ n ∈ t.preorder, t.start ≤ n.start ∧ n.stop ≤ t.stop := by
  induction t using named_induction with
  | h t ih =>
    intro n hn
    rcases mem_preorder.mp hn with rfl | ⟨c, mem, hn⟩
    · exact ⟨Nat.le_refl _, Nat.le_refl _⟩
    · have outer := h.inside mem
      have inner := ih c mem (h.child mem) n hn
      exact ⟨Nat.le_trans outer.1 inner.1, Nat.le_trans inner.2 outer.2⟩

/-- **The pre-order of a well-formed tree follows the source.** -/
theorem WellFormed.preorder_inOrder (h : t.WellFormed source) :
    t.preorder.Pairwise fun a b => a.start ≤ b.start := by
  induction t using named_induction with
  | h t ih =>
    have nested := h.nested
    rw [preorder_eq] at nested ⊢
    rw [List.pairwise_cons, List.pairwise_flatMap]
    refine ⟨fun n hn => (nested n (List.mem_cons_of_mem t hn)).1,
      fun c mem => ih c mem (h.child mem), ?_⟩
    refine h.root.apart.imp_of_mem fun {c d} hc hd apart a ha b hb => ?_
    calc a.start ≤ a.stop := ((h.child hc) a ha).ordered
      _ ≤ c.stop := ((h.child hc).nested a ha).2
      _ ≤ d.start := apart
      _ ≤ b.start := ((h.child hd).nested b hb).1

end WellFormed
end Syntax.Tree

/-- A rule reports its sites from left to right and from top to bottom. -/
theorem StructuralRule.sites_inOrder (rule : StructuralRule) (language : Language) {source : Source}
    {t : Tree} (h : t.WellFormed source) :
    (rule.sites language (t.constructs source language)).Pairwise Site.AtOrBefore := by
  rw [sites_eq, List.pairwise_map]
  exact (h.preorder_inOrder.filter _).imp (Site.atOrBefore_ofTree source)

/-! ### The findings in a file -/

/-- How findings stand to each other by file, line, kind, id and column. -/
def Report.fullOrder : Finding → Finding → Ordering :=
  compareLex Report.order (compareOn Finding.column)

/-- If two findings tie in the canonical order, the first is not further right. -/
def Finding.LeftToRight (a b : Finding) : Prop :=
  Report.order a b = .eq → (compare a.column b.column).isLE = true

theorem Report.order_eq_iff {a b : Finding} :
    Report.order a b = .eq ↔ a.file = b.file ∧ a.line = b.line ∧ a.kind = b.kind ∧ a.id = b.id := by
  simp only [Report.order, compareLex, compareOn, Ordering.then_eq_eq,
    Std.LawfulEqOrd.compare_eq_iff_eq]

theorem Finding.leftToRight_ofSite {info : RuleInfo} {file : String} {language : Language}
    {a b : Site} (h : a.AtOrBefore b) :
    LeftToRight (ofSite info file language a) (ofSite info file language b) := by
  intro tie
  have same : a.line = b.line := (Report.order_eq_iff.mp tie).2.1
  rcases h with above | ⟨-, left⟩
  · exact absurd same (Nat.ne_of_lt above)
  · exact Nat.isLE_compare.mpr left

namespace Engine

/-- The rules of a scan, each with its sites in a file. -/
def blocks (read : Detector.TreeReader) (path : Path) (language : Language) (content : List UInt8) :
    List (RuleInfo × List Site) :=
  let text := Text.Utf8.decodeLossy content
  LineRule.catalog.map (fun rule =>
      (rule.info, LineRule.sitesFrom rule.pattern 1 (Text.lines text))) ++
    StructuralRule.catalog.map fun rule =>
      (rule.info, rule.sites language (Detector.constructsOf read path language text))

theorem run_eq_blocks (read : Detector.TreeReader) (path : Path) (language : Language)
    (content : List UInt8) :
    (withReader read).run path language content =
      (blocks read path language content).flatMap fun block =>
        block.2.map (Finding.ofSite block.1 path.display language) := by
  simp only [run, withReader, lineRules, blocks, List.flatMap_append, List.flatMap_map,
    List.flatMap_cons, List.flatMap_nil, List.append_nil]
  rfl

theorem blocks_distinct (read : Detector.TreeReader) (path : Path) (language : Language)
    (content : List UInt8) :
    (blocks read path language content).Pairwise fun a b => a.1.kind ≠ b.1.kind :=
  List.pairwise_map.mp kinds_nodup

/-- Every rule of a scan has its sites in the order of reading. -/
theorem blocks_inOrder {read : Detector.TreeReader} {path : Path} {language : Language}
    {content : List UInt8}
    (h : (read language (Dialect.ofPath path) (Text.Utf8.decodeLossy content)).WellFormed
      (.ofText (Text.Utf8.decodeLossy content)))
    {block : RuleInfo × List Site} (mem : block ∈ blocks read path language content) :
    block.2.Pairwise Site.AtOrBefore := by
  rcases List.mem_append.mp mem with line | tree
  · obtain ⟨rule, -, rfl⟩ := List.mem_map.mp line
    exact (LineRule.sitesFrom_increasing _ _ _).imp .inl
  · obtain ⟨rule, -, rfl⟩ := List.mem_map.mp tree
    exact rule.sites_inOrder language h

theorem run_leftToRight {read : Detector.TreeReader} {path : Path} {language : Language}
    {content : List UInt8}
    (h : (read language (Dialect.ofPath path) (Text.Utf8.decodeLossy content)).WellFormed
      (.ofText (Text.Utf8.decodeLossy content))) :
    ((withReader read).run path language content).Pairwise Finding.LeftToRight := by
  rw [run_eq_blocks, List.pairwise_flatMap]
  constructor
  · intro block mem
    exact List.pairwise_map.mpr ((blocks_inOrder h mem).imp Finding.leftToRight_ofSite)
  · refine (blocks_distinct read path language content).imp fun distinct f hf g hg tie => ?_
    obtain ⟨_, -, rfl⟩ := List.mem_map.mp hf
    obtain ⟨_, -, rfl⟩ := List.mem_map.mp hg
    exact absurd (Report.order_eq_iff.mp tie).2.2.1 distinct

end Engine

/-! ### The findings in a report -/

/-- Findings of different files do not tie. -/
theorem counted_leftToRight (least : Severity) {os : List FileOutcome} (h : Attributed os)
    (within : ∀ o ∈ os, o.findings.Pairwise Finding.LeftToRight) :
    (os.flatMap (Tally.counted least)).Pairwise Finding.LeftToRight := by
  rw [List.pairwise_flatMap]
  constructor
  · intro o mem
    unfold Tally.counted
    split
    · exact .nil
    · exact (within o mem).filter _
  · refine (List.pairwise_map.mp h.distinct).imp_of_mem fun {o p} ho hp distinct f hf g hg tie => ?_
    rw [← h.own o ho f (mem_counted hf), ← h.own p hp g (mem_counted hg)] at distinct
    exact absurd (Report.order_eq_iff.mp tie).1 distinct

theorem tied_of_eq {cmp : Finding → Finding → Ordering} [Std.OrientedCmp cmp] {a b : Finding}
    (h : cmp a b = .eq) : tied (fun x y => (cmp x y).isLE) a b = true := by
  have swap : cmp b a = .eq := Std.OrientedCmp.eq_symm h
  simp [tied_iff, h, swap]

/-- Sorting findings that stand from left to right sorts them by column, too. -/
theorem canonical_inOrder {found : List Finding} (h : found.Pairwise Finding.LeftToRight) :
    (found.mergeSort Report.precedes).Pairwise fun a b => (Report.fullOrder a b).isLE = true := by
  rw [Report.precedes_eq]
  have sorted : (found.mergeSort fun a b => (Report.order a b).isLE).Pairwise
      fun a b => (Report.order a b).isLE = true :=
    List.pairwise_mergeSort isLE_trans isLE_total found
  have ties : (found.mergeSort fun a b => (Report.order a b).isLE).Pairwise
      fun a b => tied (fun x y => (Report.order x y).isLE) a b = true →
        (compare a.column b.column).isLE = true :=
    pairwise_mergeSort_of_ties isLE_trans isLE_total (h.imp fun left tie => left (eq_of_tied tie))
  refine (sorted.and ties).imp fun {a b} both => ?_
  obtain ⟨le, left⟩ := both
  show ((Report.order a b).then (compare a.column b.column)).isLE = true
  cases order : Report.order a b with
  | lt => rfl
  | eq => exact left (tied_of_eq order)
  | gt =>
    rw [order] at le
    cases le

namespace Scan
variable {read : Detector.TreeReader} {fs : FileSystem}

theorem scanFile_path (engine : Engine) (fs : FileSystem) (job : Job) :
    (scanFile engine fs job).path = job.path := by
  unfold scanFile
  split <;> rfl

/-- The findings in a file are those in its content, if it can be read. -/
theorem scanFile_findings (engine : Engine) (fs : FileSystem) (job : Job) :
    (scanFile engine fs job).findings = [] ∨ ∃ content, fs.read job.path = .ok content ∧
      (scanFile engine fs job).findings = engine.run job.path job.language content := by
  unfold scanFile
  split
  · rename_i content readable
    exact .inr ⟨content, readable, rfl⟩
  · exact .inl rfl

/-- A finding in a file is one of the standard rules at a site of the file. -/
theorem exists_rule {job : Job} {f : Finding}
    (h : f ∈ (scanFile (Engine.withReader read) fs job).findings) :
    ∃ info ∈ Engine.standard.rules, ∃ site,
      f = Finding.ofSite info job.path.display job.language site := by
  rcases scanFile_findings (Engine.withReader read) fs job with none | ⟨content, -, found⟩
  · rw [none] at h
    cases h
  · rw [found] at h
    exact Engine.mem_run h

theorem exists_site {job : Job} {f : Finding}
    (h : f ∈ (scanFile (Engine.withReader read) fs job).findings) :
    ∃ info site, f = Finding.ofSite info job.path.display job.language site := by
  obtain ⟨info, -, site, made⟩ := exists_rule h
  exact ⟨info, site, made⟩

theorem attributed_scanFile {jobs : List Job}
    (distinct : (jobs.map fun job => job.path.display).Nodup) :
    Attributed (jobs.map (scanFile (Engine.withReader read) fs)) where
  distinct := by
    rw [List.map_map]
    simp only [Function.comp_def, scanFile_path]
    exact distinct
  own := by
    intro o mem f hf
    obtain ⟨job, -, rfl⟩ := List.mem_map.mp mem
    obtain ⟨info, site, rfl⟩ := exists_site hf
    rw [scanFile_path]
    rfl

/-- The reader gives every file that can be read a well-formed tree. -/
def ReadsWell (read : Detector.TreeReader) (fs : FileSystem) (job : Job) : Prop :=
  ∀ content, fs.read job.path = .ok content →
    let text := Text.Utf8.decodeLossy content
    (read job.language (Dialect.ofPath job.path) text).WellFormed (.ofText text)

theorem scanFile_leftToRight {job : Job} (h : ReadsWell read fs job) :
    (scanFile (Engine.withReader read) fs job).findings.Pairwise Finding.LeftToRight := by
  rcases scanFile_findings (Engine.withReader read) fs job with none | ⟨content, readable, found⟩
  · rw [none]
    exact .nil
  · rw [found]
    exact Engine.run_leftToRight (h content readable)

end Scan

/-- **Findings stand in the order of reading**: those of a rule in a tree, and all of them in a report,
although its order does not look at columns. -/
theorem findings_in_reading_order (read : Detector.TreeReader) (fs : FileSystem)
    (jobs : List Scan.Job) (least : Severity) (stamp : Stamp) (project : String)
    (truncated : Bool) :
    let os := jobs.map (Scan.scanFile (Engine.withReader read) fs)
    let report := (Tally.ofOutcomes least os).finish stamp project truncated
    let found := report.canonicalFindings
    found.Perm report.findings ∧
      (∀ (language : Language) (source : Source) (t : Tree), t.WellFormed source →
          ∀ rule : StructuralRule,
            (rule.sites language (t.constructs source language)).Pairwise Site.AtOrBefore) ∧
      ((jobs.map fun job => job.path.display).Nodup → (∀ job ∈ jobs, Scan.ReadsWell read fs job) →
        found.Pairwise (fun a b => (Report.fullOrder a b).isLE = true) ∧
          found.Pairwise fun a b =>
            a.file = b.file → a.line = b.line → a.kind = b.kind → a.id = b.id →
              ∃ i j, a.column = some i ∧ b.column = some j ∧ i ≤ j) := by
  intro os report found
  refine ⟨report.canonicalFindings_perm,
    fun language source t h rule => rule.sites_inOrder language h, fun distinct well => ?_⟩
  have canonical : found = (os.flatMap (Tally.counted least)).mergeSort Report.precedes :=
    congrArg (List.mergeSort · Report.precedes) (Tally.ofOutcomes_findings least os)
  have within : ∀ o ∈ os, o.findings.Pairwise Finding.LeftToRight := by
    intro o mem
    obtain ⟨job, hjob, rfl⟩ := List.mem_map.mp mem
    exact Scan.scanFile_leftToRight (well job hjob)
  have sorted : found.Pairwise fun a b => (Report.fullOrder a b).isLE = true := by
    rw [canonical]
    exact canonical_inOrder (counted_leftToRight least (Scan.attributed_scanFile distinct) within)
  have located : ∀ f ∈ found, ∃ i, f.column = some i := by
    intro f mem
    rw [canonical, List.mem_mergeSort] at mem
    obtain ⟨o, ho, hf⟩ := List.mem_flatMap.mp mem
    obtain ⟨job, -, rfl⟩ := List.mem_map.mp ho
    obtain ⟨info, site, rfl⟩ := Scan.exists_site (mem_counted hf)
    exact ⟨site.column, rfl⟩
  refine ⟨sorted, sorted.imp_of_mem fun {a b} ha hb le file line kind id => ?_⟩
  obtain ⟨i, hi⟩ := located a ha
  obtain ⟨j, hj⟩ := located b hb
  have tie : Report.order a b = .eq := Report.order_eq_iff.mpr ⟨file, line, kind, id⟩
  have left : (compare a.column b.column).isLE = true := by
    rw [Report.fullOrder, compareLex, tie] at le
    exact le
  rw [hi, hj] at left
  exact ⟨i, j, hi, hj, Nat.isLE_compare.mp left⟩

/-- Reads two calls side by side. -/
def sideBySideReader : Detector.TreeReader := fun _ _ _ =>
  let call (start : Nat) : Tree :=
    .node "call_expression" none true start (start + 7)
      [.node "identifier" (some "function") true start (start + 4) [],
       .node "arguments" (some "arguments") true (start + 4) (start + 7)
         [.node "identifier" none true (start + 5) (start + 6) []]]
  .node "program" none true 0 15 [call 0, .node ";" none false 7 8 [], call 8]

def sideBySideText : List UInt8 := Text.Utf8.encode "eval(a);eval(b)".toList

def sideBySideFiles : FileSystem := .single (Text.Utf8.encode "a.js".toList) sideBySideText

theorem sideBySideFiles_read : sideBySideFiles.read (.ofString "/a.js") = .ok sideBySideText :=
  FileSystem.read_single (by decide +kernel) _

/-- Two findings of one rule in one line. -/
theorem findings_in_reading_order_side_by_side :
    let jobs : List Scan.Job := [⟨.ofString "/a.js", .javascript⟩]
    let os := jobs.map (Scan.scanFile (Engine.withReader sideBySideReader) sideBySideFiles)
    let report := (Tally.ofOutcomes .low os).finish ⟨"", ""⟩ "" false
    report.canonicalFindings.map (fun f => (f.kind, f.line, f.column)) =
        [("eval_injection", 1, some 1), ("eval_injection", 1, some 9)] ∧
      report.canonicalFindings.Perm report.findings ∧
      report.canonicalFindings.Pairwise fun a b => (Report.fullOrder a b).isLE = true := by
  intro jobs os report
  have well : ∀ job ∈ jobs, Scan.ReadsWell sideBySideReader sideBySideFiles job := by
    intro job mem content readable
    obtain rfl := List.mem_singleton.mp mem
    cases sideBySideFiles_read.symm.trans readable
    show ∀ n ∈ Tree.preorder _, _
    decide +kernel
  obtain ⟨perm, -, ordered⟩ := findings_in_reading_order sideBySideReader sideBySideFiles jobs .low
    ⟨"", ""⟩ "" false
  refine ⟨?_, perm, (ordered (by decide) well).1⟩
  have outcomes : os = [⟨.ofString "/a.js", .javascript, Text.countLines sideBySideText,
      (Engine.withReader sideBySideReader).run (.ofString "/a.js") .javascript sideBySideText,
      none⟩] := by
    simp only [os, jobs, List.map_cons, List.map_nil, Scan.scanFile, sideBySideFiles_read]
  -- the findings are sorted as they come
  have sorted : report.findings.Pairwise fun a b => Report.precedes a b = true := by
    show (Tally.ofOutcomes .low os).findings.Pairwise _
    rw [outcomes]
    decide +kernel
  rw [Report.canonicalFindings, List.mergeSort_of_pairwise sorted]
  show (Tally.ofOutcomes .low os).findings.map _ = _
  rw [outcomes]
  decide +kernel

end SourceAudit
