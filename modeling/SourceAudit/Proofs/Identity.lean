import SourceAudit.Proofs.Pipeline.Accounting
import SourceAudit.Proofs.ReadingOrder

/-! Ids tell findings apart.

The identity of a finding is its file, its kind and its line with bars between them. A file name may
hold bars and digits of its own, but the digits of a line and the kinds of the catalog hold no bar;
so the identity can be taken apart from its end, at the last bar and then at the one before it, and
nothing else has the same identity (`identity_eq_iff`). An id spells out the beginning of the digest
of an identity, two digits for a byte, from which the bytes can be told (`Digest.Sha256.hex_inj`).
Two findings of a scan therefore share an id only if they share file, kind and line, or if two of the
scan's identities collide in these bytes. -/
namespace SourceAudit

/-! ### Identities -/

/-- What stands behind the last mark, and what stands before it, is told by the whole. -/
theorem append_mark_inj {α : Type} {mark : α} {a a' b b' : List α} (h : mark ∉ b) (h' : mark ∉ b') :
    a ++ mark :: b = a' ++ mark :: b' ↔ a = a' ∧ b = b' := by
  constructor
  · intro same
    -- if one side were split further on than the other, its mark would stand in `b` or `b'`
    rcases List.append_eq_append_iff.mp same with ⟨c, ha, hb⟩ | ⟨c, ha, hb⟩
    · cases c with
      | nil => exact ⟨by rw [ha, List.append_nil], (List.cons.inj hb).2⟩
      | cons d c =>
        refine absurd ?_ h
        rw [(List.cons.inj hb).2]
        exact List.mem_append_right c List.mem_cons_self
    · cases c with
      | nil => exact ⟨by rw [ha, List.append_nil], (List.cons.inj hb).2.symm⟩
      | cons d c =>
        refine absurd ?_ h'
        rw [(List.cons.inj hb).2]
        exact List.mem_append_right c List.mem_cons_self
  · rintro ⟨rfl, rfl⟩
    rfl

theorem bar_not_mem_toDigits (n : Nat) : '|' ∉ Nat.toDigits 10 n := by
  intro mem
  have digit := Nat.isDigit_of_mem_toDigits (by decide) (by decide) mem
  exact absurd digit (by decide)

theorem toDigits_inj {m n : Nat} : Nat.toDigits 10 m = Nat.toDigits 10 n ↔ m = n := by
  constructor
  · intro same
    calc m
      _ = Nat.ofDigitChars 10 (Nat.toDigits 10 m) 0 := Nat.ofDigitChars_ten_toDigits.symm
      _ = Nat.ofDigitChars 10 (Nat.toDigits 10 n) 0 := by rw [same]
      _ = n := Nat.ofDigitChars_ten_toDigits
  · exact congrArg _

namespace Finding

/-- **An identity tells file, kind and line**, if no kind holds a bar. -/
theorem identity_eq_iff {file₁ file₂ kind₁ kind₂ : String} {line₁ line₂ : Nat}
    (h₁ : '|' ∉ kind₁.toList) (h₂ : '|' ∉ kind₂.toList) :
    identity file₁ kind₁ line₁ = identity file₂ kind₂ line₂ ↔
      file₁ = file₂ ∧ kind₁ = kind₂ ∧ line₁ = line₂ := by
  unfold identity
  rw [String.ofList_inj, append_mark_inj (bar_not_mem_toDigits line₁) (bar_not_mem_toDigits line₂),
    append_mark_inj h₁ h₂, toDigits_inj, String.toList_inj, String.toList_inj, and_assoc]

end Finding

theorem Engine.bar_not_mem_kind : ∀ info ∈ standard.rules, '|' ∉ info.kind.toList := by
  decide +kernel

/-! ### Ids -/

namespace Digest.Sha256

theorem digitChar_inj {m n : Nat} (hm : m < 16) (hn : n < 16)
    (h : Nat.digitChar m = Nat.digitChar n) : m = n := by
  have all : ∀ m < 16, ∀ n < 16, Nat.digitChar m = Nat.digitChar n → m = n := by decide
  exact all m hm n hn h

/-- Bytes are told by their digits. -/
theorem hex_inj {a b : List UInt8} : hex a = hex b ↔ a = b := by
  refine ⟨fun same => ?_, congrArg hex⟩
  induction a generalizing b with
  | nil =>
    cases b with
    | nil => rfl
    | cons y b => cases same
  | cons x a ih =>
    cases b with
    | nil => cases same
    | cons y b =>
      obtain ⟨high, rest⟩ := List.cons.inj same
      obtain ⟨low, rest⟩ := List.cons.inj rest
      have hx := x.toNat_lt
      have hy := y.toNat_lt
      have quotients := digitChar_inj (by omega) (by omega) high
      have remainders := digitChar_inj (by omega) (by omega) low
      have byte : x = y := UInt8.toNat_inj.mp (by omega)
      rw [byte, ih rest]

end Digest.Sha256

namespace Finding

/-- What an id spells out of a text: the first eight bytes of its digest. -/
def fingerprint (text : String) : List UInt8 :=
  (Digest.Sha256.digest (Text.Utf8.encode text.toList)).take 8

/-- The text that the id of a finding is made from. -/
def ownIdentity (f : Finding) : String := identity f.file f.kind f.line

theorem idOf_eq_iff {file₁ file₂ kind₁ kind₂ : String} {line₁ line₂ : Nat} :
    idOf file₁ kind₁ line₁ = idOf file₂ kind₂ line₂ ↔
      fingerprint (identity file₁ kind₁ line₁) = fingerprint (identity file₂ kind₂ line₂) := by
  unfold idOf
  rw [String.ofList_inj, Digest.Sha256.hex_inj]
  rfl

/-- The finding of a standard rule somewhere. -/
def IsStandard (f : Finding) : Prop :=
  ∃ info ∈ Engine.standard.rules, ∃ file language site, f = ofSite info file language site

theorem IsStandard.bar_not_mem_kind {f : Finding} (h : f.IsStandard) : '|' ∉ f.kind.toList := by
  obtain ⟨info, mem, file, language, site, rfl⟩ := h
  exact Engine.bar_not_mem_kind info mem

theorem IsStandard.id_eq {f : Finding} (h : f.IsStandard) : f.id = idOf f.file f.kind f.line := by
  obtain ⟨info, mem, file, language, site, rfl⟩ := h
  rfl

/-- No two different texts have the same fingerprint. -/
def NoCollision (texts : List String) : Prop :=
  ∀ a ∈ texts, ∀ b ∈ texts, fingerprint a = fingerprint b → a = b

theorem id_eq_iff {found : List Finding} (standard : ∀ f ∈ found, f.IsStandard)
    (apart : NoCollision (found.map ownIdentity)) {f g : Finding} (hf : f ∈ found) (hg : g ∈ found) :
    f.id = g.id ↔ f.file = g.file ∧ f.kind = g.kind ∧ f.line = g.line := by
  have sf := standard f hf
  have sg := standard g hg
  calc f.id = g.id
    _ ↔ fingerprint f.ownIdentity = fingerprint g.ownIdentity := by
      rw [sf.id_eq, sg.id_eq]
      exact idOf_eq_iff
    _ ↔ f.ownIdentity = g.ownIdentity :=
      ⟨apart _ (List.mem_map_of_mem hf) _ (List.mem_map_of_mem hg), congrArg fingerprint⟩
    _ ↔ f.file = g.file ∧ f.kind = g.kind ∧ f.line = g.line :=
      identity_eq_iff sf.bar_not_mem_kind sg.bar_not_mem_kind

end Finding

/-! ### The findings of a scan -/

/-- Whether a finding stands in a report: among the findings that count, or in a file. -/
def Report.Shows (r : Report) (f : Finding) : Prop :=
  f ∈ r.findings ∨ ∃ o ∈ r.files, f ∈ o.findings

namespace Scan

theorem exists_outcome {host : Host} {root : Path} {settings : Settings}
    {s : Pipeline.State Job FileOutcome} {f : Finding} (h : (reportOn host root settings s).Shows f) :
    ∃ o ∈ s.collected, f ∈ o.findings := by
  unfold reportOn Tally.finish Report.Shows at h
  rw [Tally.ofOutcomes_findings, Tally.ofOutcomes_files] at h
  rcases h with counted | ⟨o, kept, hf⟩
  · obtain ⟨o, ho, hf⟩ := List.mem_flatMap.mp counted
    exact ⟨o, ho, mem_counted hf⟩
  · exact ⟨o, (List.mem_filter.mp kept).1, hf⟩

/-- Whatever way a scan takes, what its report shows comes from the standard rules. -/
theorem isStandard_of_shows {read : Detector.TreeReader} {host : Host} {root : Path}
    {settings : Settings} {jobs : List Job} {workers : Nat} (hw : 1 ≤ workers) {cancelled : Bool}
    {s : Pipeline.State Job FileOutcome}
    (reached : Pipeline.Reaches (scanFile (Engine.withReader read) host.fs) (2 * workers)
      (.initial jobs workers cancelled) s)
    {f : Finding} (h : (reportOn host root settings s).Shows f) : f.IsStandard := by
  have sound : Pipeline.Sound (scanFile (Engine.withReader read) host.fs) jobOf jobs s :=
    Pipeline.sound_reaches (jobOf_scanFile (Engine.withReader read) host.fs)
      (Pipeline.sound_initial jobs hw cancelled) reached
  obtain ⟨o, ho, hf⟩ := exists_outcome h
  rw [← sound.genuine o (.inr (.inl ho))] at hf
  obtain ⟨info, mem, site, made⟩ := exists_rule hf
  exact ⟨info, mem, _, _, site, made⟩

end Scan

/-- **Ids tell findings apart**, at any moment of any scan and whatever reads its trees, as long as
no two identities collide in their fingerprints. Identities themselves are unambiguous because no
kind has a bar, though names of files may. -/
theorem ids_tell_findings_apart :
    (∀ (file₁ file₂ kind₁ kind₂ : String) (line₁ line₂ : Nat),
      '|' ∉ kind₁.toList → '|' ∉ kind₂.toList →
        (Finding.identity file₁ kind₁ line₁ = Finding.identity file₂ kind₂ line₂ ↔
          file₁ = file₂ ∧ kind₁ = kind₂ ∧ line₁ = line₂)) ∧
      (∀ info ∈ Engine.standard.rules, '|' ∉ info.kind.toList) ∧
      ∀ (read : Detector.TreeReader) (host : Scan.Host) (root : Path) (settings : Settings)
        (jobs : List Scan.Job) (workers : Nat) (cancelled : Bool)
        (s : Scan.Pipeline.State Scan.Job FileOutcome), 1 ≤ workers →
        Scan.Pipeline.Reaches (Scan.scanFile (Engine.withReader read) host.fs) (2 * workers)
          (.initial jobs workers cancelled) s →
        ∀ found : List Finding, (∀ f ∈ found, (Scan.reportOn host root settings s).Shows f) →
          Finding.NoCollision (found.map Finding.ownIdentity) → ∀ f ∈ found, ∀ g ∈ found,
            (f.id = g.id ↔ f.file = g.file ∧ f.kind = g.kind ∧ f.line = g.line) := by
  refine ⟨fun _ _ _ _ _ _ => Finding.identity_eq_iff, Engine.bar_not_mem_kind, ?_⟩
  intro read host root settings jobs workers cancelled s hw reached found shown apart f hf g hg
  have standard : ∀ f ∈ found, f.IsStandard :=
    fun f hf => Scan.isStandard_of_shows hw reached (shown f hf)
  exact Finding.id_eq_iff standard apart hf hg

/-! A machine with one file, whose name has a bar and whose two lines hold a call each. -/

def barredText : List UInt8 := Text.Utf8.encode "eval(a)\neval(b)".toList

def barredName : EntryName := Text.Utf8.encode "a|1.js".toList

def barredHost : Scan.Host := ⟨.single barredName barredText, 1, ⟨"", ""⟩⟩

def barredJob : Scan.Job := ⟨.ofString "/a|1.js", .javascript⟩

/-- What is found in the file. -/
def barredFindings : List Finding :=
  (Engine.withReader sideBySideReader).run barredJob.path .javascript barredText

theorem barredHost_scanFile :
    Scan.scanFile (Engine.withReader sideBySideReader) barredHost.fs barredJob =
      ⟨barredJob.path, .javascript, Text.countLines barredText, barredFindings, none⟩ := by
  have read : barredHost.fs.read barredJob.path = .ok barredText :=
    FileSystem.read_single (by decide +kernel) _
  rw [Scan.scanFile, read]
  rfl

/-- A scan by one worker, when the outcome of its only job has been collected. -/
def Scan.onlyJobCollected (engine : Engine) (fs : FileSystem) (job : Job) :
    Pipeline.State Job FileOutcome :=
  { producer := .idle []
    items := []
    workers := [.waiting]
    results := []
    collector := .taking
    collected := [scanFile engine fs job]
    stopped := false
    cancelled := false }

theorem Scan.reaches_onlyJobCollected (engine : Engine) (fs : FileSystem) (job : Job) :
    Pipeline.Reaches (scanFile engine fs) (2 * 1) (.initial [job] 1 false)
      (onlyJobCollected engine fs job) := by
  refine .head (.move (.producer rfl)) (.head (.move (.producer rfl)) ?_)
  refine .head (.move (.worker 0 rfl)) (.head (.move (.worker 0 rfl)) ?_)
  refine .head (.move (.worker 0 rfl)) (.head (.move (.collector rfl)) ?_)
  exact .single (.move (.collector rfl))

/-- Two findings of one rule in two lines of a file whose name has a bar of its own. -/
theorem ids_tell_findings_apart_barred :
    let s := Scan.onlyJobCollected (Engine.withReader sideBySideReader) barredHost.fs barredJob
    let found := (Scan.reportOn barredHost (.ofString "/") {} s).findings
    Finding.identity "a|xss|1" "xss" 2 ≠ Finding.identity "a" "xss" 2 ∧
      found.map Finding.ownIdentity = ["/a|1.js|eval_injection|1", "/a|1.js|eval_injection|2"] ∧
      Finding.NoCollision (found.map Finding.ownIdentity) ∧
      ∀ f ∈ found, ∀ g ∈ found,
        (f.id = g.id ↔ f.file = g.file ∧ f.kind = g.kind ∧ f.line = g.line) := by
  intro s found
  obtain ⟨identities, -, scans⟩ := ids_tell_findings_apart
  have plain : '|' ∉ "xss".toList := by decide
  have texts : found.map Finding.ownIdentity =
      ["/a|1.js|eval_injection|1", "/a|1.js|eval_injection|2"] := by
    show (Tally.ofOutcomes _ [Scan.scanFile _ _ _]).findings.map _ = _
    rw [barredHost_scanFile]
    decide +kernel
  have apart : Finding.NoCollision (found.map Finding.ownIdentity) := by
    rw [texts]
    show ∀ a ∈ _, ∀ b ∈ _, _
    decide +kernel
  refine ⟨fun same => ?_, texts, apart, ?_⟩
  · have files := ((identities _ _ _ _ _ _ plain plain).mp same).1
    exact absurd files (by decide)
  · exact scans sideBySideReader barredHost _ {} [barredJob] 1 false s (Nat.le_refl 1)
      (Scan.reaches_onlyJobCollected _ _ _) found (fun _ => .inl) apart

end SourceAudit
