import SourceAudit.Scan.Discovery
import SourceAudit.Proofs.FileSystem

/-! Which files are found.

The walk below a root is a recursion over the entry that the root stands for; the files it
finds are those that names lead to in that entry, all names but the last one being names of
directories that are not excluded (`mem_jobsAt`). Names lead to paths one to one, so no path is
found twice (`nodup_jobsAt`), and what the names lead to is what the file system says is at the
path. -/
namespace SourceAudit.Scan

/-- Whether an entry of this name is looked at: only directories are left out. -/
def isEntered (exclude : List String) (name : EntryName) : Entry → Bool
  | .directory _ => !isExcluded exclude name
  | _ => true

variable (languages : List Language) (exclude : List String)

theorem jobsIn_eq (p : Path) (entries : List (EntryName × Entry)) :
    jobsIn languages exclude p entries =
      (entries.filter fun pair => isEntered exclude pair.1 pair.2).flatMap fun pair =>
        jobsAt languages exclude (p.join pair.1) pair.2 := by
  induction entries with
  | nil => rfl
  | cons first rest ih =>
    obtain ⟨name, e⟩ := first
    cases e with
    | directory entries =>
      rw [jobsIn, ih, List.filter_cons]
      cases h : isExcluded exclude name <;> simp [isEntered, h]
    | file content | link target =>
      rw [jobsIn, ih, List.filter_cons_of_pos (by rfl), List.flatMap_cons]
      intro entries h
      cases h

variable {exclude} in
theorem mem_jobsIn {p : Path} {entries : List (EntryName × Entry)} {job : Job} :
    job ∈ jobsIn languages exclude p entries ↔
      ∃ pair ∈ entries, isEntered exclude pair.1 pair.2 = true ∧
        job ∈ jobsAt languages exclude (p.join pair.1) pair.2 := by
  simp only [jobsIn_eq, List.mem_flatMap, List.mem_filter, and_assoc]

variable {languages} in
theorem jobOf?_eq_some_iff {p : Path} {job : Job} :
    jobOf? languages p = some job ↔
      job.path = p ∧ Language.ofPath? p = some job.language ∧ job.language ∈ languages := by
  obtain ⟨path, language⟩ := job
  unfold jobOf?
  cases Language.ofPath? p with
  | none => simp
  | some l =>
    by_cases h : l = language
    · subst h
      by_cases hl : l ∈ languages <;> simp [hl, eq_comm]
    · by_cases hl : l ∈ languages <;> simp [hl, h]

/-! ### Names that lead to files -/

/-- Names that lead to a file in an entry, through no directory that is excluded. -/
def LeadsToFile (e : Entry) (names : List EntryName) : Prop :=
  (∃ content, e.at? names = some (.file content)) ∧
    ∀ d ∈ names.dropLast, isExcluded exclude d = false

variable {exclude}

theorem leadsToFile_nil {e : Entry} :
    LeadsToFile exclude e [] ↔ ∃ content, e = .file content := by
  simp [LeadsToFile, Entry.at?_nil]

/-- Below a directory, names that lead to a file are first the name of an entry that is looked
at and then names that lead to a file there. -/
theorem leadsToFile_cons {entries : List (EntryName × Entry)} {name : EntryName}
    {names : List EntryName} :
    LeadsToFile exclude (.directory entries) (name :: names) ↔
      ∃ e, entries.lookup name = some e ∧ isEntered exclude name e = true ∧
        LeadsToFile exclude e names := by
  unfold LeadsToFile
  rw [Entry.at?_cons]
  cases entries.lookup name with
  | none => simp
  | some e =>
    -- The first name is that of a directory just if there are others after it.
    cases names with
    | nil => cases e <;> simp [Entry.at?_nil, isEntered]
    | cons name' names =>
      cases e with
      | directory => simp [isEntered, and_left_comm]
      | file | link => simp [Entry.at?]

theorem mem_jobsAt {e : Entry} (tree : e.isTree = true) (p : Path) (job : Job) :
    job ∈ jobsAt languages exclude p e ↔
      ∃ names, LeadsToFile exclude e names ∧ jobOf? languages (p.below names) = some job := by
  induction e using Entry.entry_induction generalizing p with
  | directory entries ih =>
    obtain ⟨distinct, proper⟩ := (Entry.areTrees_iff entries).mp tree
    rw [jobsAt, mem_jobsIn]
    constructor
    · rintro ⟨⟨name, e⟩, hmem, hentered, hjob⟩
      obtain ⟨names, hleads, hjob⟩ := (ih _ hmem (proper _ hmem).2 _).mp hjob
      have hl := (Entry.lookup_iff distinct name e).mpr hmem
      exact ⟨name :: names, leadsToFile_cons.mpr ⟨e, hl, hentered, hleads⟩, hjob⟩
    · rintro ⟨names, hleads, hjob⟩
      cases names with
      | nil => simp [leadsToFile_nil] at hleads
      | cons name names =>
        obtain ⟨e, hl, hentered, hleads⟩ := leadsToFile_cons.mp hleads
        have hmem := (Entry.lookup_iff distinct name e).mp hl
        exact ⟨(name, e), hmem, hentered, (ih _ hmem (proper _ hmem).2 _).mpr ⟨names, hleads, hjob⟩⟩
  | file content =>
    rw [jobsAt, Option.mem_toList]
    constructor
    · intro h
      exact ⟨[], leadsToFile_nil.mpr ⟨content, rfl⟩, h⟩
    · rintro ⟨names, hleads, hjob⟩
      cases names with
      | nil => exact hjob
      | cons => simp [LeadsToFile, Entry.at?] at hleads
  | link target =>
    rw [jobsAt]
    constructor
    · intro h
      cases h
    · rintro ⟨names, ⟨⟨content, h⟩, -⟩, -⟩
      cases names <;> simp [Entry.at?] at h

theorem path_of_mem_jobsAt {e : Entry} (tree : e.isTree = true) {p path : Path}
    (h : path ∈ (jobsAt languages exclude p e).map Job.path) :
    ∃ names, (∀ n ∈ names, Path.IsName n) ∧ path = p.below names := by
  obtain ⟨job, hjob, rfl⟩ := List.mem_map.mp h
  obtain ⟨names, ⟨⟨content, hat⟩, -⟩, hjob⟩ := (mem_jobsAt languages tree p job).mp hjob
  exact ⟨names, (Entry.at?_isTree tree hat).1, (jobOf?_eq_some_iff.mp hjob).1⟩

/-- No path is found twice: at two entries of a directory the paths go on with different
names. -/
theorem nodup_jobsAt {e : Entry} (tree : e.isTree = true) (p : Path) :
    ((jobsAt languages exclude p e).map Job.path).Nodup := by
  induction e using Entry.entry_induction generalizing p with
  | directory entries ih =>
    obtain ⟨distinct, proper⟩ := (Entry.areTrees_iff entries).mp tree
    rw [jobsAt, jobsIn_eq, List.map_flatMap, List.nodup_flatMap]
    constructor
    · intro pair hpair
      have hmem := List.mem_of_mem_filter hpair
      exact ih pair hmem (proper _ hmem).2 _
    · refine ((List.pairwise_map.mp distinct).filter _).imp_of_mem ?_
      intro a b ha hb hne path hpa hpb
      obtain ⟨hna, hta⟩ := proper _ (List.mem_of_mem_filter ha)
      obtain ⟨hnb, htb⟩ := proper _ (List.mem_of_mem_filter hb)
      obtain ⟨as, has, rfl⟩ := path_of_mem_jobsAt languages hta hpa
      obtain ⟨bs, hbs, same⟩ := path_of_mem_jobsAt languages htb hpb
      have := Path.below_injective (List.forall_mem_cons.mpr ⟨hna, has⟩)
        (List.forall_mem_cons.mpr ⟨hnb, hbs⟩) (p := p) same
      exact hne (List.cons.inj this).1
  | file content =>
    rw [jobsAt]
    cases jobOf? languages p <;> simp
  | link target => exact List.nodup_nil

/-! ### The root -/

variable {fs : FileSystem} {root : Path}

theorem rootEntry_of_linkEntry {e : Entry} (h : fs.linkEntry root = .ok e)
    (hlink : ∀ target, e ≠ .link target) : rootEntry fs root = .ok e := by
  rw [rootEntry, h]
  cases e with
  | directory | file => rfl
  | link target => exact absurd rfl (hlink target)

theorem rootEntry_of_link {target : Path} (h : fs.linkEntry root = .ok (.link target)) :
    rootEntry fs root = (fs.entry root).map fun e =>
      match e with
      | .directory entries => .directory entries
      | _ => .link target := by
  rw [rootEntry, h]
  cases fs.entry root with
  | error => rfl
  | ok e => cases e <;> rfl

theorem rootEntry_file {content : List UInt8} :
    rootEntry fs root = .ok (.file content) ↔ fs.linkEntry root = .ok (.file content) := by
  cases h : fs.linkEntry root with
  | error error => simp [rootEntry, h, bind, Except.bind]
  | ok e =>
    cases e with
    | directory | file => simp [rootEntry_of_linkEntry h]
    | link =>
      rw [rootEntry_of_link h]
      cases fs.entry root with
      | error => simp [Except.map]
      | ok e => cases e <;> simp [Except.map]

/-- A root stands for a directory if there is one once its links are followed. -/
theorem rootEntry_directory {entries : List (EntryName × Entry)} :
    rootEntry fs root = .ok (.directory entries) ↔ fs.entry root = .ok (.directory entries) := by
  rcases fs.entry_eq_linkEntry root with same | ⟨target, h⟩
  · rw [same]
    cases h : fs.linkEntry root with
    | error error => simp [rootEntry, h, bind, Except.bind]
    | ok e =>
      cases e with
      | directory | file => simp [rootEntry_of_linkEntry h]
      | link target => simp [rootEntry_of_link h, same, h, Except.map]
  · rw [rootEntry_of_link h]
    cases fs.entry root with
    | error => simp [Except.map]
    | ok e => cases e <;> simp [Except.map]

/-! ### What is found -/

/-- Names that lead from a root to a regular file that is to be scanned. Only the root itself may be
a link, and only its own name and that of the file may be excluded ones. -/
structure LeadsToSource (fs : FileSystem) (root : Path) (exclude : List String)
    (names : List EntryName) : Prop where
  proper : ∀ n ∈ names, Path.IsName n
  fromDirectory : names ≠ [] → ∃ entries, fs.entry root = .ok (.directory entries)
  isFile : ∃ content, fs.linkEntry (root.below names) = .ok (.file content)
  throughDirectories : ∀ above, above ≠ [] → above <+: names → above ≠ names →
    ∃ entries, fs.linkEntry (root.below above) = .ok (.directory entries)
  included : ∀ d ∈ names.dropLast, String.ofList (Text.Utf8.decodeLossy d) ∉ exclude

theorem mem_discover {job : Job} :
    job ∈ discover fs root languages exclude ↔
      ∃ e, rootEntry fs root = .ok e ∧ job ∈ jobsAt languages exclude root e := by
  unfold discover
  cases rootEntry fs root <;> simp

theorem isExcluded_eq_false_iff {name : EntryName} :
    isExcluded exclude name = false ↔
      String.ofList (Text.Utf8.decodeLossy name) ∉ exclude := by
  simp [isExcluded]

/-- From a directory of a tree, names lead to a source as they lead to a file in the tree. -/
theorem leadsToSource_iff {entries : List (EntryName × Entry)} {names : List EntryName}
    (tree : (Entry.directory entries).isTree = true)
    (hroot : fs.entry root = .ok (.directory entries)) (hne : names ≠ []) :
    LeadsToSource fs root exclude names ↔ LeadsToFile exclude (.directory entries) names := by
  constructor
  · rintro ⟨proper, -, ⟨content, hfile⟩, hdirs, hincluded⟩
    exact ⟨⟨content, (FileSystem.at?_eq_some_iff hroot proper hne _).mpr ⟨hfile, hdirs⟩⟩,
      fun d hd => isExcluded_eq_false_iff.mpr (hincluded d hd)⟩
  · rintro ⟨⟨content, hat⟩, hincluded⟩
    have proper := (Entry.at?_isTree tree hat).1
    obtain ⟨hfile, hdirs⟩ := (FileSystem.at?_eq_some_iff hroot proper hne _).mp hat
    exact ⟨proper, fun _ => ⟨entries, hroot⟩, ⟨content, hfile⟩, hdirs,
      fun d hd => isExcluded_eq_false_iff.mp (hincluded d hd)⟩

theorem leadsToSource_nil :
    LeadsToSource fs root exclude [] ↔ ∃ content, fs.linkEntry root = .ok (.file content) := by
  refine ⟨LeadsToSource.isFile, fun hfile => ?_⟩
  exact ⟨by simp, by simp, hfile, fun above hne hp _ => absurd (List.prefix_nil.mp hp) hne, by simp⟩

theorem rootEntry_isTree (tree : (Entry.directory fs.root).isTree = true) {e : Entry}
    (h : rootEntry fs root = .ok e) : e.isTree = true := by
  cases e with
  | directory entries =>
    obtain ⟨n, hn⟩ := FileSystem.entry_eq_ok_iff.mp (rootEntry_directory.mp h)
    exact (Entry.at?_isTree tree (FileSystem.at?_of_resolve hn)).2
  | file | link => rfl

theorem LeadsToSource.rootEntry_eq_ok {names : List EntryName}
    (h : LeadsToSource fs root exclude names) : ∃ e, rootEntry fs root = .ok e := by
  by_cases hne : names = []
  · subst hne
    obtain ⟨content, hfile⟩ := h.isFile
    exact ⟨_, rootEntry_file.mpr hfile⟩
  · obtain ⟨entries, hroot⟩ := h.fromDirectory hne
    exact ⟨_, rootEntry_directory.mpr hroot⟩

/-- Names lead to a source from a root as they lead to a file in what the root stands for. -/
theorem leadsToSource_iff_of_rootEntry (tree : (Entry.directory fs.root).isTree = true)
    {e : Entry} (h : rootEntry fs root = .ok e) (names : List EntryName) :
    LeadsToSource fs root exclude names ↔ LeadsToFile exclude e names := by
  by_cases hne : names = []
  · subst hne
    simp only [leadsToSource_nil, leadsToFile_nil, ← rootEntry_file, h, Except.ok.injEq]
  · by_cases hdir : ∃ entries, e = .directory entries
    · obtain ⟨entries, rfl⟩ := hdir
      exact leadsToSource_iff (rootEntry_isTree tree h) (rootEntry_directory.mp h) hne
    · constructor
      · intro hsource
        obtain ⟨entries, hroot⟩ := hsource.fromDirectory hne
        have := h.symm.trans (rootEntry_directory.mpr hroot)
        exact absurd ⟨entries, Except.ok.inj this⟩ hdir
      · rintro ⟨⟨content, hat⟩, -⟩
        exact absurd (Entry.exists_directory hat hne) hdir

/-- **Each file is found once, and the files found are the regular files of a known language
that are reached from the root through no link and no excluded directory.** -/
theorem discover_finds_exactly (fs : FileSystem)
    (tree : (Entry.directory fs.root).isTree = true) (root : Path) (languages : List Language)
    (exclude : List String) :
    ((discover fs root languages exclude).map Job.path).Nodup ∧
      ∀ p l, ⟨p, l⟩ ∈ discover fs root languages exclude ↔
        (∃ names, LeadsToSource fs root exclude names ∧ p = root.below names) ∧
          Language.ofPath? p = some l ∧ l ∈ languages := by
  constructor
  · unfold discover
    cases h : rootEntry fs root with
    | error => exact List.nodup_nil
    | ok e => exact nodup_jobsAt languages (rootEntry_isTree tree h) root
  · intro p l
    rw [mem_discover]
    constructor
    · rintro ⟨e, h, hjob⟩
      obtain ⟨names, hleads, hjob⟩ := (mem_jobsAt languages (rootEntry_isTree tree h) ..).mp hjob
      obtain ⟨rfl, hlanguage⟩ := jobOf?_eq_some_iff.mp hjob
      exact ⟨⟨names, (leadsToSource_iff_of_rootEntry tree h names).mpr hleads, rfl⟩, hlanguage⟩
    · rintro ⟨⟨names, hsource, rfl⟩, hlanguage⟩
      obtain ⟨e, h⟩ := hsource.rootEntry_eq_ok
      have hleads := (leadsToSource_iff_of_rootEntry tree h names).mp hsource
      have hjob : jobOf? languages (root.below names) = some ⟨root.below names, l⟩ :=
        jobOf?_eq_some_iff.mpr ⟨rfl, hlanguage⟩
      exact ⟨e, h, (mem_jobsAt languages (rootEntry_isTree tree h) ..).mpr ⟨names, hleads, hjob⟩⟩

/-! The root of a sample is a link to a directory whose own name is left out. In it are a file
and a directory with names that are left out, a link to a file, and a directory that is
entered. -/

def spelled (s : String) : EntryName := Text.Utf8.encode s.toList

def sampleEntries : List (EntryName × Entry) :=
  [(spelled "lib.py", .file []),
    (spelled "link.py", .link (.ofString "lib.py")),
    (spelled "core", .directory [(spelled "main.py", .file [])]),
    (spelled "lib", .directory [(spelled "main.py", .file [])])]

def sample : FileSystem :=
  ⟨[(spelled "lib", .directory sampleEntries), (spelled "root", .link (.ofString "lib"))], []⟩

theorem sample_entry :
    sample.entry (.ofString "/root") = .ok (.directory sampleEntries) := by
  have hroot : FileSystem.steps (.ofString "/root") = [spelled "root"] := by decide +kernel
  have hlib : FileSystem.steps (.ofString "lib") = [spelled "lib"] := by decide +kernel
  have rootName : Path.IsName (spelled "root") := by decide +kernel
  have libName : Path.IsName (spelled "lib") := by decide +kernel
  have root : sample.Finds [] (spelled "root") (some (.link (.ofString "lib"))) :=
    FileSystem.finds_of_isName rfl rootName rfl
  have lib : sample.Finds [] (spelled "lib") (some (.directory sampleEntries)) :=
    FileSystem.finds_of_isName rfl libName rfl
  refine FileSystem.entry_eq_ok_iff.mpr ⟨[spelled "lib"], ?_⟩
  calc
    sample.resolve true (.ofString "/root")
    _ = sample.walk true 40 [] [spelled "root"] := by rw [← hroot]; rfl
    _ = sample.walk true 39 (if (Path.ofString "lib").isAbsolute then [] else [])
        (FileSystem.steps (.ofString "lib") ++ []) :=
      FileSystem.result_of_moves (.redirect root (.inr rfl))
    _ = sample.walk true 39 [] [spelled "lib"] := by rw [ite_self, hlib, List.append_nil]
    _ = sample.walk true 39 [spelled "lib"] [] :=
      FileSystem.result_of_moves (.enter lib (by simp))
    _ = .ok ⟨[spelled "lib"], some (.directory sampleEntries)⟩ :=
      FileSystem.result_of_ends (.arrived rfl)

theorem discover_finds_exactly_linked :
    (Entry.directory sample.root).isTree = true ∧
      discover sample (.ofString "/root") [.python] ["lib", "lib.py"] =
        [⟨.ofString "/root/lib.py", .python⟩, ⟨.ofString "/root/core/main.py", .python⟩] ∧
      ∃ names, LeadsToSource sample (.ofString "/root") ["lib", "lib.py"] names ∧
        Path.ofString "/root/core/main.py" = (Path.ofString "/root").below names := by
  have found : discover sample (.ofString "/root") [.python] ["lib", "lib.py"] =
      [⟨.ofString "/root/lib.py", .python⟩, ⟨.ofString "/root/core/main.py", .python⟩] := by
    rw [discover, rootEntry_directory.mpr sample_entry]
    decide +kernel
  have tree : (Entry.directory sample.root).isTree = true := by decide +kernel
  refine ⟨tree, found, ?_⟩
  have := ((discover_finds_exactly sample tree (.ofString "/root") [.python] ["lib", "lib.py"]).2
    (.ofString "/root/core/main.py") .python).mp (by simp [found])
  exact this.1

end SourceAudit.Scan
