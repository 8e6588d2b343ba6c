import SourceAudit.Proofs.Toml.Values

/-! Sections are read back.

A configuration file can be written with a header for each section and a line for each key with its
value. The reader is followed line by line: a header opens an empty section, a line puts its key into
the section that was opened last, and so a file is read as the table of its sections. -/
namespace SourceAudit.Toml

/-! ### Keys -/

/-- A key that need not stand in quotes. -/
def IsBare (key : String) : Prop := key.toList ≠ [] ∧ key.toList.all isBareChar = true

instance (key : String) : Decidable (IsBare key) := inferInstanceAs (Decidable (_ ∧ _))

theorem IsBare.eq_cons {key : String} (h : IsBare key) :
    ∃ c cs, key.toList = c :: cs ∧ isBareChar c = true := by
  cases written : key.toList with
  | nil => exact absurd written h.1
  | cons c cs => exact ⟨c, cs, rfl, List.all_eq_true.mp h.2 c (written ▸ List.mem_cons_self)⟩

theorem ne_of_isBareChar {c d : Char} (bare : isBareChar c = true) (h : isBareChar d = false) :
    c ≠ d := by
  rintro rfl
  rw [bare] at h
  cases h

/-- A key does not begin with a character that cannot stand in it. -/
theorem IsBare.append_ne_cons {key : String} (h : IsBare key) {d : Char}
    (other : isBareChar d = false) (rest r : List Char) : key.toList ++ rest ≠ d :: r := by
  obtain ⟨c, cs, written, bare⟩ := h.eq_cons
  rw [written]
  intro same
  exact ne_of_isBareChar bare other (List.cons.inj same).1

theorem skipBlanks_bare {key : String} (h : IsBare key) (rest : List Char) :
    skipBlanks (key.toList ++ rest) = key.toList ++ rest := by
  obtain ⟨c, cs, written, bare⟩ := h.eq_cons
  have solid : ¬isBlank c = true := by
    simp only [isBlank, Bool.or_eq_true, decide_eq_true_eq, not_or]
    exact ⟨ne_of_isBareChar bare (by decide), ne_of_isBareChar bare (by decide)⟩
  rw [written, List.cons_append, skipBlanks, List.dropWhile_cons_of_neg solid]

theorem readKeyPart_bare {key : String} (h : IsBare key) {d : Char} (other : isBareChar d = false)
    (rest : List Char) : readKeyPart (key.toList ++ d :: rest) = some (key, d :: rest) := by
  have part : (key.toList ++ d :: rest).takeWhile isBareChar = key.toList := by
    rw [List.takeWhile_append_of_pos (List.all_eq_true.mp h.2),
      List.takeWhile_cons_of_neg (by simp [other]), List.append_nil]
  have solid : ¬key.toList.isEmpty = true := by simp [h.1]
  unfold readKeyPart
  rw [part, if_neg solid, String.ofList_toList, List.drop_left]
  split
  · next c r same =>
    refine if_neg fun quote => ?_
    simp only [Bool.or_eq_true, decide_eq_true_eq] at quote
    rcases quote with rfl | rfl
    · exact h.append_ne_cons (by decide) _ _ same
    · exact h.append_ne_cons (by decide) _ _ same
  · next same => simp at same

theorem readShortKey_bare {key : String} (h : IsBare key) {d e : Char} {rest r : List Char}
    (other : isBareChar d = false) (blanks : skipBlanks (d :: rest) = e :: r) (dot : e ≠ '.') :
    readShortKey (key.toList ++ d :: rest) = some ([key], e :: r) := by
  unfold readShortKey depthLimit
  rw [readKey, skipBlanks_bare h, readKeyPart_bare h other]
  simp only [Option.bind_eq_bind, Option.bind_some, blanks]
  split
  · next same => exact absurd (List.cons.inj same).1 dot
  · rfl

/-! ### Lines -/

/-- A line with a key and its value. -/
def line (pair : String × Plain) : List Char :=
  pair.1.toList ++ ' ' :: '=' :: ' ' :: (pair.2.written ++ ['\n'])

/-- A header on a line of its own. -/
def header (name : String) : List Char := '[' :: (name.toList ++ [']', '\n'])

theorem endLine_newline (rest : List Char) : endLine ('\n' :: rest) = some rest := rfl

theorem readPair_line {key : String} (bare : IsBare key) {v : Plain} (fits : v.Fits)
    {p : Progress} {root : Frame}
    (placed : p.root.within false (Frame.insertAt [key] v.toToml) p.current = some root)
    (rest : List Char) :
    readPair p (line (key, v) ++ rest) = some ({ p with root }, rest) := by
  have written : line (key, v) ++ rest =
      key.toList ++ ' ' :: '=' :: ' ' :: (v.written ++ '\n' :: rest) := by
    simp [line]
  rw [written, readPair, readShortKey_bare bare (by decide) (by rfl) (by decide)]
  simp only [Option.bind_eq_bind, Option.bind_some]
  rw [v.skipBlanks_written, v.readValue_written fits]
  · simp [placed, endLine_newline]
  · simp only [List.length_cons, List.length_append]
    omega

theorem readHeader_line {name : String} (bare : IsBare name) {p : Progress} {root : Frame}
    (opened : p.root.openTable [name] = some root) (rest : List Char) :
    readHeader p (name.toList ++ ']' :: '\n' :: rest) = some (⟨root, [name]⟩, rest) := by
  unfold readHeader
  split
  · next same => exact absurd same (bare.append_ne_cons (by decide) _ _)
  · rw [readShortKey_bare bare (by decide) (by rfl) (by decide)]
    simp [opened, endLine_newline]

theorem afterNewline_bare {key : String} (bare : IsBare key) (text : List Char) :
    afterNewline (key.toList ++ text) = none := by
  unfold afterNewline
  split
  · next same => exact absurd same (bare.append_ne_cons (by decide) _ _)
  · next same => exact absurd same (bare.append_ne_cons (by decide) _ _)
  · rfl

theorem readLines_line {key : String} (bare : IsBare key) {v : Plain} (fits : v.Fits)
    {p : Progress} {root : Frame}
    (placed : p.root.within false (Frame.insertAt [key] v.toToml) p.current = some root)
    (steps : Nat) (rest : List Char) :
    readLines (steps + 1) p (line (key, v) ++ rest) = readLines steps { p with root } rest := by
  have read := readPair_line bare fits placed rest
  rw [line, List.append_assoc] at read ⊢
  rw [readLines, skipBlanks_bare bare]
  split
  · next same => exact absurd same (by simp)
  · next same => exact absurd same (bare.append_ne_cons (by decide) _ _)
  · next same => exact absurd same (bare.append_ne_cons (by decide) _ _)
  · rw [afterNewline_bare bare, read]
    rfl

theorem readLines_header {name : String} (bare : IsBare name) {p : Progress} {root : Frame}
    (opened : p.root.openTable [name] = some root) (steps : Nat) (rest : List Char) :
    readLines (steps + 1) p (header name ++ rest) = readLines steps ⟨root, [name]⟩ rest := by
  have written : header name ++ rest = '[' :: (name.toList ++ ']' :: '\n' :: rest) := by
    simp [header]
  have solid (text : List Char) : skipBlanks ('[' :: text) = '[' :: text := rfl
  rw [written, readLines, solid]
  simp only [readHeader_line bare opened, Option.bind_some]

/-! ### Sections -/

/-- A table with a header of its own. -/
structure Section where
  name : String
  pairs : List (String × Plain)

/-- Pairs as the reader holds them. -/
def entries (pairs : List (String × Plain)) : List (String × Item) :=
  pairs.map fun p => (p.1, .value p.2.toToml)

namespace Section

def text (s : Section) : List Char := header s.name ++ s.pairs.flatMap line

/-- The section as the reader holds it. -/
def entry (s : Section) : String × Item := (s.name, .table false false (entries s.pairs))

def toToml (s : Section) : Toml := .table (s.pairs.map fun p => (p.1, p.2.toToml))

/-- A section that can be written: its keys are bare and no two are the same. -/
structure IsWritable (s : Section) : Prop where
  name_bare : IsBare s.name
  keys_bare : ∀ p ∈ s.pairs, IsBare p.1
  fits : ∀ p ∈ s.pairs, p.2.Fits
  keys_nodup : (s.pairs.map (·.1)).Nodup

end Section

theorem lookup_eq_none {α : Type} {entries : List (String × α)} {key : String}
    (fresh : key ∉ entries.map (·.1)) : entries.lookup key = none := by
  rw [List.lookup_eq_none_iff]
  intro e mem
  simp only [bne_iff_ne]
  rintro rfl
  exact fresh (List.mem_map_of_mem mem)

namespace Frame

theorem openTable_fresh {root : Frame} {name : String} (fresh : name ∉ root.entries.map (·.1)) :
    root.openTable [name] = some (root.add name (.table false false [])) := by
  simp [openTable, within, lookup_eq_none fresh]

theorem insertAt_fresh (frame : Frame) {key : String} (header : frame.dotted = false)
    (fresh : key ∉ frame.entries.map (·.1)) (v : Toml) :
    frame.insertAt [key] v = some (frame.add key (.value v)) := by
  simp [insertAt, within, insert, header, lookup_eq_none fresh]

theorem replace_last {frame : Frame} {name : String} (fresh : name ∉ frame.entries.map (·.1))
    (item item' : Item) : (frame.add name item).replace name item' = frame.add name item' := by
  have others : ∀ e ∈ frame.entries, (if e.1 = name then (e.1, item') else e) = e := by
    intro e mem
    refine if_neg ?_
    rintro rfl
    exact fresh (List.mem_map_of_mem mem)
  simp only [replace, add, List.map_append, List.map_cons, List.map_nil, if_pos]
  rw [List.map_congr_left others, List.map_id']

/-- A change of the table that was opened last. -/
theorem within_last {root : Frame} {name : String} (fresh : name ∉ root.entries.map (·.1))
    {change : Frame → Option Frame} {entries entries' : List (String × Item)}
    (changed : change ⟨false, false, entries⟩ = some ⟨false, false, entries'⟩) :
    (root.add name (.table false false entries)).within false change [name] =
      some (root.add name (.table false false entries')) := by
  have found : (root.add name (.table false false entries)).entries.lookup name =
      some (.table false false entries) := by
    rw [add, List.lookup_append, lookup_eq_none fresh]
    simp
  rw [within, found]
  simp [within, changed, replace_last fresh, toItem]

end Frame

/-- What has been read once some sections have been. -/
def Progress.after (done : List Section) : Progress :=
  ⟨⟨false, false, done.map Section.entry⟩, (done.getLast?.map (·.name)).toList⟩

theorem Progress.after_append (done : List Section) (s : Section) :
    after (done ++ [s]) = ⟨(after done).root.add s.name s.entry.2, [s.name]⟩ := by
  simp [after, Frame.add, Section.entry]

theorem notMem_of_nodup {α : Type} {label : α → String} {before after : List α} {x : α}
    (apart : ((before ++ x :: after).map label).Nodup) : label x ∉ before.map label := by
  rw [List.map_append, List.map_cons, List.nodup_append] at apart
  intro mem
  exact apart.2.2 _ mem _ List.mem_cons_self rfl

section Reading
variable {done : List Section} {name : String} (fresh : name ∉ done.map (·.name))
include fresh

theorem fresh_entry : name ∉ (Progress.after done).root.entries.map (·.1) := by
  simpa [Progress.after, Section.entry] using fresh

/-- A header opens an empty section. -/
theorem readLines_after_header (bare : IsBare name) (steps : Nat) (rest : List Char) :
    readLines (steps + 1) (.after done) (header name ++ rest) =
      readLines steps (.after (done ++ [⟨name, []⟩])) rest := by
  rw [readLines_header bare (Frame.openTable_fresh (fresh_entry fresh)), Progress.after_append]
  rfl

/-- A line puts its key into the section that was opened last. -/
theorem readLines_after_line {before : List (String × Plain)} {pair : String × Plain}
    (bare : IsBare pair.1) (fits : pair.2.Fits) (new : pair.1 ∉ before.map (·.1)) (steps : Nat)
    (rest : List Char) :
    readLines (steps + 1) (.after (done ++ [⟨name, before⟩])) (line pair ++ rest) =
      readLines steps (.after (done ++ [⟨name, before ++ [pair]⟩])) rest := by
  have inserted := Frame.insertAt_fresh ⟨false, false, entries before⟩ rfl
    (by simpa [entries] using new) pair.2.toToml
  have placed := Frame.within_last (fresh_entry fresh) inserted
  rw [Progress.after_append, readLines_line bare fits placed, Progress.after_append]
  simp [Section.entry, entries]

theorem readLines_after_lines (before : List (String × Plain)) {pairs : List (String × Plain)}
    (bare : ∀ p ∈ pairs, IsBare p.1) (fits : ∀ p ∈ pairs, p.2.Fits)
    (apart : ((before ++ pairs).map (·.1)).Nodup) (steps : Nat) (rest : List Char) :
    readLines (pairs.length + steps) (.after (done ++ [⟨name, before⟩]))
        (pairs.flatMap line ++ rest) =
      readLines steps (.after (done ++ [⟨name, before ++ pairs⟩])) rest := by
  induction pairs generalizing before with
  | nil => simp
  | cons pair pairs ih =>
    obtain ⟨pairBare, bare⟩ := List.forall_mem_cons.mp bare
    obtain ⟨pairFits, fits⟩ := List.forall_mem_cons.mp fits
    have new := notMem_of_nodup apart
    rw [List.append_cons before] at apart ⊢
    rw [List.flatMap_cons, List.append_assoc, List.length_cons, Nat.add_right_comm,
      readLines_after_line fresh pairBare pairFits new, ih _ bare fits apart]

end Reading

/-- A section is read as a whole. -/
theorem readLines_section {done : List Section} {s : Section} (writable : s.IsWritable)
    (fresh : s.name ∉ done.map (·.name)) (steps : Nat) (rest : List Char) :
    readLines (s.pairs.length + 1 + steps) (.after done) (s.text ++ rest) =
      readLines steps (.after (done ++ [s])) rest := by
  rw [Section.text, List.append_assoc, Nat.add_right_comm,
    readLines_after_header fresh writable.name_bare]
  exact readLines_after_lines fresh [] writable.keys_bare writable.fits writable.keys_nodup steps
    rest

/-- The number of lines of a file. -/
def lineCount : List Section → Nat
  | [] => 0
  | s :: sections => s.pairs.length + 1 + lineCount sections

theorem readLines_nil (steps : Nat) (p : Progress) : readLines steps p [] = some p := by
  cases steps <;> rfl

theorem readLines_sections (done : List Section) {sections : List Section}
    (writable : ∀ s ∈ sections, s.IsWritable)
    (apart : ((done ++ sections).map (·.name)).Nodup) (steps : Nat) :
    readLines (lineCount sections + steps) (.after done) (sections.flatMap (·.text)) =
      some (.after (done ++ sections)) := by
  induction sections generalizing done with
  | nil =>
    rw [List.append_nil]
    exact readLines_nil _ _
  | cons s sections ih =>
    obtain ⟨first, writable⟩ := List.forall_mem_cons.mp writable
    have fresh := notMem_of_nodup apart
    rw [List.append_cons done] at apart ⊢
    rw [List.flatMap_cons, lineCount, Nat.add_assoc, readLines_section first fresh,
      ih _ writable apart]

theorem length_le_lines (pairs : List (String × Plain)) :
    pairs.length ≤ (pairs.flatMap line).length := by
  induction pairs with
  | nil => exact Nat.le_refl 0
  | cons pair pairs ih =>
    rw [List.flatMap_cons, line]
    simp only [List.length_append, List.length_cons]
    omega

theorem lineCount_le (sections : List Section) :
    lineCount sections ≤ (sections.flatMap (·.text)).length := by
  induction sections with
  | nil => exact Nat.le_refl 0
  | cons s sections ih =>
    have := length_le_lines s.pairs
    rw [List.flatMap_cons, lineCount, Section.text, header]
    simp only [List.length_append, List.length_cons]
    omega

theorem finishEntries_entries (pairs : List (String × Plain)) :
    finishEntries (entries pairs) = pairs.map fun p => (p.1, p.2.toToml) := by
  induction pairs with
  | nil => rfl
  | cons pair pairs ih =>
    rw [entries, List.map_cons, finishEntries, ← entries, ih]
    rfl

theorem finishEntries_after (sections : List Section) :
    finishEntries (Progress.after sections).root.entries =
      sections.map fun s => (s.name, s.toToml) := by
  show finishEntries (sections.map Section.entry) = _
  induction sections with
  | nil => rfl
  | cons s sections ih =>
    rw [List.map_cons, Section.entry, finishEntries, ih, Item.finish, finishEntries_entries]
    rfl

theorem ofText?_of_readLines {text : List Char} {p : Progress}
    (unmarked : ∀ c r, text = c :: r → c.toNat ≠ 0xFEFF)
    (read : readLines (text.length + 1) (.after []) text = some p) :
    ofText? text = some (.table (finishEntries p.root.entries)) := by
  cases text with
  | nil =>
    cases read
    rfl
  | cons c r =>
    unfold ofText?
    simp only [if_neg (unmarked c r rfl)]
    show (readLines ((c :: r).length + 1) (.after []) (c :: r)).bind _ = _
    rw [read]
    rfl

/-- **A file of sections is read as the table of its sections.** -/
theorem ofText?_sections {sections : List Section} (writable : ∀ s ∈ sections, s.IsWritable)
    (apart : (sections.map (·.name)).Nodup) :
    ofText? (sections.flatMap (·.text)) =
      some (.table (sections.map fun s => (s.name, s.toToml))) := by
  obtain ⟨spare, count⟩ := Nat.exists_eq_add_of_le (Nat.le_succ_of_le (lineCount_le sections))
  have read := readLines_sections [] writable apart spare
  rw [← count] at read
  rw [ofText?_of_readLines ?_ read, List.nil_append, finishEntries_after]
  intro c r written
  cases sections with
  | nil => cases written
  | cons s sections =>
    rw [List.flatMap_cons, Section.text, header, List.cons_append, List.cons_append] at written
    rw [← (List.cons.inj written).1]
    decide

end SourceAudit.Toml
