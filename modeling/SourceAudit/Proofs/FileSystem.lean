import Mathlib.Data.List.Induction
import Mathlib.Data.List.Nodup
import SourceAudit.FileSystem

/-! Names, trees and the resolution of paths.

A tree gives every entry of a directory a proper name, and no two the same. The names that
lead to an entry are then both where it is in the tree and how its path goes on below the
path of a directory: resolving such a path first goes where the directory is and then down
the names, one entry each, since no name of a tree leads upwards or stays
(`FileSystem.resolve_below`). A directory may have been reached through links; what is below
it is found with no further ones.

A walk along a path takes one step after the other (`FileSystem.Moves`) until it comes to an end
(`FileSystem.Ends`), and what holds of all walks is shown along these steps
(`FileSystem.walk_induction`). -/
namespace SourceAudit

/-! ### Paths below a path -/

namespace Path

/-- A name that an entry of a directory can have. -/
structure IsName (name : List UInt8) : Prop where
  ne_nil : name ≠ []
  slash_not_mem : slash ∉ name
  ne_dot : name ≠ [dot]
  ne_dots : name ≠ [dot, dot]

instance (name : List UInt8) : Decidable (IsName name) :=
  decidable_of_iff (name ≠ [] ∧ slash ∉ name ∧ name ≠ [dot] ∧ name ≠ [dot, dot])
    ⟨fun ⟨h₁, h₂, h₃, h₄⟩ => ⟨h₁, h₂, h₃, h₄⟩, fun ⟨h₁, h₂, h₃, h₄⟩ => ⟨h₁, h₂, h₃, h₄⟩⟩

/-- The path of what some names lead to from the directory `p`. -/
def below (p : Path) (names : List (List UInt8)) : Path := names.foldl join p

/-- The components of a path that are not empty. -/
def parts (p : Path) : List (List UInt8) := (p.bytes.splitOn slash).filter (· ≠ [])

theorem below_cons (p : Path) (name : List UInt8) (names : List (List UInt8)) :
    p.below (name :: names) = (p.join name).below names := rfl

theorem below_append (p : Path) (above names : List (List UInt8)) :
    p.below (above ++ names) = (p.below above).below names :=
  List.foldl_append

theorem parts_of_isName {name : List UInt8} (h : IsName name) : parts ⟨name⟩ = [name] := by
  simp [parts, List.splitOn_eq_singleton h.slash_not_mem, h.ne_nil]

theorem parts_append_slash (before after : List UInt8) :
    parts ⟨before ++ slash :: after⟩ = parts ⟨before⟩ ++ parts ⟨after⟩ := by
  simp only [parts, List.splitOn_append_cons_self, List.filter_append]

theorem parts_nil : parts ⟨[]⟩ = [] := by
  simp [parts, List.splitOn_nil]

theorem parts_join (p : Path) {name : List UInt8} (h : IsName name) :
    (p.join name).parts = p.parts ++ [name] := by
  obtain ⟨bytes⟩ := p
  unfold join
  split
  case isFalse => rw [parts_append_slash, parts_of_isName h]
  case isTrue ends =>
    rcases List.eq_nil_or_concat bytes with rfl | ⟨before, last, rfl⟩
    · rw [List.nil_append, parts_of_isName h, parts_nil, List.nil_append]
    · have hl : last = slash := by simpa using ends
      rw [hl, List.concat_eq_append, List.append_assoc, List.singleton_append,
        parts_append_slash, parts_append_slash, parts_of_isName h, parts_nil, List.append_nil]

theorem parts_below (p : Path) {names : List (List UInt8)} (h : ∀ n ∈ names, IsName n) :
    (p.below names).parts = p.parts ++ names := by
  induction names generalizing p with
  | nil => exact (List.append_nil _).symm
  | cons name names ih =>
    rw [List.forall_mem_cons] at h
    rw [below_cons, ih _ h.2, parts_join p h.1, List.append_assoc, List.singleton_append]

/-- Different names lead to different paths. -/
theorem below_injective {p : Path} {names names' : List (List UInt8)}
    (h : ∀ n ∈ names, IsName n) (h' : ∀ n ∈ names', IsName n)
    (same : p.below names = p.below names') : names = names' := by
  have := congrArg parts same
  rwa [parts_below p h, parts_below p h', List.append_right_inj] at this

theorem exists_join (p : Path) (name : List UInt8) :
    ∃ between, (p.join name).bytes = p.bytes ++ between ++ name := by
  unfold join
  split
  · exact ⟨[], by simp⟩
  · exact ⟨[slash], by simp⟩

theorem exists_below (p : Path) (names : List (List UInt8)) :
    ∃ after, (p.below names).bytes = p.bytes ++ after := by
  induction names generalizing p with
  | nil => exact ⟨[], by simp [below]⟩
  | cons name names ih =>
    obtain ⟨after, h⟩ := ih (p.join name)
    obtain ⟨between, hj⟩ := p.exists_join name
    exact ⟨between ++ name ++ after, by rw [below_cons, h, hj]; simp⟩

/-- A path below another has its parts as steps: it does not end in a slash. -/
theorem steps_below (p : Path) {names : List (List UInt8)} (h : ∀ n ∈ names, IsName n)
    (hne : names ≠ []) : FileSystem.steps (p.below names) = p.parts ++ names := by
  rw [← parts_below p h]
  refine if_neg ?_
  obtain ⟨above, name, rfl⟩ := (List.eq_nil_or_concat names).resolve_left hne
  have hn : IsName name := h name (by simp)
  obtain ⟨between, hj⟩ := (p.below above).exists_join name
  rw [List.concat_eq_append, below_append]
  change ((p.below above).join name).bytes.getLast? ≠ some slash
  rw [hj, List.getLast?_append_of_ne_nil _ hn.ne_nil]
  exact fun hl => hn.slash_not_mem (List.mem_of_getLast? hl)

theorem steps_eq (p : Path) :
    FileSystem.steps p = p.parts ∨ FileSystem.steps p = p.parts ++ [[dot]] := by
  unfold FileSystem.steps
  split
  · exact .inr rfl
  · exact .inl rfl

end Path

/-! ### Trees -/

namespace Entry

mutual
/-- Whether all names in an entry are proper, and in each directory no two are the same. -/
def isTree : Entry → Bool
  | .directory entries => areTrees entries
  | .file _ => true
  | .link _ => true
termination_by structural e => e

def areTrees : List (EntryName × Entry) → Bool
  | [] => true
  | (name, e) :: rest =>
    decide (Path.IsName name) && !(rest.map Prod.fst).contains name && isTree e && areTrees rest
termination_by structural entries => entries
end

theorem sizeOf_lt_of_mem {entries : List (EntryName × Entry)} {pair : EntryName × Entry}
    (h : pair ∈ entries) : sizeOf pair.2 < sizeOf (directory entries) := by
  obtain ⟨name, e⟩ := pair
  have := List.sizeOf_lt_of_mem h
  simp only [Prod.mk.sizeOf_spec, directory.sizeOf_spec] at *
  omega

/-- What holds of files and links, and of a directory if it holds of all that is in it, holds
of every entry. -/
theorem entry_induction {P : Entry → Prop}
    (directory : ∀ entries, (∀ pair ∈ entries, P pair.2) → P (.directory entries))
    (file : ∀ content, P (.file content)) (link : ∀ target, P (.link target)) :
    ∀ e, P e
  | .directory entries => directory entries fun pair h =>
      have := sizeOf_lt_of_mem h
      entry_induction directory file link pair.2
  | .file content => file content
  | .link target => link target
termination_by e => sizeOf e
decreasing_by exact this

theorem areTrees_iff (entries : List (EntryName × Entry)) :
    areTrees entries = true ↔
      (entries.map Prod.fst).Nodup ∧
        ∀ pair ∈ entries, Path.IsName pair.1 ∧ pair.2.isTree = true := by
  induction entries with
  | nil => simp [areTrees]
  | cons first rest ih =>
    obtain ⟨name, e⟩ := first
    rw [areTrees, List.map_cons, List.nodup_cons, List.forall_mem_cons]
    simp only [Bool.and_eq_true, ih, decide_eq_true_eq, Bool.not_eq_true', List.contains_eq_mem,
      decide_eq_false_iff_not]
    tauto

theorem lookup_iff {entries : List (EntryName × Entry)} (h : (entries.map Prod.fst).Nodup)
    (name : EntryName) (e : Entry) :
    entries.lookup name = some e ↔ (name, e) ∈ entries := by
  induction entries with
  | nil => simp
  | cons first rest ih =>
    obtain ⟨name', e'⟩ := first
    rw [List.map_cons, List.nodup_cons] at h
    by_cases same : name = name'
    · have absent : (name', e) ∉ rest := fun hm => h.1 (List.mem_map.mpr ⟨_, hm, rfl⟩)
      simp [same, absent, eq_comm]
    · rw [List.lookup_cons, beq_false_of_ne same, ih h.2]
      simp [same]

/-! ### Going down -/

theorem at?_nil (e : Entry) : e.at? [] = some e := rfl

theorem at?_cons (name : EntryName) (names : List EntryName)
    (entries : List (EntryName × Entry)) :
    (directory entries).at? (name :: names) = (entries.lookup name).bind (at? names) := by
  rw [at?]
  cases entries.lookup name <;> rfl

theorem at?_append (a b : List EntryName) (e : Entry) :
    e.at? (a ++ b) = (e.at? a).bind (at? b) := by
  induction a generalizing e with
  | nil => rfl
  | cons name a ih =>
    cases e with
    | directory entries =>
      rw [List.cons_append, at?_cons, at?_cons, Option.bind_assoc]
      exact congrArg _ (funext ih)
    | file | link => rfl

theorem at?_snoc {e : Entry} {above : List EntryName} {inner : List (EntryName × Entry)}
    (h : e.at? above = some (.directory inner)) (name : EntryName) :
    e.at? (above ++ [name]) = inner.lookup name := by
  rw [at?_append, h, Option.bind_some, at?_cons]
  exact Option.bind_fun_some _

/-- Only a directory has something below it. -/
theorem exists_directory {e e' : Entry} {names : List EntryName} (h : e.at? names = some e')
    (hne : names ≠ []) : ∃ entries, e = .directory entries := by
  match names, e with
  | [], _ => exact absurd rfl hne
  | _ :: _, .directory entries => exact ⟨entries, rfl⟩
  | _ :: _, .file _ => cases h
  | _ :: _, .link _ => cases h

theorem exists_directory_of_at? {e : Entry} {names : List EntryName}
    {inner : List (EntryName × Entry)} (h : e.at? names = some (.directory inner)) :
    ∃ entries, e = .directory entries := by
  by_cases hne : names = []
  · rw [hne] at h
    exact ⟨inner, Option.some.inj h⟩
  · exact exists_directory h hne

/-- Proper names lead from a tree to trees. -/
theorem at?_isTree {e e' : Entry} {names : List EntryName} (tree : e.isTree = true)
    (h : e.at? names = some e') : (∀ n ∈ names, Path.IsName n) ∧ e'.isTree = true := by
  induction names generalizing e with
  | nil =>
    cases h
    exact ⟨List.forall_mem_nil _, tree⟩
  | cons name names ih =>
    obtain ⟨entries, rfl⟩ := exists_directory h (List.cons_ne_nil _ _)
    obtain ⟨distinct, proper⟩ := (areTrees_iff entries).mp tree
    rw [at?_cons, Option.bind_eq_some_iff] at h
    obtain ⟨inner, hl, h⟩ := h
    obtain ⟨hn, ht⟩ := proper _ ((lookup_iff distinct name inner).mp hl)
    obtain ⟨hns, htree⟩ := ih ht h
    exact ⟨List.forall_mem_cons.mpr ⟨hn, hns⟩, htree⟩

end Entry

/-! ### Steps of a walk -/

namespace FileSystem

/-- A walk under way: the links it may still follow, where it is, and what is left of its path. -/
structure Walk where
  links : Nat
  names : List EntryName
  rest : List EntryName

/-- What a walk comes to. -/
def Walk.result (fs : FileSystem) (follow : Bool) (w : Walk) : Except FileError Place :=
  fs.walk follow w.links w.names w.rest

/-- A walk with more to go after its path. -/
def Walk.append (w : Walk) (more : List EntryName) : Walk := ⟨w.links, w.names, w.rest ++ more⟩

/-- What a name stands for in the directory that names lead to. One or two dots are no name. -/
structure Finds (fs : FileSystem) (names : List EntryName) (name : EntryName)
    (found : Option Entry) : Prop where
  ne_dot : name ≠ [Path.dot]
  ne_dots : name ≠ [Path.dot, Path.dot]
  inside : ∃ entries, (Entry.directory fs.root).at? names = some (.directory entries) ∧
    entries.lookup name = found

/-- A walk goes on by one component. -/
inductive Moves (fs : FileSystem) (follow : Bool) : Walk → Walk → Prop
  | stay {links : Nat} {names more : List EntryName} {entries : List (EntryName × Entry)}
      (here : (Entry.directory fs.root).at? names = some (.directory entries)) :
      Moves fs follow ⟨links, names, [Path.dot] :: more⟩ ⟨links, names, more⟩
  | up {links : Nat} {names more : List EntryName} {entries : List (EntryName × Entry)}
      (here : (Entry.directory fs.root).at? names = some (.directory entries)) :
      Moves fs follow ⟨links, names, [Path.dot, Path.dot] :: more⟩ ⟨links, names.dropLast, more⟩
  | enter {links : Nat} {names more : List EntryName} {name : EntryName} {e : Entry}
      (found : fs.Finds names name (some e)) (noLink : ∀ target, e ≠ .link target) :
      Moves fs follow ⟨links, names, name :: more⟩ ⟨links, names ++ [name], more⟩
  | redirect {links : Nat} {names more : List EntryName} {name : EntryName} {target : Path}
      (found : fs.Finds names name (some (.link target))) (goesOn : more ≠ [] ∨ follow = true) :
      Moves fs follow ⟨links + 1, names, name :: more⟩
        ⟨links, if target.isAbsolute then [] else names, steps target ++ more⟩

/-- A walk ends. -/
inductive Ends (fs : FileSystem) (follow : Bool) : Walk → Except FileError Place → Prop
  | nowhere {links : Nat} {names rest : List EntryName}
      (lost : (Entry.directory fs.root).at? names = none) :
      Ends fs follow ⟨links, names, rest⟩ (.error .notFound)
  | arrived {links : Nat} {names : List EntryName} {e : Entry}
      (here : (Entry.directory fs.root).at? names = some e) :
      Ends fs follow ⟨links, names, []⟩ (.ok ⟨names, some e⟩)
  | past {links : Nat} {names more : List EntryName} {name : EntryName} {e : Entry}
      (here : (Entry.directory fs.root).at? names = some e)
      (other : ∀ entries, e ≠ .directory entries) :
      Ends fs follow ⟨links, names, name :: more⟩ (.error .notADirectory)
  | absent {links : Nat} {names : List EntryName} {name : EntryName}
      (found : fs.Finds names name none) :
      Ends fs follow ⟨links, names, [name]⟩ (.ok ⟨names ++ [name], none⟩)
  | missing {links : Nat} {names more : List EntryName} {name : EntryName}
      (found : fs.Finds names name none) (goesOn : more ≠ []) :
      Ends fs follow ⟨links, names, name :: more⟩ (.error .notFound)
  | link {links : Nat} {names : List EntryName} {name : EntryName} {target : Path}
      (found : fs.Finds names name (some (.link target))) (stops : follow = false) :
      Ends fs follow ⟨links, names, [name]⟩ (.ok ⟨names ++ [name], some (.link target)⟩)
  | exhausted {names more : List EntryName} {name : EntryName} {target : Path}
      (found : fs.Finds names name (some (.link target))) (goesOn : more ≠ [] ∨ follow = true) :
      Ends fs follow ⟨0, names, name :: more⟩ (.error .tooManyLinks)

section Steps
variable {fs : FileSystem} {follow : Bool}

theorem Finds.at?_snoc {names : List EntryName} {name : EntryName} {found : Option Entry}
    (h : fs.Finds names name found) : (Entry.directory fs.root).at? (names ++ [name]) = found := by
  obtain ⟨entries, here, lookup⟩ := h.inside
  rw [Entry.at?_snoc here, lookup]

theorem isEmpty_and_not {more : List EntryName} (goesOn : more ≠ [] ∨ follow = true) :
    (more.isEmpty && !follow) = false := by
  rcases goesOn with more | follows
  · simp [more]
  · simp [follows]

theorem result_of_moves {w w' : Walk} (h : Moves fs follow w w') :
    w.result fs follow = w'.result fs follow := by
  unfold Walk.result
  cases h with
  | stay here =>
    rw [walk, here]
    exact if_pos rfl
  | up here =>
    rw [walk, here]
    rfl
  | enter found noLink =>
    obtain ⟨notDot, notDots, entries, here, lookup⟩ := found
    rw [walk, here]
    simp only [if_neg notDot, if_neg notDots, lookup]
  | redirect found goesOn =>
    obtain ⟨notDot, notDots, entries, here, lookup⟩ := found
    rw [walk, here]
    simp only [if_neg notDot, if_neg notDots, lookup, isEmpty_and_not goesOn, Bool.false_eq_true,
      if_false]

theorem result_of_ends {w : Walk} {r : Except FileError Place} (h : Ends fs follow w r) :
    w.result fs follow = r := by
  unfold Walk.result
  cases h with
  | nowhere lost => rw [walk, lost]
  | arrived here => rw [walk, here]
  | @past _ _ _ _ e here other =>
    rw [walk, here]
    cases e with
    | directory entries => exact absurd rfl (other entries)
    | file content => rfl
    | link target => rfl
  | absent found =>
    obtain ⟨notDot, notDots, entries, here, lookup⟩ := found
    rw [walk, here]
    simp only [if_neg notDot, if_neg notDots, lookup]
    rfl
  | missing found goesOn =>
    obtain ⟨notDot, notDots, entries, here, lookup⟩ := found
    rw [walk, here]
    simp only [if_neg notDot, if_neg notDots, lookup, List.isEmpty_iff, if_neg goesOn]
  | link found stops =>
    obtain ⟨notDot, notDots, entries, here, lookup⟩ := found
    rw [walk, here]
    simp only [if_neg notDot, if_neg notDots, lookup, stops]
    rfl
  | exhausted found goesOn =>
    obtain ⟨notDot, notDots, entries, here, lookup⟩ := found
    rw [walk, here]
    simp only [if_neg notDot, if_neg notDots, lookup, isEmpty_and_not goesOn, Bool.false_eq_true,
      if_false]

theorem ends_or_moves (w : Walk) :
    (∃ r, Ends fs follow w r) ∨ ∃ w', Moves fs follow w w' := by
  obtain ⟨links, names, rest⟩ := w
  cases here : (Entry.directory fs.root).at? names with
  | none => exact .inl ⟨_, .nowhere here⟩
  | some e =>
    cases rest with
    | nil => exact .inl ⟨_, .arrived here⟩
    | cons name more =>
      cases e with
      | file content => exact .inl ⟨_, .past here (by simp)⟩
      | link target => exact .inl ⟨_, .past here (by simp)⟩
      | directory entries =>
        by_cases dot : name = [Path.dot]
        · subst dot
          exact .inr ⟨_, .stay here⟩
        by_cases dots : name = [Path.dot, Path.dot]
        · subst dots
          exact .inr ⟨_, .up here⟩
        have found : fs.Finds names name (entries.lookup name) := ⟨dot, dots, entries, here, rfl⟩
        cases lookup : entries.lookup name with
        | none =>
          rw [lookup] at found
          by_cases last : more = []
          · subst last
            exact .inl ⟨_, .absent found⟩
          · exact .inl ⟨_, .missing found last⟩
        | some e =>
          rw [lookup] at found
          cases e with
          | directory inner => exact .inr ⟨_, .enter found (by simp)⟩
          | file content => exact .inr ⟨_, .enter found (by simp)⟩
          | link target =>
            by_cases goesOn : more ≠ [] ∨ follow = true
            · cases links with
              | zero => exact .inl ⟨_, .exhausted found goesOn⟩
              | succ links => exact .inr ⟨_, .redirect found goesOn⟩
            · obtain ⟨last, stops⟩ := not_or.mp goesOn
              obtain rfl := not_not.mp last
              exact .inl ⟨_, .link found (by simpa using stops)⟩

/-- What holds of walks at their end, and before a move if it holds after it, holds of every walk:
a move leaves fewer components or fewer links. -/
@[elab_as_elim]
theorem walk_induction (fs : FileSystem) (follow : Bool) {P : Walk → Prop}
    (ends : ∀ {w r}, Ends fs follow w r → P w)
    (moves : ∀ {w w'}, Moves fs follow w w' → P w' → P w) (w : Walk) : P w := by
  rcases ends_or_moves w with ⟨r, last⟩ | ⟨w', move⟩
  · exact ends last
  · exact moves move (walk_induction fs follow ends moves w')
termination_by (w.links, w.rest.length)
decreasing_by
  cases move with
  | stay => exact .right _ (Nat.lt_succ_self _)
  | up => exact .right _ (Nat.lt_succ_self _)
  | enter => exact .right _ (Nat.lt_succ_self _)
  | redirect => exact .left _ _ (Nat.lt_succ_self _)

/-- A walk that goes on goes on the same way if there is more after its path. -/
theorem Moves.append {w w' : Walk} (h : Moves fs true w w') {more : List EntryName}
    (ne : more ≠ []) (follow : Bool) : Moves fs follow (w.append more) (w'.append more) := by
  cases h with
  | stay here => exact .stay here
  | up here => exact .up here
  | enter found noLink => exact .enter found noLink
  | redirect found =>
    unfold Walk.append
    rw [List.cons_append, List.append_assoc]
    exact .redirect found (.inl (by simp [ne]))

/-- A walk that fails fails the same way if there is more after its path. -/
theorem Ends.append_error {w : Walk} {cause : FileError} (h : Ends fs true w (.error cause))
    {more : List EntryName} (ne : more ≠ []) (follow : Bool) :
    Ends fs follow (w.append more) (.error cause) := by
  cases h with
  | nowhere lost => exact .nowhere lost
  | past here other => exact .past here other
  | missing found goesOn => exact .missing found (by simp [goesOn])
  | exhausted found => exact .exhausted found (.inl (by simp [ne]))

end Steps

/-- A walk ends where its names lead. -/
theorem at?_of_result {fs : FileSystem} {follow : Bool} {w : Walk} {n : List EntryName} {e : Entry}
    (h : w.result fs follow = .ok ⟨n, some e⟩) : (Entry.directory fs.root).at? n = some e := by
  induction w using walk_induction fs follow with
  | ends last =>
    rw [result_of_ends last] at h
    cases last with
    | arrived here =>
      cases h
      exact here
    | link found =>
      cases h
      exact found.at?_snoc
    | nowhere | past | absent | missing | exhausted => cases h
  | moves move ih =>
    rw [result_of_moves move] at h
    exact ih h

/-- Following a link at the end makes a difference only if there is one. -/
theorem result_follow (fs : FileSystem) (w : Walk) :
    w.result fs true = w.result fs false ∨
      ∃ n target, w.result fs false = .ok ⟨n, some (.link target)⟩ := by
  induction w using walk_induction fs false with
  | ends last =>
    rw [result_of_ends last]
    cases last with
    | link => exact .inr ⟨_, _, rfl⟩
    | nowhere lost => exact .inl (result_of_ends (.nowhere lost))
    | arrived here => exact .inl (result_of_ends (.arrived here))
    | past here other => exact .inl (result_of_ends (.past here other))
    | absent found => exact .inl (result_of_ends (.absent found))
    | missing found goesOn => exact .inl (result_of_ends (.missing found goesOn))
    | exhausted found => exact .inl (result_of_ends (.exhausted found (.inr rfl)))
  | @moves w w' move ih =>
    have followed : Moves fs true w w' := by
      cases move with
      | stay here => exact .stay here
      | up here => exact .up here
      | enter found noLink => exact .enter found noLink
      | redirect found => exact .redirect found (.inr rfl)
    rwa [result_of_moves move, result_of_moves followed]

/-- A walk whose last component is a dot ends where it would end without it. -/
theorem result_append_dot {fs : FileSystem} {w : Walk} {place : Place}
    (h : (w.append [[Path.dot]]).result fs true = .ok place) : w.result fs true = .ok place := by
  induction w using walk_induction fs true with
  | @ends w r last =>
    cases r with
    | error cause => cases (result_of_ends (last.append_error (by simp) true)).symm.trans h
    | ok found =>
      rw [result_of_ends last, ← h]
      cases last with
      | @arrived _ _ e here =>
        cases e with
        | directory entries =>
          exact (result_of_ends (.arrived here)).symm.trans (result_of_moves (.stay here)).symm
        | file content => cases (result_of_ends (.past here (by simp))).symm.trans h
        | link target => cases (result_of_ends (.past here (by simp))).symm.trans h
      | absent found => cases (result_of_ends (.missing found (by simp))).symm.trans h
      | link _ stops => cases stops
  | moves move ih =>
    rw [result_of_moves (move.append (by simp) true)] at h
    rw [result_of_moves move]
    exact ih h

/-- A walk that goes on after a directory goes on where the directory is. -/
theorem result_append {fs : FileSystem} {w : Walk} {n : List EntryName}
    {entries : List (EntryName × Entry)}
    (h : w.result fs true = .ok ⟨n, some (.directory entries)⟩) :
    ∃ left, ∀ follow more, more ≠ [] →
      (w.append more).result fs follow = fs.walk follow left n more := by
  induction w using walk_induction fs true with
  | ends last =>
    rw [result_of_ends last] at h
    cases last with
    | @arrived links =>
      cases h
      exact ⟨links, fun _ _ _ => rfl⟩
    | link _ stops => cases stops
    | nowhere | past | absent | missing | exhausted => cases h
  | moves move ih =>
    rw [result_of_moves move] at h
    obtain ⟨left, goesOn⟩ := ih h
    refine ⟨left, fun follow more ne => ?_⟩
    rw [result_of_moves (move.append ne follow), goesOn follow more ne]

theorem finds_of_isName {fs : FileSystem} {names : List EntryName}
    {entries : List (EntryName × Entry)}
    (here : (Entry.directory fs.root).at? names = some (.directory entries)) {name : EntryName}
    (hn : Path.IsName name) {found : Option Entry} (lookup : entries.lookup name = found) :
    fs.Finds names name found :=
  ⟨hn.ne_dot, hn.ne_dots, entries, here, lookup⟩

/-- Without following it, a last name leads to what stands under it. -/
theorem walk_last {fs : FileSystem} {names : List EntryName}
    {entries : List (EntryName × Entry)}
    (here : (Entry.directory fs.root).at? names = some (.directory entries))
    {name : EntryName} (hn : Path.IsName name) (links : Nat) :
    fs.walk false links names [name] = .ok ⟨names ++ [name], entries.lookup name⟩ := by
  cases lookup : entries.lookup name with
  | none => exact result_of_ends (.absent (finds_of_isName here hn lookup))
  | some e =>
    have found := finds_of_isName here hn lookup
    by_cases link : ∃ target, e = .link target
    · obtain ⟨target, rfl⟩ := link
      exact result_of_ends (.link found rfl)
    · calc
        fs.walk false links names [name]
        _ = fs.walk false links (names ++ [name]) [] :=
          result_of_moves (.enter found (not_exists.mp link))
        _ = .ok ⟨names ++ [name], some e⟩ := result_of_ends (.arrived found.at?_snoc)

/-- Names of a tree that lead to a directory are gone down one by one. -/
theorem walk_down {fs : FileSystem} {names above : List EntryName}
    {entries inner : List (EntryName × Entry)}
    (here : (Entry.directory fs.root).at? names = some (.directory entries))
    (down : (Entry.directory entries).at? above = some (.directory inner))
    (hn : ∀ n ∈ above, Path.IsName n) (follow : Bool) (links : Nat) (more : List EntryName) :
    fs.walk follow links names (above ++ more) =
      fs.walk follow links (names ++ above) more := by
  induction above generalizing names entries with
  | nil => rw [List.nil_append, List.append_nil]
  | cons name above ih =>
    rw [List.forall_mem_cons] at hn
    rw [Entry.at?_cons, Option.bind_eq_some_iff] at down
    obtain ⟨e, he, down⟩ := down
    obtain ⟨next, rfl⟩ := Entry.exists_directory_of_at? down
    have found : fs.Finds names name (some (.directory next)) := finds_of_isName here hn.1 he
    calc
      fs.walk follow links names (name :: (above ++ more))
      _ = fs.walk follow links (names ++ [name]) (above ++ more) :=
        result_of_moves (.enter found (by simp))
      _ = fs.walk follow links (names ++ [name] ++ above) more := ih found.at?_snoc down hn.2
      _ = fs.walk follow links (names ++ name :: above) more := by
        rw [List.append_assoc, List.singleton_append]

/-! ### Resolving paths -/

theorem entryOf_eq_ok_iff {found : Except FileError Place} {e : Entry} :
    (do
      match (← found).entry with
      | some e => return e
      | none => throw .notFound : Except FileError Entry) = .ok e ↔
      ∃ n, found = .ok ⟨n, some e⟩ := by
  cases found with
  | error => simp [bind, Except.bind]
  | ok place =>
    obtain ⟨n, _ | e'⟩ := place
    · simp [bind, Except.bind]
    · simp [bind, Except.bind, pure, Except.pure]

theorem entry_eq_ok_iff {fs : FileSystem} {p : Path} {e : Entry} :
    fs.entry p = .ok e ↔ ∃ n, fs.resolve true p = .ok ⟨n, some e⟩ :=
  entryOf_eq_ok_iff

theorem linkEntry_eq_ok_iff {fs : FileSystem} {p : Path} {e : Entry} :
    fs.linkEntry p = .ok e ↔ ∃ n, fs.resolve false p = .ok ⟨n, some e⟩ :=
  entryOf_eq_ok_iff

theorem at?_of_resolve {fs : FileSystem} {follow : Bool} {p : Path} {n : List EntryName}
    {e : Entry} (h : fs.resolve follow p = .ok ⟨n, some e⟩) :
    (Entry.directory fs.root).at? n = some e := by
  unfold resolve at h
  split at h
  · cases h
  · exact at?_of_result (w := ⟨linkLimit, fs.origin p, steps p⟩) h

/-- Following links to the end makes a difference only where there is a link. -/
theorem entry_eq_linkEntry (fs : FileSystem) (p : Path) :
    fs.entry p = fs.linkEntry p ∨ ∃ target, fs.linkEntry p = .ok (.link target) := by
  have h : fs.resolve true p = fs.resolve false p ∨
      ∃ n target, fs.resolve false p = .ok ⟨n, some (.link target)⟩ := by
    unfold resolve
    split
    · exact .inl rfl
    · exact result_follow fs ⟨linkLimit, fs.origin p, steps p⟩
  rcases h with h | ⟨n, target, h⟩
  · exact .inl (by rw [entry, linkEntry, h])
  · exact .inr ⟨target, linkEntry_eq_ok_iff.mpr ⟨n, h⟩⟩

theorem origin_below {root : Path} (h : root.bytes ≠ []) (fs : FileSystem)
    (names : List EntryName) : fs.origin (root.below names) = fs.origin root := by
  obtain ⟨after, hb⟩ := root.exists_below names
  unfold origin Path.isAbsolute
  rw [hb, List.head?_append_of_ne_nil _ h]

/-- A path that goes on below a directory is resolved where the directory is. -/
theorem resolve_below {fs : FileSystem} {root : Path} {n : List EntryName}
    {entries : List (EntryName × Entry)}
    (h : fs.resolve true root = .ok ⟨n, some (.directory entries)⟩) :
    ∃ left, ∀ follow names, names ≠ [] → (∀ name ∈ names, Path.IsName name) →
      fs.resolve follow (root.below names) = fs.walk follow left n names := by
  unfold resolve at h
  split at h
  case isTrue => cases h
  case isFalse hroot =>
    rw [List.isEmpty_iff] at hroot
    have h : Walk.result fs true ⟨linkLimit, fs.origin root, root.parts⟩ =
        .ok ⟨n, some (.directory entries)⟩ := by
      rcases root.steps_eq with hs | hs
      · rwa [hs] at h
      · rw [hs] at h
        exact result_append_dot h
    obtain ⟨left, goesOn⟩ := result_append h
    refine ⟨left, fun follow names hne hn => ?_⟩
    have hb : (root.below names).bytes.isEmpty ≠ true := by
      obtain ⟨after, hb⟩ := root.exists_below names
      simp [hb, hroot]
    rw [resolve, if_neg hb, origin_below hroot, Path.steps_below root hn hne]
    exact goesOn follow names hne

section Below
variable {fs : FileSystem} {root : Path} {entries : List (EntryName × Entry)}
  (hroot : fs.entry root = .ok (.directory entries))
include hroot

/-- In a directory below a root, an entry is found at its path. -/
theorem linkEntry_below {above : List EntryName} {name : EntryName}
    (hn : ∀ n ∈ above ++ [name], Path.IsName n) {inner : List (EntryName × Entry)}
    (down : (Entry.directory entries).at? above = some (.directory inner)) (e : Entry) :
    fs.linkEntry (root.below (above ++ [name])) = .ok e ↔ inner.lookup name = some e := by
  obtain ⟨n, h⟩ := entry_eq_ok_iff.mp hroot
  obtain ⟨left, resolves⟩ := resolve_below h
  have here := at?_of_resolve h
  have there : (Entry.directory fs.root).at? (n ++ above) = some (.directory inner) := by
    rw [Entry.at?_append, here]
    exact down
  obtain ⟨habove, hname⟩ := List.forall_mem_append.mp hn
  rw [linkEntry_eq_ok_iff, resolves false _ (by simp) hn, walk_down here down habove,
    walk_last there (hname name (by simp))]
  simp

theorem linkEntry_of_at? {names : List EntryName} (hn : ∀ n ∈ names, Path.IsName n)
    (hne : names ≠ []) {e : Entry} (h : (Entry.directory entries).at? names = some e) :
    fs.linkEntry (root.below names) = .ok e := by
  obtain ⟨above, name, rfl⟩ := (List.eq_nil_or_concat names).resolve_left hne
  rw [List.concat_eq_append] at *
  obtain ⟨d, down, hd⟩ := Option.bind_eq_some_iff.mp ((Entry.at?_append ..).symm.trans h)
  obtain ⟨inner, rfl⟩ := Entry.exists_directory hd (List.cons_ne_nil _ _)
  rw [linkEntry_below hroot hn down, ← Entry.at?_snoc down, h]

theorem entry_of_at? {names : List EntryName} (hn : ∀ n ∈ names, Path.IsName n)
    (hne : names ≠ []) {e : Entry} (h : (Entry.directory entries).at? names = some e)
    (noLink : ∀ target, e ≠ .link target) : fs.entry (root.below names) = .ok e := by
  have found := linkEntry_of_at? hroot hn hne h
  rcases fs.entry_eq_linkEntry (root.below names) with same | ⟨target, link⟩
  · rw [same, found]
  · cases found.symm.trans link
    exact absurd rfl (noLink target)

/-- **The names that lead to an entry of a directory are those of a path at which it is found,
with directories and no links on the way.** -/
theorem at?_eq_some_iff {names : List EntryName} (hn : ∀ n ∈ names, Path.IsName n)
    (hne : names ≠ []) (e : Entry) :
    (Entry.directory entries).at? names = some e ↔
      fs.linkEntry (root.below names) = .ok e ∧
        ∀ above, above ≠ [] → above <+: names → above ≠ names →
          ∃ inner, fs.linkEntry (root.below above) = .ok (.directory inner) := by
  constructor
  · intro h
    refine ⟨linkEntry_of_at? hroot hn hne h, ?_⟩
    rintro above habove ⟨rest, rfl⟩ hrest
    obtain ⟨d, down, hd⟩ := Option.bind_eq_some_iff.mp ((Entry.at?_append ..).symm.trans h)
    obtain ⟨inner, rfl⟩ := Entry.exists_directory hd (by simpa using hrest)
    exact ⟨inner, linkEntry_of_at? hroot (List.forall_mem_append.mp hn).1 habove down⟩
  · rintro ⟨hfound, hdirs⟩
    -- The directories on the way are found one after the other.
    have down (above : List EntryName) (hp : above <+: names) (hlt : above ≠ names) :
        ∃ inner, (Entry.directory entries).at? above = some (.directory inner) := by
      induction above using List.reverseRecOn with
      | nil => exact ⟨entries, rfl⟩
      | append_singleton above name ih =>
        have shorter : above ≠ names := by
          rintro rfl
          exact absurd hp.length_le (by simp)
        obtain ⟨inner, down⟩ := ih ((List.prefix_append _ _).trans hp) shorter
        obtain ⟨inner', hf⟩ := hdirs _ (by simp) hp hlt
        have hl := (linkEntry_below hroot (fun n h => hn n (hp.subset h)) down _).mp hf
        exact ⟨inner', (Entry.at?_snoc down name).trans hl⟩
    obtain ⟨above, name, rfl⟩ := (List.eq_nil_or_concat names).resolve_left hne
    rw [List.concat_eq_append] at *
    obtain ⟨inner, down⟩ := down above (List.prefix_append _ _) (by simp)
    rw [Entry.at?_snoc down, ← linkEntry_below hroot hn down]
    exact hfound

end Below

theorem exists?_of_readText {fs : FileSystem} {p : Path} {text : List Char}
    (h : fs.readText p = .ok text) : fs.exists? p = true := by
  unfold exists?
  cases found : fs.entry p with
  | error cause =>
    rw [readText, read, found] at h
    cases h
  | ok e => rfl

/-! ### The root directory -/

theorem entry_slash (fs : FileSystem) :
    fs.entry ⟨[Path.slash]⟩ = .ok (.directory fs.root) := by
  refine entry_eq_ok_iff.mpr ⟨[], ?_⟩
  calc
    fs.resolve true ⟨[Path.slash]⟩
    _ = fs.walk true linkLimit [] [[Path.dot]] := rfl
    _ = fs.walk true linkLimit [] [] := result_of_moves (.stay rfl)
    _ = .ok ⟨[], some (.directory fs.root)⟩ := result_of_ends (.arrived rfl)

/-- A machine with one file, which is in its root directory. -/
def single (name : EntryName) (content : List UInt8) : FileSystem :=
  ⟨[(name, .file content)], []⟩

theorem entry_single {name : EntryName} (h : Path.IsName name) (content : List UInt8) :
    (single name content).entry ⟨Path.slash :: name⟩ = .ok (.file content) := by
  have found : (Entry.directory (single name content).root).at? [name] = some (.file content) := by
    rw [Entry.at?_cons, single, List.lookup_cons_self]
    rfl
  exact entry_of_at? (entry_slash _) (by simpa using h) (by simp) found (by simp)

theorem read_single {name : EntryName} (h : Path.IsName name) (content : List UInt8) :
    (single name content).read ⟨Path.slash :: name⟩ = .ok content := by
  rw [read, entry_single h]
  rfl

theorem readText_single {name : EntryName} (h : Path.IsName name) {content : List UInt8}
    {text : List Char} (decoded : Text.Utf8.decode? content = some text) :
    (single name content).readText ⟨Path.slash :: name⟩ = .ok text := by
  have after (f : List UInt8 → Except FileError (List Char)) :
      ((Except.ok content : Except FileError (List UInt8)) >>= f) = f content := rfl
  rw [readText, read_single h, after, decoded]
  rfl

end FileSystem
end SourceAudit
