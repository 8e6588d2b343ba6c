import SourceAudit.Path

/-! File systems.

A file system is a tree of directories, files and symbolic links with a working directory.
Paths are resolved as the operating system does: component by component, going on with the
target of a link, at most forty times. -/
namespace SourceAudit

/-- The name of an entry of a directory. -/
abbrev EntryName := List UInt8

/-- What a name in a directory stands for. -/
inductive Entry where
  | directory (entries : List (EntryName × Entry))
  | file (content : List UInt8)
  | link (target : Path)
  deriving Inhabited

/-- Why an operation on a file fails. -/
inductive FileError where
  | notFound
  | notADirectory
  | isADirectory
  | tooManyLinks
  /-- The content is not text. -/
  | invalidUtf8
  deriving DecidableEq, Inhabited

/-- What the operating system says about a failure. -/
def FileError.message : FileError → String
  | .notFound => "No such file or directory (os error 2)"
  | .notADirectory => "Not a directory (os error 20)"
  | .isADirectory => "Is a directory (os error 21)"
  | .tooManyLinks => "Too many levels of symbolic links (os error 40)"
  | .invalidUtf8 => "stream did not contain valid UTF-8"

/-- A tree of entries with a working directory. -/
structure FileSystem where
  root : List (EntryName × Entry)
  /-- The names that lead from the root to the working directory. -/
  workingDirectory : List EntryName
  deriving Inhabited

namespace Entry

/-- The entry that names lead to, without following links. -/
def at? : List EntryName → Entry → Option Entry
  | [], e => some e
  | name :: names, .directory entries =>
    match entries.lookup name with
    | some e => at? names e
    | none => none
  | _ :: _, _ => none

/-- Puts an entry under a name, in place of the one that has it. -/
def put (name : EntryName) (e : Entry) :
    List (EntryName × Entry) → List (EntryName × Entry)
  | [] => [(name, e)]
  | (n, f) :: rest => if n = name then (n, e) :: rest else (n, f) :: put name e rest

/-- Changes the entries of the directory that names lead to. -/
def update (change : List (EntryName × Entry) → List (EntryName × Entry)) :
    List EntryName → List (EntryName × Entry) → List (EntryName × Entry)
  | [], entries => change entries
  | name :: names, entries =>
    match entries.lookup name with
    | some (.directory inner) => put name (.directory (update change names inner)) entries
    | _ => entries

end Entry

namespace FileSystem

/-- The most links that are followed on the way to one entry. -/
def linkLimit : Nat := 40

/-- The components of a path as the operating system goes through them: a slash at the end
asks for a directory, as a single dot does. -/
def steps (p : Path) : List EntryName :=
  let parts := (p.bytes.splitOn Path.slash).filter (· ≠ [])
  if p.bytes.getLast? = some Path.slash then parts ++ [[Path.dot]] else parts

/-- Where resolving a path ends: the names that lead there, and what is there. -/
structure Place where
  names : List EntryName
  entry : Option Entry

/-- Resolves components from a place on. `follow` tells whether a link at the end is followed,
and `links` how many more may be. A missing entry is an error unless it is the last one. -/
def walk (fs : FileSystem) (follow : Bool) (links : Nat) (names : List EntryName)
    (rest : List EntryName) : Except FileError Place :=
  match (Entry.directory fs.root).at? names with
  | none => .error .notFound
  | some e =>
    match rest with
    | [] => .ok ⟨names, some e⟩
    | name :: more =>
      match e with
      | .directory entries =>
        if name = [Path.dot] then fs.walk follow links names more
        else if name = [Path.dot, Path.dot] then fs.walk follow links names.dropLast more
        else
          match entries.lookup name with
          | none => if more.isEmpty then .ok ⟨names ++ [name], none⟩ else .error .notFound
          | some (.link target) =>
            if more.isEmpty && !follow then .ok ⟨names ++ [name], some (.link target)⟩
            else
              match links with
              | 0 => .error .tooManyLinks
              | links + 1 =>
                let start := if target.isAbsolute then [] else names
                fs.walk follow links start (steps target ++ more)
          | some _ => fs.walk follow links (names ++ [name]) more
      | _ => .error .notADirectory
termination_by (links, rest.length)

/-- Where the components of a path are resolved from. -/
def origin (fs : FileSystem) (p : Path) : List EntryName :=
  if p.isAbsolute then [] else fs.workingDirectory

/-- Resolves a path. -/
def resolve (fs : FileSystem) (follow : Bool) (p : Path) : Except FileError Place :=
  if p.bytes.isEmpty then .error .notFound
  else fs.walk follow linkLimit (fs.origin p) (steps p)

/-- The entry at a path with its links followed. -/
def entry (fs : FileSystem) (p : Path) : Except FileError Entry := do
  match (← fs.resolve true p).entry with
  | some e => return e
  | none => throw .notFound

/-- The entry at a path itself, even if it is a link. -/
def linkEntry (fs : FileSystem) (p : Path) : Except FileError Entry := do
  match (← fs.resolve false p).entry with
  | some e => return e
  | none => throw .notFound

/-- Whether there is something at a path. -/
def exists? (fs : FileSystem) (p : Path) : Bool := (fs.entry p).isOk

/-- The content of a file. -/
def read (fs : FileSystem) (p : Path) : Except FileError (List UInt8) := do
  match ← fs.entry p with
  | .file content => return content
  | _ => throw .isADirectory

/-- The content of a file as text. -/
def readText (fs : FileSystem) (p : Path) : Except FileError (List Char) := do
  match Text.Utf8.decode? (← fs.read p) with
  | some text => return text
  | none => throw .invalidUtf8

/-- The names that lead from the root to an entry, all links on the way resolved. -/
def canonical? (fs : FileSystem) (p : Path) : Option (List EntryName) :=
  match fs.resolve true p with
  | .ok ⟨names, some _⟩ => some names
  | _ => none

/-- Puts an entry at a place whose directory is there. -/
def place (fs : FileSystem) (names : List EntryName) (e : Entry) : FileSystem :=
  match names.getLast? with
  | some name => { fs with root := Entry.update (Entry.put name e) names.dropLast fs.root }
  | none => fs

/-- Writes a file, in place of the one that is there. A path that ends in a slash cannot name
a file, but what stands before its last component has to be a directory all the same. -/
def write (fs : FileSystem) (p : Path) (content : List UInt8) : Except FileError FileSystem := do
  if p.bytes.getLast? = some Path.slash then
    let parent := (steps p).dropLast.dropLast ++ [[Path.dot]]
    let _ ← fs.walk true linkLimit (fs.origin p) parent
    throw .isADirectory
  else
    let found ← fs.resolve true p
    match found.entry with
    | some (.directory _) => throw .isADirectory
    | _ => return fs.place found.names (.file content)

/-- Removes the entry at a path with all that is in it; a link is removed itself. -/
def remove (fs : FileSystem) (p : Path) : Except FileError FileSystem := do
  let found ← fs.resolve false p
  match found.entry, found.names.getLast? with
  | some _, some name =>
    let drop (entries : List (EntryName × Entry)) := entries.filter (·.1 ≠ name)
    return { fs with root := Entry.update drop found.names.dropLast fs.root }
  | _, _ => throw .notFound

/-- Makes the directories of some components that are missing, from a place on. -/
def makeFrom (fs : FileSystem) (start : List EntryName) : List EntryName → FileSystem
  | [] => fs
  | name :: names =>
    match fs.walk true linkLimit start [name] with
    | .ok ⟨here, some _⟩ => fs.makeFrom here names
    | .ok ⟨here, none⟩ => (fs.place here (.directory [])).makeFrom here names
    | .error _ => fs

/-- Makes the directories of a path that are missing. -/
def makeDirectories (fs : FileSystem) (p : Path) : FileSystem :=
  fs.makeFrom (fs.origin p) (steps p)

/-- The path of the directory that an entry is in. -/
def parentPath (p : Path) : Path :=
  ⟨(p.bytes.reverse.dropWhile (· ≠ Path.slash)).reverse⟩

/-- Writes an entry, making the directories that are missing. A file is written through a
link. -/
def install (fs : FileSystem) (p : Path) (e : Entry) : FileSystem :=
  match e with
  | .directory _ => fs.makeDirectories p
  | .file content =>
    let fs := fs.makeDirectories (parentPath p)
    match fs.write p content with
    | .ok next => next
    | .error _ => fs
  | .link target =>
    let fs := fs.makeDirectories (parentPath p)
    match fs.resolve false p with
    | .ok found => fs.place found.names (.link target)
    | .error _ => fs

end FileSystem
end SourceAudit
