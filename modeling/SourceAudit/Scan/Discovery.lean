import SourceAudit.FileSystem
import SourceAudit.Settings

/-! Finding the files to scan.

All directories below a root are entered, except those whose names are excluded; the root
itself is always entered. Links are never followed below the root. -/
namespace SourceAudit.Scan

/-- A file to scan, with the language it is taken for. -/
structure Job where
  path : Path
  language : Language
  deriving DecidableEq, Inhabited

/-- The job that a file is, if it is written in one of the languages. -/
def jobOf? (languages : List Language) (p : Path) : Option Job :=
  match Language.ofPath? p with
  | some l => if languages.contains l then some ⟨p, l⟩ else none
  | none => none

/-- Whether a directory of this name is left out. -/
def isExcluded (exclude : List String) (name : EntryName) : Bool :=
  exclude.contains (String.ofList (Text.Utf8.decodeLossy name))

mutual
/-- The jobs at an entry that is not left out. -/
def jobsAt (languages : List Language) (exclude : List String) (p : Path) : Entry → List Job
  | .directory entries => jobsIn languages exclude p entries
  | .file _ => (jobOf? languages p).toList
  | .link _ => []
termination_by structural e => e

/-- The jobs at the entries of a directory. -/
def jobsIn (languages : List Language) (exclude : List String) (p : Path) :
    List (EntryName × Entry) → List Job
  | [] => []
  | (name, .directory entries) :: rest =>
    (if isExcluded exclude name then []
      else jobsAt languages exclude (p.join name) (.directory entries)) ++
      jobsIn languages exclude p rest
  | (name, e) :: rest =>
    jobsAt languages exclude (p.join name) e ++ jobsIn languages exclude p rest
termination_by structural entries => entries
end

/-- The entry that a root stands for: a link to a directory is followed. -/
def rootEntry (fs : FileSystem) (root : Path) : Except FileError Entry := do
  match ← fs.linkEntry root with
  | .link target =>
    match ← fs.entry root with
    | .directory entries => return .directory entries
    | _ => return .link target
  | e => return e

/-- The files to scan below a root. -/
def discover (fs : FileSystem) (root : Path) (languages : List Language)
    (exclude : List String) : List Job :=
  match rootEntry fs root with
  | .ok e => jobsAt languages exclude root e
  | .error _ => []

end SourceAudit.Scan
