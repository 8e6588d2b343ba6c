import SourceAudit.Language
import SourceAudit.Severity

/-! The settings of a scan. -/
namespace SourceAudit

/-- What a scan is asked to do; settings that are not given take their defaults. -/
structure Settings where
  /-- The languages to look at; an empty list stands for all of them. -/
  languages : Option (List Language) := none
  /-- The names of directories that are left out with all that is in them. -/
  excludeDirs : Option (List String) := none
  /-- The number of workers; zero lets the scan choose. -/
  concurrency : Option Nat := none
  /-- Findings below this severity are left out. -/
  leastSeverity : Option Severity := none
  deriving DecidableEq, Inhabited

/-- The settings with every default applied. -/
structure Settings.Resolved where
  languages : List Language
  exclude : List String
  workers : Nat
  least : Severity
  deriving DecidableEq, Inhabited

namespace Settings

/-- The directories that are left out unless others are named. -/
def defaultExcluded : List String := ["node_modules", "vendor", ".git", "dist", "build"]

/-- The languages to look at. -/
def chosenLanguages (s : Settings) : List Language :=
  match s.languages with
  | some (l :: ls) => l :: ls
  | _ => Language.all

/-- The number of workers: at least one, and at least two where the scan chooses. -/
def workers (s : Settings) (processors : Nat) : Nat :=
  match s.concurrency with
  | some (n + 1) => n + 1
  | _ => max processors 2

/-- The settings on a machine with some number of processors. -/
def resolve (s : Settings) (processors : Nat) : Resolved :=
  { languages := s.chosenLanguages
    exclude := s.excludeDirs.getD defaultExcluded
    workers := s.workers processors
    least := s.leastSeverity.getD .info }

/-- The settings with those that `stronger` gives in their place. -/
def override (s stronger : Settings) : Settings :=
  { languages := stronger.languages.or s.languages
    excludeDirs := stronger.excludeDirs.or s.excludeDirs
    concurrency := stronger.concurrency.or s.concurrency
    leastSeverity := stronger.leastSeverity.or s.leastSeverity }

end Settings
end SourceAudit
