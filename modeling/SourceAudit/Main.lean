import SourceAudit.Command
import SourceAudit.Report.Stamp
import Std.Time.DateTime.Timestamp

/-! The command line.

The paths of the files and directories that a command may look at are read from standard
input, one a line, in the form in which a listing of the working directory gives them. -/
namespace SourceAudit.Main

/-- The entry at a path: what cannot be read as a file is taken for a directory. -/
def loadEntry (path : String) : IO Entry := do
  try
    return .file (← IO.FS.readBinFile path).toList
  catch _ => return .directory []

/-- Adds the listed entries to a file system. -/
partial def loadEntries (input : IO.FS.Stream) (fs : FileSystem) : IO FileSystem := do
  let line ← input.getLine
  if line.isEmpty then return fs
  let path := String.ofList (line.toList.filter (· ≠ '\n'))
  if path.isEmpty then loadEntries input fs
  else loadEntries input (fs.install (Path.ofString path) (← loadEntry path))

/-- The file system before any entry is listed: the working directory alone. -/
def emptyAt (workingDirectory : Path) : FileSystem :=
  let fs : FileSystem := { root := [], workingDirectory := [] }
  { fs.makeDirectories workingDirectory with
    workingDirectory := FileSystem.steps workingDirectory }

/-- What the command runs in. -/
def host : IO Scan.Host := do
  let start := emptyAt (Path.ofString ((← IO.getEnv "PWD").getD "/"))
  let now ← Std.Time.Timestamp.now
  let bytes ← IO.getRandomBytes 16
  return { fs := ← loadEntries (← IO.getStdin) start
           processors := 2
           stamp := Stamp.of bytes.toList now.toSecondsSinceUnixEpoch.val.toNat }

/-- Writes the file that a command has written. -/
def store (outcome : Command.Outcome) : IO Unit := do
  if let some path := outcome.written then
    if let .ok content := outcome.fs.read path then
      IO.FS.writeBinFile path.display ⟨content.toArray⟩

end SourceAudit.Main

/-- Runs the command that the arguments ask for. -/
def main (arguments : List String) : IO UInt32 := do
  let concurrency ← IO.getEnv SourceAudit.Command.concurrencyVariable
  let environment (name : String) : Option String :=
    if name = SourceAudit.Command.concurrencyVariable then concurrency else none
  let outcome := SourceAudit.Command.run (← SourceAudit.Main.host) environment arguments
  for line in outcome.messages do
    IO.eprintln line
  IO.print outcome.output
  SourceAudit.Main.store outcome
  return UInt32.ofNat outcome.exitCode
