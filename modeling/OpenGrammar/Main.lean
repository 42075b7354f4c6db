import OpenGrammar.CommandLine.Report
import OpenGrammar.Regex.Parser

/-! The program: what a command line deals with is taken from the disk, the command is
run on it, and what has changed is put back. -/
namespace OpenGrammar
namespace Disk

def node? (path : String) : IO (Option FileNode) := do
  try
    return some (.file (← IO.FS.readBinFile path).toList)
  catch _ =>
    try
      discard (← IO.FS.realPath path).readDir
      return some .directory
    catch _ => return none

def takePath (files : FileTree) (path : Text) : IO FileTree := do
  let mut files := files
  for lead in Path.leads path do
    if let .ok place := files.locate lead then
      if let some node ← node? (String.ofList lead) then
        unless place.isEmpty do files := files.set place node
  return files

/-- Takes in a path with all that is below it. -/
partial def takeTree (files : FileTree) (path : Text) : IO FileTree := do
  let mut files ← takePath files path
  if files.isDirectory path then
    for entry in ← (← IO.FS.realPath (String.ofList path)).readDir do
      files ← takeTree files (Path.join path entry.fileName.toList)
  return files

def take (invocation : Invocation) : IO FileTree := do
  let home := (toString (← IO.currentDir)).toList
  let mut files ← takePath { home := (home.splitOn '/').filter (!·.isEmpty) } home
  for path in invocation.sources do files ← takeTree files path
  for path in invocation.targets files do files ← takePath files path
  return files

/-- Puts back what is new or has changed. A file is written beside its place first. -/
def putBack (before after : FileTree) : IO Unit := do
  for (place, node) in after.entries.reverse do
    unless before.node? place == some node do
      let path := String.ofList (place.flatMap ('/' :: ·))
      match node with
      | .directory => IO.FS.createDir path
      | .file bytes =>
        IO.FS.writeBinFile (path ++ ".part") ⟨bytes.toArray⟩
        IO.FS.rename (path ++ ".part") path

end Disk

/-- Warnings are always shown, the other notes on demand. -/
def Note.print (verbosity : Nat) (note : Note) : IO Unit :=
  match note.level with
  | .warn => IO.eprintln ("warning: " ++ String.ofList note.message)
  | .debug =>
    if 2 ≤ verbosity then IO.eprintln ("debug: " ++ String.ofList note.message) else pure ()

def Invocation.run (invocation : Invocation) (args : List Text) : IO Report := do
  let files ← Disk.take invocation
  let (report, work) := (Invocation.report args).run { files }
  Disk.putBack files work.files
  for note in work.notes do note.print invocation.verbosity
  return report

end OpenGrammar

open OpenGrammar in
def main (args : List String) : IO UInt32 := do
  let args := args.map String.toList
  let report ← match Invocation.parse args with
    | .error stop => pure stop.report
    | .ok invocation => invocation.run args
  (← IO.getStdout).putStr (String.ofList report.stdout)
  (← IO.getStderr).putStr (String.ofList report.stderr)
  return report.exit.toUInt32
