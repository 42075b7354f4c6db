import OpenGrammar.CommandLine.Arguments
import OpenGrammar.Run

/-! What a command does and reports, and the files it deals with. -/
namespace OpenGrammar

variable [PatternEngine]

structure Report where
  exit : Nat := 0
  stdout : Text := []
  stderr : Text := []
  deriving DecidableEq, Repr

def Report.line (parts : List Text) : Text := parts.flatten ++ ['\n']

namespace Stop

def usageText : Text :=
  ("Usage: bnf-composer [--config FILE] [-v] TASK\n" ++
    "  compose GRAMMAR --root DIR --out DIR\n" ++
    "  build --root DIR --build-dir DIR\n" ++
    "  print GRAMMAR --root DIR [--module]\n").toList

def report : Stop → Report
  | .help => { stdout := usageText }
  | .version => { stdout := "bnf-composer 0.1.0\n".toList }
  | .usage => { exit := 2, stderr := usageText }

end Stop

namespace Command

def buildLine (file : GrammarFile) : Except Error Run → Report
  | .ok run =>
    { stdout := run.written.head?.elim [] fun out =>
        Report.line [file.taskName, ": ".toList, out.path, " (".toList, out.status.text, [')']] }
  | .error e => { exit := 1, stderr := Report.line [file.taskName, ": ".toList, e.message] }

def buildReport (buildDir : Text) (results : List (GrammarFile × Except Error Run)) : Report :=
  let lines := results.map fun (file, result) => buildLine file result
  let failed := lines.countP (·.exit != 0)
  { exit := if failed = 0 then 0 else 1
    stdout := lines.flatMap Report.stdout
    stderr := lines.flatMap Report.stderr ++
      if failed = 0 then []
      else
        Report.line [Text.decimal failed, " of ".toList, Text.decimal results.length,
          " grammars failed (outputs in ".toList, GrammarFile.outputsRoot buildDir, [')']] }

def execute (config : Config) : Command → Session Report
  | .compose grammar root out => do
    let run ← Job.run config ⟨grammar, root, out⟩
    return { stdout := run.written.flatMap fun file => Report.line [file.path] }
  | .build root buildDir => do
    let results ← GrammarFile.buildAll config root buildDir
    if results.isEmpty then
      return { stderr := Report.line ["no grammars found below ".toList, root] }
    else return buildReport buildDir results
  | .print grammar root showModule => do
    let layout ← Session.ofExcept (Layout.resolve config grammar root ['.'])
    let composed ← layout.compose config
    return { stdout := if showModule then composed.moduleSource else composed.grammarText }

end Command

def Config.load (path : Text) : Session Config := do
  let text ← Session.readText path
  match Config.parse? text with
  | some config => return config
  | none => throw (.config path)

namespace Invocation

def settings (invocation : Invocation) : Session Config :=
  match invocation.config with
  | some path => Config.load path
  | none => pure {}

def execute (invocation : Invocation) : Session Report := do
  invocation.command.execute (← invocation.settings)

def report (args : List Text) : StateM Workspace Report :=
  match parse args with
  | .error stop => pure stop.report
  | .ok invocation => do
    match ← invocation.execute.run with
    | .ok report => return report
    | .error e => return { exit := 1, stderr := Report.line ["Error: ".toList, e.message] }

/-! The files of a command line -/

def sources (invocation : Invocation) : List Text :=
  invocation.config.toList ++
    match invocation.command with
    | .compose grammar _ _ | .print grammar _ _ => [grammar]
    | .build root _ => [root]

def jobs (files : FileTree) : Command → List Job
  | .compose grammar root out => [⟨grammar, root, out⟩]
  | .build root buildDir =>
    match Session.resultOn files (GrammarFile.discover root) with
    | .ok found => found.map (·.job root buildDir)
    | .error _ => []
  | .print _ _ _ => []

/-- The paths that may be written; this depends on what is read. -/
def targets (invocation : Invocation) (files : FileTree) : List Text :=
  match Session.resultOn files invocation.settings with
  | .error _ => []
  | .ok config =>
    (jobs files invocation.command).flatMap fun job =>
      match job.layout config with
      | .ok layout => [layout.grammarPath, layout.modulePath]
      | .error _ => []

end Invocation
end OpenGrammar
