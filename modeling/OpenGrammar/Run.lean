import OpenGrammar.Artifact
import OpenGrammar.Composition
import OpenGrammar.Discovery

/-! Jobs at work on files: a grammar file is read and composed, and what is composed from
it is written. -/
namespace OpenGrammar

variable [PatternEngine]

structure Run where
  layout : Layout
  /-- The composed grammar, then the dispatch module. -/
  written : List OutputFile

def Layout.compose (config : Config) (layout : Layout) : Session Composition := do
  let text ← Session.readText layout.input
  let source ← Session.ofExcept (Source.scan text (some layout.input))
  Session.leave (source.notes ++ Composition.notesOfSource config layout.names source)
  Session.ofExcept (Composition.ofSource config layout.names source)

def Layout.artifacts (layout : Layout) (composed : Composition) : List Artifact :=
  [⟨layout.grammarPath, composed.grammarText⟩, ⟨layout.modulePath, composed.moduleSource⟩]

namespace Job

def layout (config : Config) (job : Job) : Except Error Layout :=
  Layout.resolve config job.input job.root job.outputDir

def run (config : Config) (job : Job) : Session Run := do
  let layout ← Session.ofExcept (job.layout config)
  let composed ← layout.compose config
  return ⟨layout, ← Artifact.writeAll config.skipUnchanged (layout.artifacts composed)⟩

/-- Runs jobs one after the other, whatever becomes of each. -/
def runAll (config : Config) (jobs : List Job) : StateM Workspace (List (Except Error Run)) :=
  jobs.mapM fun job => (job.run config).run

end Job

def GrammarFile.buildAll (config : Config) (root buildDir : Text) :
    Session (List (GrammarFile × Except Error Run)) := do
  let files ← discover root
  let results ← (Job.runAll config (files.map (·.job root buildDir)) : StateM Workspace _)
  return files.zip results

end OpenGrammar
