import OpenGrammar.Layout

/-! Composition jobs, and the jobs that follow from grammar files below a source root. -/
namespace OpenGrammar

/-- A grammar file to compose, its source root, and the directory for its output. -/
structure Job where
  input : Text
  root : Text
  outputDir : Text
  deriving DecidableEq, Repr

/-- A grammar file below a source root, with the name of the task that composes it. -/
structure GrammarFile where
  path : Text
  taskName : Text
  deriving DecidableEq, Repr

namespace GrammarFile

/-- The step of a file without its extension. A name of which nothing but a dot would be
left becomes the step to the parent. -/
def withoutExtension : Component → Text
  | .normal name => if Path.stemOf name = ['.'] then ['.', '.'] else Path.stemOf name
  | step => step.text

def taskSegments : List Component → List Text
  | [] => []
  | [step] => [withoutExtension step]
  | step :: steps => step.text :: taskSegments steps

def ofPath (path root : Text) : Except Error GrammarFile :=
  match Path.below? root path with
  | none => .error (.layout (.notBelowRoot path root))
  | some [] => .error (.layout (.noGrammarFile path))
  | some steps => .ok ⟨path, Text.join ['_'] (taskSegments steps)⟩

def outputsRoot (buildDir : Text) : Text := Path.join buildDir "grammars".toList

def outputDir (file : GrammarFile) (buildDir : Text) : Text :=
  Path.join (outputsRoot buildDir) file.taskName

def job (file : GrammarFile) (root buildDir : Text) : Job :=
  ⟨file.path, root, file.outputDir buildDir⟩

end GrammarFile
end OpenGrammar
