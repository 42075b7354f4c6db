import OpenGrammar.Config
import OpenGrammar.Diagnostics
import OpenGrammar.Files.Path
import OpenGrammar.GrammarNames

/-! Where the files of a composed grammar go. Package and names follow from the place of
the grammar file below its source root. -/
namespace OpenGrammar

structure Layout where
  names : GrammarNames
  input : Text
  outputDir : Text
  /-- The path of the composed grammar. -/
  grammarPath : Text
  /-- The path of the dispatch module. -/
  modulePath : Text
  deriving DecidableEq, Repr

/-- What a parser generator has to know about a composed grammar. -/
structure ParserOutputs where
  grammar : Text
  parserClassPath : Text
  psiPath : Text
  deriving DecidableEq, Repr

namespace Layout

/-- The directory names among steps that do not leave a root. -/
def directoryNames? : List Component → Option (List Text)
  | [] => some []
  | .normal name :: steps => (directoryNames? steps).map (name :: ·)
  | .current :: steps => directoryNames? steps
  | .root :: _ | .parent :: _ => none

def namesOf (input root : Text) : Except Error GrammarNames :=
  match Path.fileStem? input with
  | none => .error (.layout (.noFileStem input))
  | some stem =>
    match (Path.components root).isPrefixOf? (Path.components input).dropLast with
    | none => .error (.layout (.notBelowRoot input root))
    | some steps =>
      match directoryNames? steps with
      | none => .error (.layout (.escapesRoot input root))
      | some dirs => .ok ⟨Text.join ['.'] dirs, stem⟩

def resolve (config : Config) (input root outputDir : Text) : Except Error Layout := do
  let names ← namesOf input root
  return {
    names, input, outputDir
    grammarPath :=
      Path.join outputDir (names.stem ++ config.generatedSuffix ++ ".bnf".toList)
    modulePath :=
      (Text.dotSegments names.package ++ [names.dispatchModule.simpleName ++ ".kt".toList]).foldl
        Path.join outputDir }

def parserOutputs (layout : Layout) : ParserOutputs where
  grammar := layout.grammarPath
  parserClassPath := Path.joinAll (layout.names.parserClass.relativePath.splitOn '/')
  psiPath := Path.joinAll (layout.names.psiPackage.splitOn '.')

end Layout
end OpenGrammar
