import OpenGrammar.ClassName
import OpenGrammar.Naming

/-! The names that follow from the package and the file stem of a grammar. -/
namespace OpenGrammar

structure GrammarNames where
  /-- The dotted package, empty for the source root itself. -/
  package : Text
  /-- The file name without its extension. -/
  stem : Text
  deriving DecidableEq, Repr

namespace GrammarNames

def title (names : GrammarNames) : Text := Naming.titleCase names.stem

def qualify (package name : Text) : Text :=
  if package.isEmpty then name else package ++ '.' :: name

def psiPackage (names : GrammarNames) : Text := qualify names.package "psi".toList

def psiImplPackage (names : GrammarNames) : Text := names.psiPackage ++ ".impl".toList

def parserClass (names : GrammarNames) : ClassName :=
  .topLevelOf names.package (names.title ++ "Parser".toList)

/-- The module that holds the slots of the grammar. -/
def dispatchModule (names : GrammarNames) : ClassName :=
  .topLevelOf names.package (names.title ++ "ParserUtil".toList)

def elementHolder (names : GrammarNames) : ClassName :=
  .topLevelOf names.psiPackage (names.title ++ "Types".toList)

end GrammarNames
end OpenGrammar
