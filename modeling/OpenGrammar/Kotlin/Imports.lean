import OpenGrammar.ClassName

/-! How a Kotlin file writes class names. The first class of a simple name is imported
and written short, any other class of that name is written with its package. -/
namespace OpenGrammar
namespace Kotlin

def hardKeywords : List Text :=
  ["as", "break", "class", "continue", "do", "else", "false", "for", "fun", "if", "in",
    "interface", "is", "null", "object", "package", "return", "super", "this", "throw", "true",
    "try", "typealias", "typeof", "val", "var", "when", "while"].map String.toList

/-- A name as it is written in Kotlin; keywords stand between backquotes. -/
def escape (name : Text) : Text :=
  if name ∈ hardKeywords then '\x60' :: name ++ ['\x60'] else name

structure Imports where
  package : Text
  /-- The class that each simple name stands for. -/
  owners : List (Text × ClassName) := []
  imported : List Text := []

namespace Imports

/-- Reserves a simple name for a class that the file declares. -/
def declare (imports : Imports) (simple : Text) : Imports :=
  { imports with owners := (simple, .topLevelOf imports.package simple) :: imports.owners }

/-- Classes of the file's own package and of the package `kotlin` need no import. -/
def isImplicit (imports : Imports) (c : ClassName) : Bool :=
  c.package == imports.package || c.package == "kotlin".toList

def reference (c : ClassName) : StateM Imports Text := fun imports =>
  let top := c.topLevel
  match imports.owners.lookup top.simpleName with
  | some owner => (if owner = top then c.relativeName else c.display, imports)
  | none =>
    (c.relativeName,
      { imports with
        owners := (top.simpleName, top) :: imports.owners
        imported :=
          if imports.isImplicit top then imports.imported else top.display :: imports.imported })

def sorted (imports : Imports) : List Text :=
  imports.imported.eraseDups.mergeSort fun s t => !decide (t < s)

end Imports
end Kotlin
end OpenGrammar
