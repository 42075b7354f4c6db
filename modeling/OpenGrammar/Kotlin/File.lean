import OpenGrammar.Kotlin.Imports

/-! Kotlin files, written line by line. -/
namespace OpenGrammar
namespace Kotlin

structure File where
  imports : Imports
  /-- The lines written so far, indented, without their line feeds. -/
  lines : List Text := []
  depth : Nat := 0

namespace File

def start (package : Text) : File where
  imports := { package }

def declare (file : File) (simple : Text) : File :=
  { file with imports := file.imports.declare simple }

def reference (c : ClassName) : StateM File Text := fun file =>
  let (text, imports) := Imports.reference c file.imports
  (text, { file with imports })

def indented (depth : Nat) (text : Text) : Text :=
  if text.isEmpty then [] else List.replicate (2 * depth) ' ' ++ text

def line (file : File) (text : Text) : File :=
  { file with lines := file.lines ++ [indented file.depth text] }

def blank (file : File) : File := file.line []

def enter (file : File) (text : Text) : File :=
  let file := file.line text
  { file with depth := file.depth + 1 }

def leave (file : File) (text : Text) : File :=
  { file with depth := file.depth - 1 }.line text

/-- Writes a line one level back, between two parts of the same depth. -/
def between (file : File) (text : Text) : File :=
  { file with depth := file.depth - 1 }.enter text

def writeAll (file : File) (texts : List Text) : File := texts.foldl line file

def render (file : File) : Text :=
  let package := file.imports.package
  let imports := file.imports.sorted.flatMap fun i => "import ".toList ++ i ++ ['\n']
  (if package.isEmpty then [] else "package ".toList ++ package ++ "\n\n".toList) ++
    (if imports.isEmpty then [] else imports ++ ['\n']) ++
    file.lines.flatMap (· ++ ['\n'])

end File
end Kotlin
end OpenGrammar
