import OpenGrammar.Text.Uppercase

/-! Names of classes: a dotted package, and the simple names from the outermost class
to the innermost. -/
namespace OpenGrammar

structure ClassName where
  /-- The dotted package, empty for the default package. -/
  package : Text
  /-- Simple names, the outermost first. -/
  simpleNames : List Text
  deriving DecidableEq, Repr

namespace ClassName

def topLevelOf (package name : Text) : ClassName := ⟨package, [name]⟩

def startsUppercase (segment : Text) : Bool := segment.head?.any Text.isUppercase

/-- The number of leading segments that form the package: those before the first one
that starts with an upper case letter, or all but the last. -/
def packageLength (segments : List Text) : Nat :=
  (segments.findIdx? startsUppercase).getD (segments.length - 1)

/-- Reads a dotted name. Empty segments do not count. -/
def ofDotted (dotted : Text) : ClassName :=
  let segments := Text.dotSegments dotted
  let n := packageLength segments
  ⟨Text.join ['.'] (segments.take n), segments.drop n⟩

/-- The innermost simple name. -/
def simpleName (c : ClassName) : Text := c.simpleNames.getLast?.getD []

/-- The outermost class, which is the one an import names. -/
def topLevel (c : ClassName) : ClassName := ⟨c.package, [c.simpleNames.head?.getD []]⟩

def nested (c : ClassName) (name : Text) : ClassName :=
  { c with simpleNames := c.simpleNames ++ [name] }

/-- The top-level class of the same package whose name is longer by `suffix`. -/
def withSuffix (c : ClassName) (suffix : Text) : ClassName :=
  ⟨c.package, [c.simpleName ++ suffix]⟩

def relativeName (c : ClassName) : Text := Text.join ['.'] c.simpleNames

def relativePath (c : ClassName) : Text :=
  Text.join ['/'] (Text.dotSegments c.package ++ [c.simpleNames.head?.getD []])

def display (c : ClassName) : Text :=
  if c.package.isEmpty then c.relativeName else c.package ++ '.' :: c.relativeName

def before (c d : ClassName) : Bool :=
  if c.package = d.package then decide (c.simpleNames < d.simpleNames)
  else decide (c.package < d.package)

def sort (classes : List ClassName) : List ClassName :=
  classes.mergeSort fun c d => !d.before c

end ClassName
end OpenGrammar
