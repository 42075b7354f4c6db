import OpenGrammar.Classification
import OpenGrammar.ImportSet
import OpenGrammar.Naming
import OpenGrammar.Token

/-! How names in rule bodies are linked to the composed grammar. An extendable rule is
called through its accessor, with its real production as what to do when nothing
overrides it; a hidden rule is called by its real name; a fixed rule, and a name
that no rule has, stay as they are. A rule of another grammar is written `{name}`. -/
namespace OpenGrammar

structure Linkage where
  rules : Classification
  /-- What accessors end with. -/
  suffix : Text

namespace Linkage

def call (accessor target : Text) : Text :=
  "<<".toList ++ accessor ++ ' ' :: target ++ ">>".toList

/-- What stands for the rule of a name in a rule that can be overridden. -/
def reference (link : Linkage) (name : Text) : Option Text :=
  match link.rules.referenceKind name with
  | some .hidden => some (Naming.realName name)
  | some .extendable => some (call (Naming.accessor link.suffix name) (Naming.realName name))
  | some .subclass | none => none

/-- What stands for the rule of a name in a fixed rule. -/
def directReference (link : Linkage) (name : Text) : Option Text :=
  match link.rules.referenceKind name with
  | some kind => if kind.hasReal then some (Naming.realName name) else none
  | none => none

def externalReference (suffix name : Text) : Text :=
  call (Naming.accessor suffix name) ("<<".toList ++ Naming.realName name ++ ">>".toList)

def linkReferences (link : Linkage) (t : Text) : Text := Token.mapIdentifiers link.reference t

def linkDirect (link : Linkage) (t : Text) : Text := Token.mapIdentifiers link.directReference t

def linkExternals (link : Linkage) (t : Text) : Text :=
  Token.mapExternals (externalReference link.suffix) t

/-! Imports that the external references need -/

def parentImport (parent : ClassName) : Text := "static ".toList ++ parent.display ++ ".*".toList

def externalImport (parent : ClassName) (suffix name : Text) : Text :=
  "static ".toList ++ (parent.withSuffix "Util".toList).display ++ '.' :: Naming.accessor suffix name

def startImports : Option ClassName → ImportSet
  | none => .empty
  | some parent => ImportSet.empty.insert (parentImport parent)

/-- The imports needed by the external references of a body. Without a grammar to
override there are none. -/
def externalImports (link : Linkage) (parent : Option ClassName) (body : Text) : List Text :=
  match parent with
  | none => []
  | some parent => (Token.externals body).map (externalImport parent link.suffix)

def addImports (link : Linkage) (parent : Option ClassName) (set : ImportSet) (body : Text) :
    ImportSet :=
  set.insertAll (link.externalImports parent body)

def externalNotes (parent : Option ClassName) (body : Text) : List Note :=
  match parent with
  | some _ => []
  | none => (Token.externals body).map fun name =>
    .warn ["external rule `\x7b".toList, name,
      "\x7d` referenced without an `overrides` parent; no import registered".toList]

end Linkage
end OpenGrammar
