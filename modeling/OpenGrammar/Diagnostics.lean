import OpenGrammar.Text.Basic

/-! What a composition has to say besides its result: the cause that stops it, with the one
place that words the causes, and the notes that its stages leave in the order of their work. -/
namespace OpenGrammar

inductive FileFault
  | notFound | alreadyExists | notDirectory | isDirectory | busy | invalidUtf8
  deriving DecidableEq, Repr

inductive LayoutFault
  | noFileStem (input : Text)
  | notBelowRoot (path root : Text)
  | escapesRoot (input root : Text)
  | noGrammarFile (path : Text)
  deriving DecidableEq, Repr

inductive Error
  /-- The text holds no rule. -/
  | noRules (path : Option Text)
  /-- Two rules would share one accessor. -/
  | accessorCollision (first second accessor : Text)
  /-- A declared rule has the name of a generated one. -/
  | reservedRuleName (name generated : Text)
  /-- A subclass directive holds a text that is no pattern. -/
  | invalidPattern (directive cause : Text)
  | file (path : Text) (fault : FileFault)
  | layout (fault : LayoutFault)
  /-- A settings file that does not hold settings. -/
  | config (path : Text)
  deriving DecidableEq, Repr

def FileFault.message : FileFault → Text
  | .notFound => "No such file or directory (os error 2)".toList
  | .alreadyExists => "File exists (os error 17)".toList
  | .notDirectory => "Not a directory (os error 20)".toList
  | .isDirectory => "Is a directory (os error 21)".toList
  | .busy => "Device or resource busy (os error 16)".toList
  | .invalidUtf8 => "stream did not contain valid UTF-8".toList

def LayoutFault.message : LayoutFault → Text
  | .noFileStem input => input ++ " has no usable file stem".toList
  | .notBelowRoot path root => path ++ " is not below the source root ".toList ++ root
  | .escapesRoot input root => input ++ " escapes the source root ".toList ++ root
  | .noGrammarFile path => path ++ " does not name a grammar file".toList

namespace Error

def message : Error → Text
  | .noRules (some path) => "Grammar ".toList ++ path ++ " declares no rules".toList
  | .noRules none => "Grammar declares no rules".toList
  | .accessorCollision first second accessor =>
    "Rules `".toList ++ first ++ "` and `".toList ++ second ++
      "` both map to accessor `".toList ++ accessor ++ "`".toList
  | .reservedRuleName name generated =>
    "Rule `".toList ++ name ++ "` collides with the generated rule `".toList ++ generated ++
      "`".toList
  | .invalidPattern directive cause =>
    "Invalid pattern in directive `".toList ++ directive ++ "`: ".toList ++ cause
  | .file path fault => "I/O error on ".toList ++ path ++ ": ".toList ++ fault.message
  | .layout fault => "Invalid layout: ".toList ++ fault.message
  | .config path => "Invalid configuration ".toList ++ path

/-- Whether the error was caused by a failure below the library: of the pattern
reader, of a file operation or of the settings reader. -/
def hasCause : Error → Bool
  | .invalidPattern _ _ | .file _ _ | .config _ => true
  | _ => false

end Error

/-! Notes -/

inductive NoteLevel
  | debug | warn
  deriving DecidableEq, Repr

structure Note where
  level : NoteLevel
  message : Text
  deriving DecidableEq, Repr

namespace Note

def debug (parts : List Text) : Note := ⟨.debug, parts.flatten⟩

def warn (parts : List Text) : Note := ⟨.warn, parts.flatten⟩

end Note
end OpenGrammar
