import OpenGrammar.Job
import OpenGrammar.Session

/-! The grammar files below a source root. The root is entered segment by segment, and
the paths of the files are written with the segments that were entered. -/
namespace OpenGrammar
namespace GrammarFile

/-- A path below a directory. A lone dot is not written. -/
def extend (base segment : Text) : Text :=
  if Path.components base = [.current] then segment else Path.join base segment

def descend? (files : FileTree) (base segment : Text) : Option Text :=
  let next := extend base segment
  let there :=
    if segment = ['.'] ∨ segment = ['.', '.'] then files.isDirectory base
    else files.contains next
  if there then some next else none

def searchBase? (files : FileTree) (root : Text) : Option Text :=
  if Path.isAbsolute (root ++ ['/']) then
    ((root.drop 1).splitOn '/').foldlM (descend? files) ['/']
  else (root.splitOn '/').foldlM (descend? files) ['.']

def isGrammarName (name : Text) : Bool := ".bnf".toList.isSuffixOf name

def paths (files : FileTree) (root : Text) : List Text :=
  match searchBase? files root with
  | none => []
  | some base =>
    match files.locate base with
    | .error _ => []
    | .ok place =>
      if files.isDirectoryAt place then
        Path.sort <| ((files.filesBelow place).filter (·.getLast?.any isGrammarName)).map
          (·.foldl extend base)
      else []

/-- Finds the grammar files below a root. -/
def discover (root : Text) : Session (List GrammarFile) := do
  let found := paths (← Session.files) root
  Session.leave [.debug ["found ".toList, Text.decimal found.length, " grammars below ".toList, root]]
  Session.ofExcept (found.mapM (ofPath · root))

end GrammarFile
end OpenGrammar
