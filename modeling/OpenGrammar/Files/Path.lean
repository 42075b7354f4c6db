import OpenGrammar.Text.Basic

/-! Paths with slashes. A path is the text that was given; what it means is read from
its components, and no path is ever changed to a normal form. -/
namespace OpenGrammar

inductive Component
  | root
  /-- A dot at the start of a relative path. -/
  | current
  | parent
  | normal (name : Text)
  deriving DecidableEq, Repr

namespace Component

def text : Component → Text
  | .root => ['/']
  | .current => ['.']
  | .parent => ['.', '.']
  | .normal name => name

def ofSegment (segment : Text) : Component :=
  if segment = ['.', '.'] then .parent else .normal segment

def rank : Component → Nat
  | .root => 0
  | .current => 1
  | .parent => 2
  | .normal _ => 3

/-- The order of components: names come last and are ordered as texts. -/
def before : Component → Component → Bool
  | .normal a, .normal b => decide (a < b)
  | c, d => c.rank < d.rank

end Component

namespace Path

def isAbsolute (path : Text) : Bool := path.head? == some '/'

/-- Segments that are no step of their own: between two slashes, and dots. -/
def isVoid (segment : Text) : Bool := segment.isEmpty || segment == ['.']

/-- The steps of a path. A dot counts only at the start of a relative path. -/
def components (path : Text) : List Component :=
  let segments := path.splitOn '/'
  let steps := (segments.filter (!isVoid ·)).map Component.ofSegment
  if isAbsolute path then .root :: steps
  else if segments.head? = some ['.'] then .current :: steps
  else steps

def fileName? (path : Text) : Option Text :=
  match (components path).getLast? with
  | some (.normal name) => some name
  | _ => none

/-- A name without what follows its last dot. A dot at the start of a name does not
count. -/
def stemOf (name : Text) : Text :=
  match name.reverse.dropWhile (· != '.') with
  | _ :: before => if before.isEmpty then name else before.reverse
  | [] => name

def fileStem? (path : Text) : Option Text := (fileName? path).map stemOf

/-- The part of a path that is its start and no segment: the slash of an absolute path,
or the dot at the start of a relative one. -/
def lead (path : Text) : Text :=
  if isAbsolute path then ['/']
  else if (path.splitOn '/').head? = some ['.'] then ['.']
  else []

def parent? (path : Text) : Option Text :=
  let lead := lead path
  match ((path.drop lead.length).splitOn '/').reverse.dropWhile isVoid with
  | _ :: rest => some (lead ++ Text.join ['/'] (rest.dropWhile isVoid).reverse)
  | [] => if lead = ['.'] then some [] else none

/-- A path below another one. An absolute path stands for itself. -/
def join (base path : Text) : Text :=
  if isAbsolute path then path
  else if base.isEmpty || base.getLast? == some '/' then base ++ path
  else base ++ '/' :: path

def joinAll (paths : List Text) : Text := paths.foldl join []

def leads (path : Text) : List Text :=
  ((List.range (path.length + 1)).filter fun n => n == path.length || path[n]? == some '/').map
    fun n => path.take (max n 1)

def below? (root path : Text) : Option (List Component) :=
  (components root).isPrefixOf? (components path)

def beforeSteps : List Component → List Component → Bool
  | _, [] => false
  | [], _ :: _ => true
  | c :: cs, d :: ds => c.before d || (c == d && beforeSteps cs ds)

def sort (paths : List Text) : List Text :=
  paths.mergeSort fun p q => !beforeSteps (components q) (components p)

end Path
end OpenGrammar
