import OpenGrammar.Diagnostics
import OpenGrammar.Files.Path

/-! A tree of files and directories. A path is followed name by name, and each step needs
a directory to start from. -/
namespace OpenGrammar

/-- The names on the way from the top of the tree. -/
abbrev Location := List Text

inductive FileNode
  | directory
  | file (bytes : List UInt8)
  deriving DecidableEq, Repr

structure FileTree where
  entries : List (Location × FileNode) := []
  /-- Where relative paths start. -/
  home : Location := []

namespace FileTree

/-- What is at a location. The top of the tree is always a directory. -/
def node? (tree : FileTree) (place : Location) : Option FileNode :=
  if place = [] then some .directory else tree.entries.lookup place

def isDirectoryAt (tree : FileTree) (place : Location) : Bool :=
  tree.node? place == some .directory

def set (tree : FileTree) (place : Location) (node : FileNode) : FileTree :=
  { tree with entries := (place, node) :: tree.entries.filter (·.1 != place) }

def erase (tree : FileTree) (place : Location) : FileTree :=
  { tree with entries := tree.entries.filter fun entry => !place.isPrefixOf entry.1 }

/-! Following paths -/

def enter (tree : FileTree) (place : Location) (segment : Text) : Except FileFault Location :=
  match tree.node? place with
  | none => .error .notFound
  | some (.file _) => .error .notDirectory
  | some .directory =>
    .ok (if Path.isVoid segment then place
      else if segment = ['.', '.'] then place.dropLast
      else place ++ [segment])

def start (tree : FileTree) (path : Text) : Location :=
  if Path.isAbsolute path then [] else tree.home

/-- The location that a path leads to. Nothing need be there, but all directories on the
way are; behind a final slash there has to be a directory. -/
def locate (tree : FileTree) (path : Text) : Except FileFault Location :=
  if path = [] then .error .notFound
  else (path.splitOn '/').foldlM tree.enter (tree.start path)

def locateDirectory (tree : FileTree) (path : Text) : Except FileFault Location := do
  tree.enter (← tree.locate path) ['.']

def find (tree : FileTree) (path : Text) : Except FileFault FileNode := do
  match tree.node? (← tree.locate path) with
  | some node => .ok node
  | none => .error .notFound

def isDirectory (tree : FileTree) (path : Text) : Bool :=
  match tree.find path with
  | .ok .directory => true
  | _ => false

def contains (tree : FileTree) (path : Text) : Bool := (tree.find path).toBool

def read (tree : FileTree) (path : Text) : Except FileFault (List UInt8) := do
  match ← tree.find path with
  | .file bytes => .ok bytes
  | .directory => .error .isDirectory

def readText (tree : FileTree) (path : Text) : Except FileFault Text := do
  match Text.decode? (← tree.read path) with
  | some text => .ok text
  | none => .error .invalidUtf8

def filesBelow (tree : FileTree) (place : Location) : List Location :=
  tree.entries.filterMap fun (location, node) =>
    match node with
    | .file _ => place.isPrefixOf? location
    | .directory => none

/-- All that is below a location, in order. Directories end in a slash. -/
def listing (tree : FileTree) (place : Location) : List Text :=
  let shown := tree.entries.filterMap fun (location, node) =>
    match place.isPrefixOf? location with
    | none | some [] => none
    | some steps =>
      let path := Text.join ['/'] steps
      some (if node = .directory then path ++ ['/'] else path)
  shown.mergeSort fun a b => !decide (b < a)

/-! Changes -/

def makeDirectory (tree : FileTree) (above : Location) (segment : Text) :
    Except FileFault FileTree := do
  let place ← tree.enter above segment
  if tree.node? place = none then .ok (tree.set place .directory) else .error .alreadyExists

/-- Makes a directory with all that are missing above it. The steps are given from the
last one back. What was made before a failure stays. -/
def makeDirectories (tree : FileTree) (origin : Location) :
    List Text → Except FileFault Unit × FileTree
  | [] => (.ok (), tree)
  | segment :: above =>
    let attempt (tree : FileTree) : Except FileFault FileTree := do
      let place ← above.reverse.foldlM tree.enter origin
      tree.makeDirectory place segment
    let settled (tree : FileTree) (fault : FileFault) : Except FileFault Unit × FileTree :=
      match (segment :: above).reverse.foldlM tree.enter origin with
      | .ok place => (if tree.isDirectoryAt place then .ok () else .error fault, tree)
      | .error _ => (.error fault, tree)
    match attempt tree with
    | .ok made => (.ok (), made)
    | .error .notFound =>
      match tree.makeDirectories origin above with
      | (.error fault, tree) => (.error fault, tree)
      | (.ok (), tree) =>
        match attempt tree with
        | .ok made => (.ok (), made)
        | .error fault => settled tree fault
    | .error fault => settled tree fault

/-- Makes sure that there is a directory at a path. -/
def createDirectories (tree : FileTree) (path : Text) : Except FileFault Unit × FileTree :=
  tree.makeDirectories (tree.start path) ((path.splitOn '/').filter (!Path.isVoid ·)).reverse

/-- Puts a file at a path, in place of the file that is there. -/
def replaceFile (tree : FileTree) (path : Text) (bytes : List UInt8) : Except FileFault FileTree :=
  match (path.splitOn '/').reverse.dropWhile List.isEmpty with
  | [] => .error (if path = [] then .notFound else .busy)
  | name :: above => do
    let place ← above.reverse.foldlM tree.enter (tree.start path)
    let target ← tree.enter place name
    if name = ['.'] ∨ name = ['.', '.'] then .error .busy
    else if path.getLast? = some '/' then .error .notDirectory
    else if tree.isDirectoryAt target then .error .isDirectory
    else .ok (tree.set target (.file bytes))

end FileTree
end OpenGrammar
