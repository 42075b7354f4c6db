import OpenGrammar.Session

/-! Files that are written together. No artifact is put in its place before all of them
stand in temporary files beside their places. -/
namespace OpenGrammar

inductive FileStatus
  | written
  /-- The file held the right bytes already. -/
  | unchanged
  deriving DecidableEq, Repr

def FileStatus.text : FileStatus → Text
  | .written => "Written".toList
  | .unchanged => "Unchanged".toList

/-- What became of an output file. -/
structure OutputFile where
  path : Text
  status : FileStatus
  deriving DecidableEq, Repr

structure Artifact where
  path : Text
  contents : Text
  deriving DecidableEq, Repr

namespace Artifact

def bytes (artifact : Artifact) : List UInt8 := Text.encode artifact.contents

def isCurrent (artifact : Artifact) (files : FileTree) : Bool :=
  match files.read artifact.path with
  | .ok bytes => bytes == artifact.bytes
  | .error _ => false

def directory (artifact : Artifact) : Text :=
  match Path.parent? artifact.path with
  | some [] | none => ['.']
  | some dir => dir

/-- Writes an artifact to a temporary file in its directory. There is none if the file
may stay as it is. -/
def stage (skipUnchanged : Bool) (artifact : Artifact) : Session (Option Temporary) := do
  if skipUnchanged && artifact.isCurrent (← Session.files) then
    Session.leave [.debug [artifact.path, " is up to date".toList]]
    return none
  else
    Session.createDirectories artifact.directory
    return some (← Session.createTemporary artifact.directory artifact.bytes)

/-- Stages artifacts in order. What is staged does not outlive a later failure. -/
def stageAll (skipUnchanged : Bool) :
    List Artifact → Session (List (Artifact × Option Temporary))
  | [] => return []
  | artifact :: rest => do
    let staged ← artifact.stage skipUnchanged
    let others ← Session.owning staged.toList (stageAll skipUnchanged rest)
    return (artifact, staged) :: others

def place (artifact : Artifact) : Option Temporary → Session OutputFile
  | none => return ⟨artifact.path, .unchanged⟩
  | some temporary => do
    Session.persist temporary artifact.path
    Session.leave [.debug ["wrote ".toList, artifact.path]]
    return ⟨artifact.path, .written⟩

def placeAll : List (Artifact × Option Temporary) → Session (List OutputFile)
  | [] => return []
  | (artifact, staged) :: rest => do
    let file ← Session.owning (rest.filterMap (·.2)) (artifact.place staged)
    return file :: (← placeAll rest)

/-- Stages all artifacts and then puts them in their places. -/
def writeAll (skipUnchanged : Bool) (artifacts : List Artifact) : Session (List OutputFile) := do
  placeAll (← stageAll skipUnchanged artifacts)

end Artifact
end OpenGrammar
