import OpenGrammar.Files.FileTree

/-! Work on files. A session that fails keeps the files and notes as they were when it
failed. -/
namespace OpenGrammar

/-- A file in a directory under a name that no path has. -/
structure Temporary where
  directory : Location
  bytes : List UInt8
  deriving DecidableEq, Repr

structure Workspace where
  files : FileTree
  notes : List Note := []
  temporaries : List Temporary := []

abbrev Session := ExceptT Error (StateM Workspace)

namespace Session

def ofExcept {α : Type} (result : Except Error α) : Session α := ExceptT.mk (pure result)

def ofFile {α : Type} (path : Text) (result : Except FileFault α) : Session α :=
  ofExcept (result.mapError (Error.file path))

def outcome {α : Type} (session : Session α) (work : Workspace) : Except Error α × Workspace :=
  session.run.run work

def resultOn {α : Type} (files : FileTree) (session : Session α) : Except Error α :=
  (session.outcome { files }).1

def leave (notes : List Note) : Session Unit :=
  modify fun work => { work with notes := work.notes ++ notes }

def files : Session FileTree := return (← get).files

def setFiles (files : FileTree) : Session Unit := modify fun work => { work with files }

def readText (path : Text) : Session Text := do
  ofFile path ((← files).readText path)

def createDirectories (path : Text) : Session Unit := do
  let (result, tree) := (← files).createDirectories path
  setFiles tree
  ofFile path result

def replaceFile (path : Text) (bytes : List UInt8) : Session Unit := do
  setFiles (← ofFile path ((← files).replaceFile path bytes))

/-! Temporary files -/

def createTemporary (directory : Text) (bytes : List UInt8) : Session Temporary := do
  let place ← ofFile directory ((← files).locateDirectory directory)
  let temporary := ⟨place, bytes⟩
  modify fun work => { work with temporaries := temporary :: work.temporaries }
  return temporary

def dropTemporaries (dropped : List Temporary) : Session Unit :=
  modify fun work => { work with temporaries := dropped.foldl List.erase work.temporaries }

/-- A session that owns temporary files. They do not outlive its failure. -/
def owning {α : Type} (owned : List Temporary) (session : Session α) : Session α :=
  tryCatch session fun error => do
    dropTemporaries owned
    throw error

/-- Puts a temporary file at a path. It is gone if it cannot be put there, too. -/
def persist (temporary : Temporary) (path : Text) : Session Unit := do
  dropTemporaries [temporary]
  replaceFile path temporary.bytes

end Session
end OpenGrammar
