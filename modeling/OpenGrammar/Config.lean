import OpenGrammar.JsonValue

/-! Settings of the composition, and their form in JSON. Settings that are missing there keep
their defaults. -/
namespace OpenGrammar

structure Config where
  /-- The class that a module extends when the header names none. -/
  defaultBaseClass : Text := "com.intellij.lang.parser.GeneratedParserUtilBase".toList
  accessorSuffix : Text := "Ext".toList
  /-- What is added to the file stem of a composed grammar. -/
  generatedSuffix : Text := "_gen".toList
  /-- Whether files that hold the right text already are left alone. -/
  skipUnchanged : Bool := true
  /-- The number of workers, if it is limited. -/
  numThreads : Option Nat := none
  deriving DecidableEq, Repr

namespace Config

open JsonValue (fields?)

def setting? {α : Type} (read : JsonValue → Option α) (default : α) :
    Option (Option JsonValue) → Option α
  | some (some v) => read v
  | _ => some default

def text? : JsonValue → Option Text
  | .string t => t
  | _ => none

def bool? : JsonValue → Option Bool
  | .bool b => some b
  | _ => none

/-- A number of workers, which fits in 64 bits, or none. -/
def threads? : JsonValue → Option (Option Nat)
  | .null => some none
  | .number (some n) => if n ≤ 0xFFFFFFFFFFFFFFFF then some (some n) else none
  | _ => none

def parallel? (v : JsonValue) : Option (Option Nat) := do
  let fields ← fields? ["num_threads".toList] v
  setting? threads? none fields[0]?

def names : List Text :=
  ["default_base_class", "accessor_suffix", "generated_suffix", "skip_unchanged", "parallel"].map
    String.toList

def ofJson? (v : JsonValue) : Option Config := do
  let fields ← fields? names v
  let d : Config := {}
  return {
    defaultBaseClass := ← setting? text? d.defaultBaseClass fields[0]?
    accessorSuffix := ← setting? text? d.accessorSuffix fields[1]?
    generatedSuffix := ← setting? text? d.generatedSuffix fields[2]?
    skipUnchanged := ← setting? bool? d.skipUnchanged fields[3]?
    numThreads := ← setting? parallel? d.numThreads fields[4]? }

def parse? (t : Text) : Option Config := JsonValue.parse? t >>= ofJson?

end Config
end OpenGrammar
