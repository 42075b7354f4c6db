import OpenGrammar.SlotTable.Linked

/-! What can be done to slot tables, one thing after the other. An operation that is refused
changes nothing and is no part of the history. -/
namespace OpenGrammar

inductive TableOperation (φ ε : Type)
  /-- Makes a table under a new number. -/
  | create (entries : List (Text × RuleFn φ)) (element : ε)
  | install (id : TableId) (rule : Text) (f : RuleFn φ)
  | clearOverride (id : TableId) (rule : Text)
  | reset (id : TableId)
  | setConstructor (id : TableId) (c : Constructor ε)
  | chain (child parent : TableId) (rules : List Text)

namespace LinkedTables

variable {φ ε : Type}

def change (all : LinkedTables φ ε) (id : TableId)
    (f : SlotTable φ ε → Except SlotError (SlotTable φ ε)) : Except SlotError (LinkedTables φ ε) :=
  match all.get? id with
  | some table => (f table).map (all.set id)
  | none => .ok all

def perform (all : LinkedTables φ ε) : TableOperation φ ε → Except SlotError (LinkedTables φ ε)
  | .create entries element => .ok (all.add (.ofEntries entries element)).2
  | .install id rule f => all.change id (·.install rule f)
  | .clearOverride id rule => all.change id (·.clearOverride rule)
  | .reset id => all.change id fun table => .ok table.reset
  | .setConstructor id c => .ok (all.setConstructor id c)
  | .chain child parent rules => all.chain child parent rules

def step (all : LinkedTables φ ε) (op : TableOperation φ ε) : LinkedTables φ ε :=
  match all.perform op with
  | .ok next => next
  | .error _ => all

def run (all : LinkedTables φ ε) (ops : List (TableOperation φ ε)) : LinkedTables φ ε :=
  ops.foldl step all

/-- The operations of a run that are not refused. -/
def history (all : LinkedTables φ ε) : List (TableOperation φ ε) → List (TableOperation φ ε)
  | [] => []
  | op :: ops =>
    match all.perform op with
    | .ok next => op :: history next ops
    | .error _ => history all ops

end LinkedTables
end OpenGrammar
