import OpenGrammar.SlotTable.Basic

/-! Slot tables that refer to each other. A table is never taken away, so that a link to
it stays good; an entry point or a constructor that is reached through a link is looked up
when it is called. -/
namespace OpenGrammar

/-- What a call comes to. -/
inductive CallTarget (φ : Type)
  | function (f : φ)
  /-- A link to a slot that is not there; the call gives false. -/
  | missing
  /-- Links in a circle, from which the call never returns. -/
  | endless
  deriving DecidableEq, Repr

/-- All tables; the number of a table is its place. -/
structure LinkedTables (φ ε : Type) where
  tables : List (SlotTable φ ε) := []

namespace LinkedTables

variable {φ ε : Type}

def get? (all : LinkedTables φ ε) (id : TableId) : Option (SlotTable φ ε) := all.tables[id]?

def add (all : LinkedTables φ ε) (table : SlotTable φ ε) : TableId × LinkedTables φ ε :=
  (all.tables.length, ⟨all.tables ++ [table]⟩)

def set (all : LinkedTables φ ε) (id : TableId) (table : SlotTable φ ε) : LinkedTables φ ε :=
  ⟨all.tables.set id table⟩

def contains (all : LinkedTables φ ε) (id : TableId) (rule : Text) : Bool :=
  (all.get? id).any (·.contains rule)

def lookup (all : LinkedTables φ ε) (id : TableId) (rule : Text) : Except SlotError (RuleFn φ) :=
  match all.get? id with
  | some table => table.lookup rule
  | none => .error (.unknownRule rule)

/-- Where the links from a rule function lead, of which at most `fuel` are followed. -/
def follow (all : LinkedTables φ ε) : Nat → RuleFn φ → CallTarget φ
  | _, .own f => .function f
  | fuel, .link id rule =>
    match all.lookup id rule with
    | .error _ => .missing
    | .ok f =>
      match fuel with
      | 0 => .endless
      | fuel + 1 => follow all fuel f

/-- Links that end somewhere pass no more slots than there are. -/
def slotCount (all : LinkedTables φ ε) : Nat := (all.tables.flatMap SlotTable.slots).length

def target (all : LinkedTables φ ε) (f : RuleFn φ) : CallTarget φ := all.follow all.slotCount f

/-- Calls a rule function at a level. A call that runs in a circle is none. -/
def call {m : Type → Type} [Monad m] (all : LinkedTables φ ε) (run : φ → Nat → m Bool)
    (f : RuleFn φ) (level : Nat) : Option (m Bool) :=
  match all.target f with
  | .function g => some (run g level)
  | .missing => some (pure false)
  | .endless => none

def parse {m : Type → Type} [Monad m] (all : LinkedTables φ ε) (run : φ → Nat → m Bool)
    (id : TableId) (rule : Text) (level : Nat) : Except SlotError (Option (m Bool)) :=
  match all.lookup id rule with
  | .ok f => .ok (all.call run f level)
  | .error e => .error e

def constructor? (all : LinkedTables φ ε) (id : TableId) : Option (Constructor ε) :=
  (all.get? id).map fun table => table.element.getD (.default id)

/-- Installs a constructor. A table that gets its own default back has its default. -/
def setConstructor (all : LinkedTables φ ε) (id : TableId) (c : Constructor ε) :
    LinkedTables φ ε :=
  match all.get? id with
  | none => all
  | some table =>
    match c with
    | .default owner =>
      all.set id { table with element := if owner = id then none else some (.default owner) }
    | c => all.set id { table with element := some c }

/-- What a constructor makes; `make` applies the functions at the end of all links, of
which at most `fuel` are followed one inside the other. -/
def construct {α : Type} (all : LinkedTables φ ε) (make : ε → Option α) (fuel : Nat) :
    Constructor ε → Option α
  | .own e => make e
  | .default id => (all.get? id).bind fun table => make table.defaultElement
  | .chained id previous =>
    match fuel with
    | 0 => construct all make 0 previous
    | fuel + 1 =>
      match (all.constructor? id).bind (construct all make fuel) with
      | some made => some made
      | none => construct all make (fuel + 1) previous
termination_by c => (fuel, c)

def createElement {α : Type} (all : LinkedTables φ ε) (make : ε → Option α) (id : TableId) :
    Except SlotError α :=
  match (all.constructor? id).bind (all.construct make all.tables.length) with
  | some made => .ok made
  | none => .error .noMatch

/-- Binds rules of a child table into a parent table: the parent's slots call what the
child has for these rules, and the parent's elements are made by the child first. Both
tables have to have slots for all the rules; the first rule for which one has none is
refused, and then nothing changes. -/
def chain (all : LinkedTables φ ε) (child parent : TableId) (rules : List Text) :
    Except SlotError (LinkedTables φ ε) :=
  match rules.find? (fun rule => !(all.contains child rule && all.contains parent rule)) with
  | some rule => .error (.unknownRule rule)
  | none =>
    match all.get? parent with
    | none => .ok all
    | some table =>
      let bound := rules.foldl (fun t rule => t.setOverride rule (some (.link child rule))) table
      .ok (all.set parent
        { bound with element := some (.chained child (table.element.getD (.default parent))) })

def chainPlan (all : LinkedTables φ ε) (child parent : TableId) (plan : Plan) :
    Except SlotError (LinkedTables φ ε) :=
  all.chain child parent (plan.boundSlots.map SlotPlan.rule)

end LinkedTables
end OpenGrammar
