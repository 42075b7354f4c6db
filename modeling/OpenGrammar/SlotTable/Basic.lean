import OpenGrammar.Plan.Basic
import OpenGrammar.Text.Quoted

/-! Tables of rule slots. A slot holds the entry point of its rule and at most one
override. Functions and constructors of a table may refer to other tables, which are
known by number; what such a link means is read from all tables together. -/
namespace OpenGrammar

abbrev TableId := Nat

inductive RuleFn (φ : Type)
  | own (f : φ)
  /-- What the table has for the rule at the time of the call. -/
  | link (table : TableId) (rule : Text)

inductive Constructor (ε : Type)
  | own (make : ε)
  /-- The constructor that the table was made with. -/
  | default (table : TableId)
  /-- The constructor of the table at the time of the call, and another one for the nodes
  that it does not handle. -/
  | chained (table : TableId) (previous : Constructor ε)

inductive SlotError
  | unknownRule (rule : Text)
  | noMatch
  deriving DecidableEq, Repr

def SlotError.message : SlotError → Text
  | .unknownRule rule => "No slot for rule `".toList ++ rule ++ "`".toList
  | .noMatch => "No element constructor matched the node".toList

structure Slot (φ : Type) where
  rule : Text
  entry : RuleFn φ
  override : Option (RuleFn φ) := none

namespace Slot

variable {φ : Type}

/-- The override, or else the entry point of the rule. -/
def current (slot : Slot φ) : RuleFn φ := slot.override.getD slot.entry

def isOverridden (slot : Slot φ) : Bool := slot.override.isSome

def state (slot : Slot φ) : Text :=
  if slot.isOverridden then "Overridden".toList else "Default".toList

end Slot

/-- Slots in the order of registration, one for each rule. -/
structure SlotTable (φ ε : Type) where
  slots : List (Slot φ)
  nodup : (slots.map Slot.rule).Nodup
  defaultElement : ε
  /-- The constructor that stands in for the default one. -/
  element : Option (Constructor ε) := none

namespace SlotTable

variable {φ ε : Type}

def update (rule : Text) (f : Slot φ → RuleFn φ × Option (RuleFn φ)) (slot : Slot φ) : Slot φ :=
  if slot.rule = rule then ⟨slot.rule, (f slot).1, (f slot).2⟩ else slot

theorem map_rule_update (rule : Text) (f : Slot φ → RuleFn φ × Option (RuleFn φ))
    (slots : List (Slot φ)) : (slots.map (update rule f)).map Slot.rule = slots.map Slot.rule := by
  rw [List.map_map]
  apply List.map_congr_left
  intro slot _
  simp only [Function.comp, update]
  split <;> rfl

def empty (element : ε) : SlotTable φ ε where
  slots := []
  nodup := List.nodup_nil
  defaultElement := element

/-- Registers a rule. A rule that is there keeps its place and takes the new entry
point. -/
def register (table : SlotTable φ ε) (rule : Text) (entry : RuleFn φ) : SlotTable φ ε :=
  if h : rule ∈ table.slots.map Slot.rule then
    { table with
      slots := table.slots.map (update rule fun _ => (entry, none))
      nodup := by rw [map_rule_update]; exact table.nodup }
  else
    { table with
      slots := table.slots ++ [{ rule, entry }]
      nodup := by
        rw [List.map_append, List.nodup_append]
        refine ⟨table.nodup, by simp, ?_⟩
        intro a ha b hb
        simp only [List.map_cons, List.map_nil, List.mem_singleton] at hb
        rintro rfl
        exact h (hb ▸ ha) }

def ofEntries (entries : List (Text × RuleFn φ)) (element : ε) : SlotTable φ ε :=
  entries.foldl (fun table (rule, entry) => table.register rule entry) (empty element)

def ofPlan (plan : Plan) (entry : SlotPlan → RuleFn φ) (element : ε) : SlotTable φ ε :=
  ofEntries (plan.slots.map fun slot => (slot.rule, entry slot)) element

def rules (table : SlotTable φ ε) : List Text := table.slots.map Slot.rule

def contains (table : SlotTable φ ε) (rule : Text) : Bool := table.rules.contains rule

def slot? (table : SlotTable φ ε) (rule : Text) : Option (Slot φ) :=
  table.slots.find? (·.rule == rule)

def lookup (table : SlotTable φ ε) (rule : Text) : Except SlotError (RuleFn φ) :=
  match table.slot? rule with
  | some slot => .ok slot.current
  | none => .error (.unknownRule rule)

/-- The entry point of a rule, whatever its override. -/
def realEntry (table : SlotTable φ ε) (rule : Text) : Except SlotError (RuleFn φ) :=
  match table.slot? rule with
  | some slot => .ok slot.entry
  | none => .error (.unknownRule rule)

/-- Sets or clears the override of a rule; without a slot for it nothing changes. -/
def setOverride (table : SlotTable φ ε) (rule : Text) (override : Option (RuleFn φ)) :
    SlotTable φ ε :=
  { table with
    slots := table.slots.map (update rule fun slot => (slot.entry, override))
    nodup := by rw [map_rule_update]; exact table.nodup }

def install (table : SlotTable φ ε) (rule : Text) (f : RuleFn φ) :
    Except SlotError (SlotTable φ ε) :=
  if table.contains rule then .ok (table.setOverride rule (some f))
  else .error (.unknownRule rule)

def clearOverride (table : SlotTable φ ε) (rule : Text) : Except SlotError (SlotTable φ ε) :=
  if table.contains rule then .ok (table.setOverride rule none)
  else .error (.unknownRule rule)

def isOverridden (table : SlotTable φ ε) (rule : Text) : Bool :=
  (table.slot? rule).any Slot.isOverridden

def overrideCount (table : SlotTable φ ε) : Nat := table.slots.countP Slot.isOverridden

/-- Back to the entry points and the default constructor. -/
def reset (table : SlotTable φ ε) : SlotTable φ ε :=
  { table with
    slots := table.slots.map fun slot => { slot with override := none }
    nodup := by
      rw [List.map_map]
      exact table.nodup
    element := none }

def hasDefaultElement (table : SlotTable φ ε) : Bool := table.element.isNone

def display (table : SlotTable φ ε) : Text :=
  let shown (slot : Slot φ) : Text :=
    '(' :: Text.quote slot.rule ++ ", ".toList ++ slot.state ++ [')']
  "IndirectionTable \x7b slots: [".toList ++ Text.join ", ".toList (table.slots.map shown) ++
    "] \x7d".toList

end SlotTable
end OpenGrammar
