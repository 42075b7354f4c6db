import OpenGrammar.ClassName
import OpenGrammar.Naming

/-! The plan of a dispatch module: a slot for each extendable rule, the hook that makes
elements, and the binding to the module of the grammar it overrides. -/
namespace OpenGrammar

structure SlotPlan where
  rule : Text
  /-- The name of the function that reads the slot. -/
  accessor : Text
  /-- The production that is called when the slot is empty. -/
  realEntry : Text
  /-- Whether the slot is bound to the overridden grammar. -/
  overridesParent : Bool
  deriving DecidableEq, Repr

def SlotPlan.of (rule accessor : Text) (overridesParent : Bool) : SlotPlan :=
  ⟨rule, accessor, Naming.realName rule, overridesParent⟩

structure ParentBinding where
  parser : ClassName
  /-- Its dispatch module. -/
  module : ClassName
  deriving DecidableEq, Repr

def ParentBinding.of (parser : ClassName) : ParentBinding :=
  ⟨parser, parser.withSuffix "Util".toList⟩

def ParentBinding.methodName (parent : ParentBinding) : Text :=
  "override".toList ++ parent.parser.simpleName

structure Plan where
  module : ClassName
  baseClass : ClassName
  parserClass : ClassName
  elementHolder : ClassName
  /-- Slots in declaration order. -/
  slots : List SlotPlan
  parent : Option ParentBinding
  deriving DecidableEq, Repr

namespace Plan

def slotNames (plan : Plan) : List Text := plan.slots.map SlotPlan.rule

/-- The slots that are bound to the overridden grammar. -/
def boundSlots (plan : Plan) : List SlotPlan :=
  if plan.parent.isSome then plan.slots.filter SlotPlan.overridesParent else []

end Plan
end OpenGrammar
