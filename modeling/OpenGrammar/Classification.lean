import OpenGrammar.Directives
import OpenGrammar.Rule

/-! How rules take part in the composition. A rule with the private marker is hidden,
whatever the header says; a rule that a subclass directive applies to is fixed;
all other rules are extendable. -/
namespace OpenGrammar

inductive RuleKind
  /-- Called through its accessor, so that it can be overridden. -/
  | extendable
  /-- Carries the private marker and is called by its real name. -/
  | hidden
  /-- Fixed by a subclass directive and emitted once. -/
  | subclass
  deriving DecidableEq, Repr

def RuleKind.hasReal : RuleKind → Bool
  | .extendable | .hidden => true
  | .subclass => false

structure Classification where
  rules : List (Rule × RuleKind)

namespace Classification

variable [PatternEngine]

def kindOf (directives : Directives) (rule : Rule) : RuleKind :=
  if rule.isPrivate then .hidden
  else if directives.fixes rule.name then .subclass
  else .extendable

def ofTable (directives : Directives) (table : RuleTable) : Classification :=
  ⟨table.rules.map fun rule => (rule, kindOf directives rule)⟩

/-- The kind of the rule that a reference names, if it is a rule of this grammar. A
hidden rule goes before the other rules of its bare name, and a later one before
an earlier one. -/
def referenceKind (cls : Classification) (bare : Text) : Option RuleKind :=
  cls.rules.foldl (fun found (rule, kind) =>
    if rule.bareName = bare ∧ found ≠ some .hidden then some kind else found) none

def count (cls : Classification) (kind : RuleKind) : Nat := cls.rules.countP (·.2 == kind)

def rulesOf (cls : Classification) (kind : RuleKind) : List Rule :=
  (cls.rules.filter (·.2 == kind)).map Prod.fst

def unextendable (cls : Classification) : List (Rule × RuleKind) :=
  cls.rules.filter (·.2 != .extendable)

def notes (cls : Classification) : List Note :=
  [.debug ["classified rules: ".toList, Text.decimal (cls.count .extendable),
    " extendable, ".toList, Text.decimal (cls.count .hidden), " private, ".toList,
    Text.decimal (cls.count .subclass), " subclass".toList]]

end Classification
end OpenGrammar
