import OpenGrammar.ComposedRule
import OpenGrammar.Config
import OpenGrammar.Header
import OpenGrammar.Plan.Module
import OpenGrammar.Source

/-! The composition of one grammar: from its text to the composed grammar and its
dispatch module. -/
namespace OpenGrammar

variable [PatternEngine]

structure Composition where
  grammarText : Text
  moduleSource : Text
  plan : Plan
  /-- The names that the grammar declares more than once. -/
  duplicates : List Text

namespace Composition

/-- The generated name that a declared name clashes with: that of the root rule, or of a
real production. -/
def reservedName? (cls : Classification) (bare : Text) : Option Text :=
  if bare = ComposedRule.rootName then some ComposedRule.rootName
  else
    match Naming.realSuffix.isSuffixOf? bare with
    | some base =>
      if (cls.referenceKind base).any RuleKind.hasReal then some (Naming.realName base) else none
    | none => none

/-- No rule may have a generated name. The first that does is refused. -/
def checkReserved (cls : Classification) : List Rule → Except Error Unit
  | [] => .ok ()
  | rule :: rules =>
    match reservedName? cls rule.bareName with
    | some generated => .error (.reservedRuleName rule.name generated)
    | none => checkReserved cls rules

def joinGrammar (header root : Text) (extendable unextendable : List Text) : Text :=
  header ++ '\n' :: root ++ extendable.flatten ++
    if unextendable.isEmpty then [] else '\n' :: unextendable.flatten

def rulesInOrder (cls : Classification) : List (Rule × RuleKind) :=
  (cls.rulesOf .extendable).map (·, .extendable) ++ cls.unextendable

/-- The imports that the bodies need, in the order in which the rules are composed. -/
def requiredImports (link : Linkage) (parent : Option ClassName) : ImportSet :=
  (rulesInOrder link.rules).foldl (fun set (rule, _) => link.addImports parent set rule.body)
    (Linkage.startImports parent)

/-- Composes a scanned grammar whose header was read, once its names are known to be
free. -/
def assemble (names : GrammarNames) (source : Source) (directives : Directives) (link : Linkage)
    (accessors : List Text) : Composition :=
  let extendable := (link.rules.rulesOf .extendable).map (ComposedRule.ofOpen link · .extendable)
  let unextendable := link.rules.unextendable.map fun (rule, kind) =>
    ComposedRule.ofRule link rule kind
  let imports := requiredImports link directives.overrides
  let plan : Plan :=
    { module := names.dispatchModule
      baseClass := directives.baseClass
      parserClass := names.parserClass
      elementHolder := names.elementHolder
      slots := extendable.zipWith
        (fun rule accessor => SlotPlan.of rule.bare accessor rule.overrideEnabled) accessors
      parent := directives.overrides.map ParentBinding.of }
  { grammarText := joinGrammar
      (Header.emit source.header names imports directives.existingImports)
      (ComposedRule.rootRule link (Rule.bareNameOf source.firstRule))
      (extendable.map ComposedRule.text) (unextendable.map ComposedRule.text)
    moduleSource := plan.render
    plan
    duplicates := source.duplicates }

def ofSource (config : Config) (names : GrammarNames) (source : Source) :
    Except Error Composition := do
  let directives ← Directives.read source.header config.defaultBaseClass
  let cls := Classification.ofTable directives source.rules
  checkReserved cls source.rules.rules
  let accessors ← Naming.claimAll config.accessorSuffix []
    ((cls.rulesOf .extendable).map Rule.bareName)
  return assemble names source directives ⟨cls, config.accessorSuffix⟩ accessors

/-- Composes a grammar text; `path` says where it comes from. -/
def compose (config : Config) (names : GrammarNames) (text : Text) (path : Option Text) :
    Except Error Composition := do
  ofSource config names (← Source.scan text path)

/-- The notes that the composition of a scanned grammar leaves, up to where it fails. -/
def notesOfSource (config : Config) (names : GrammarNames) (source : Source) : List Note :=
  match Directives.read source.header config.defaultBaseClass with
  | .error _ => []
  | .ok directives =>
    let cls := Classification.ofTable directives source.rules
    directives.notes ++ cls.notes ++
      match ofSource config names source with
      | .error _ => []
      | .ok composed =>
        let link : Linkage := ⟨cls, config.accessorSuffix⟩
        (rulesInOrder cls).flatMap
          (fun p => Linkage.externalNotes directives.overrides p.1.body) ++
        [.debug ["composed ".toList, names.stem, ": ".toList,
          Text.decimal composed.plan.slots.length, " slots, ".toList,
          Text.decimal cls.unextendable.length, " unextendable rules, ".toList,
          Text.decimal (requiredImports link directives.overrides).size, " imports".toList]]

def notes (config : Config) (names : GrammarNames) (text : Text) : List Note :=
  match Source.scan text none with
  | .error _ => []
  | .ok source => source.notes ++ notesOfSource config names source

end Composition
end OpenGrammar
