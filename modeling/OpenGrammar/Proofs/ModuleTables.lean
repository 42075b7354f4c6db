import OpenGrammar.Proofs.ModuleSource
import OpenGrammar.Proofs.SlotHistory

/-! The dispatch module and the slot table of one plan. The slots that the source of the module
declares, reads and empties are those of the table, and the slots that it binds are those that are
bound in the tables. -/
namespace OpenGrammar

section Tables

variable {φ ε : Type} {plan : Plan} {entry : SlotPlan → RuleFn φ} {element : ε}

namespace SlotTable

theorem slots_ofPlan (h : plan.slotNames.Nodup) (entry : SlotPlan → RuleFn φ) (element : ε) :
    (ofPlan plan entry element).slots = plan.slots.map fun slot => ⟨slot.rule, entry slot, none⟩ := by
  have hrules : ((plan.slots.map fun slot => (slot.rule, entry slot)).map Prod.fst).Nodup := by
    rw [List.map_map]
    exact h
  rw [ofPlan, slots_ofEntries hrules, List.map_map]
  rfl

theorem rules_ofPlan (h : plan.slotNames.Nodup) (entry : SlotPlan → RuleFn φ) (element : ε) :
    (ofPlan plan entry element).rules = plan.slotNames := by
  rw [rules, slots_ofPlan h, List.map_map]
  rfl

theorem lookup_ofPlan (h : plan.slotNames.Nodup) {slot : SlotPlan} (hslot : slot ∈ plan.slots) :
    (ofPlan plan entry element).lookup slot.rule = .ok (entry slot) := by
  have hmem : ⟨slot.rule, entry slot, none⟩ ∈ (ofPlan plan entry element).slots := by
    rw [slots_ofPlan h]
    exact List.mem_map_of_mem hslot
  rw [lookup, slot?_eq_some_iff.2 ⟨hmem, rfl⟩]
  rfl

end SlotTable

namespace LinkedTables

open SlotTable

variable {all next : LinkedTables φ ε} {child parent : TableId} {rules : List Text}

theorem exists_chain_eq_ok
    (h : ∀ rule ∈ rules, all.contains child rule = true ∧ all.contains parent rule = true) :
    ∃ next, all.chain child parent rules = .ok next := by
  cases hchain : all.chain child parent rules with
  | ok next => exact ⟨next, rfl⟩
  | error e =>
    obtain ⟨rule, -, hmem, hlacks⟩ := chain_eq_error hchain
    exact absurd (h rule hmem) hlacks

theorem lookup_chain {id : TableId} {table : SlotTable φ ε}
    (h : all.chain child parent rules = .ok next) (hget : all.get? id = some table) (rule : Text) :
    next.lookup id rule =
      if parent = id ∧ rule ∈ rules then .ok (.link child rule) else all.lookup id rule := by
  obtain ⟨after, hafter, hchanged⟩ := get?_chain h hget
  rw [lookup_of_get? hafter, lookup_of_get? hget, SlotTable.lookup, SlotTable.lookup,
    hchanged.slot?_eq, TableOperation.effect]
  by_cases hbound : parent = id ∧ rule ∈ rules
  · rw [if_pos hbound, if_pos hbound]
    obtain ⟨rfl, hmem⟩ := hbound
    have hrule : rule ∈ table.rules :=
      (contains_eq_true_iff hget).1 ((chain_eq_ok h).1 rule hmem).2
    cases hslot : table.slot? rule with
    | none => exact absurd hrule (slot?_eq_none_iff.1 hslot)
    | some slot => rfl
  · rw [if_neg hbound, if_neg hbound]
    cases table.slot? rule <;> rfl

/-- A table of a plan can be chained into a table that has the slots that the plan binds. These are
set, and what they call is the entry point of the plan. -/
theorem exists_chainPlan_eq_ok {old : SlotTable φ ε} (hdistinct : plan.slotNames.Nodup)
    (hchild : all.get? child = some (ofPlan plan entry element)) (hparent : all.get? parent = some old)
    (hold : ∀ slot ∈ plan.boundSlots, slot.rule ∈ old.rules) :
    ∃ next, all.chainPlan child parent plan = .ok next ∧
      (∀ rule, next.lookup parent rule =
        if rule ∈ plan.boundSlots.map SlotPlan.rule then .ok (.link child rule)
        else all.lookup parent rule) ∧
      (parent ≠ child → ∀ slot ∈ plan.boundSlots,
        next.lookup child slot.rule = .ok (entry slot)) := by
  have hmem : ∀ slot ∈ plan.boundSlots, slot ∈ plan.slots :=
    fun _ => Plan.mem_slots_of_mem_boundSlots
  have hhas : ∀ rule ∈ plan.boundSlots.map SlotPlan.rule,
      all.contains child rule = true ∧ all.contains parent rule = true := by
    intro rule hrule
    obtain ⟨slot, hslot, rfl⟩ := List.mem_map.1 hrule
    rw [contains_eq_true_iff hchild, contains_eq_true_iff hparent, rules_ofPlan hdistinct]
    exact ⟨List.mem_map_of_mem (hmem slot hslot), hold slot hslot⟩
  obtain ⟨next, hnext⟩ := exists_chain_eq_ok hhas
  refine ⟨next, hnext, ?_, ?_⟩
  · intro rule
    rw [lookup_chain hnext hparent]
    simp
  · intro hne slot hslot
    rw [lookup_chain hnext hchild, if_neg fun h => hne h.1, lookup_of_get? hchild,
      lookup_ofPlan hdistinct (hmem slot hslot)]

end LinkedTables
end Tables

namespace Plan

open ModuleText (Binding)

variable {φ ε : Type} {plan : Plan}

/-- What the source of a module says about its slots. -/
def reading (plan : Plan) : ModuleText.Reading :=
  ModuleText.read plan.typeTexts.parser (plan.parent.map plan.bindingTexts) plan.sourceLines

theorem reading_eq (h : ∀ slot ∈ plan.slots, Token.isIdentifier slot.rule = true) :
    plan.reading =
      { declared := plan.slotNames
        accessed := plan.slotNames
        emptied := [plan.slotNames]
        bound := plan.parent.toList.map fun _ => plan.boundSlots.map Binding.ofSlot } := by
  refine ModuleText.read_moduleLines h (fun _ => silent_headLines) ?_
  rw [List.forall_mem_singleton]
  exact ModuleText.silent_nil

/-- Without a parent nothing is bound, neither in the source nor in the plan. -/
theorem flatten_bound (plan : Plan) :
    (plan.parent.toList.map fun _ => plan.boundSlots.map Binding.ofSlot).flatten =
      plan.boundSlots.map Binding.ofSlot := by
  cases hparent : plan.parent with
  | none => simp [boundSlots, hparent]
  | some parent => simp

/-- The source of a module and the table of its plan have the same slots: those that the source
declares, those that it reads and those that it empties. The slots of the parent that the source
sets are those that chaining the tables sets, and each falls back to the entry point of its rule. -/
theorem module_agrees_with_table (plan : Plan) (hdistinct : plan.slotNames.Nodup)
    (hident : ∀ rule ∈ plan.slotNames, Token.isIdentifier rule = true)
    (entry : SlotPlan → RuleFn φ) (element : ε) :
    (plan.render = Text.join ['\n'] plan.sourceLines ∧
      (plan.OneLine → plan.render.splitOn '\n' = plan.sourceLines)) ∧
    (plan.reading.declared = (SlotTable.ofPlan plan entry element).rules ∧
      plan.reading.accessed = (SlotTable.ofPlan plan entry element).rules ∧
      plan.reading.emptied = [(SlotTable.ofPlan plan entry element).rules]) ∧
    plan.reading.bound = (plan.parent.toList.map fun _ => plan.boundSlots.map fun slot =>
      ⟨slot.rule, slot.rule, slot.realEntry⟩) ∧
    ∀ (all : LinkedTables φ ε) (child parent : TableId),
      all.chainPlan child parent plan =
        all.chain child parent (plan.reading.bound.flatten.map Binding.rule) ∧
      ∀ old, all.get? child = some (SlotTable.ofPlan plan entry element) →
        all.get? parent = some old →
        (∀ binding ∈ plan.reading.bound.flatten, binding.rule ∈ old.rules) →
        ∃ next, all.chainPlan child parent plan = .ok next ∧
          (∀ rule, next.lookup parent rule =
            if rule ∈ plan.reading.bound.flatten.map Binding.rule then .ok (.link child rule)
            else all.lookup parent rule) ∧
          (parent ≠ child → ∀ slot ∈ plan.boundSlots,
            next.lookup child slot.rule = .ok (entry slot)) := by
  have hslots : ∀ slot ∈ plan.slots, Token.isIdentifier slot.rule = true :=
    fun slot hslot => hident slot.rule (List.mem_map_of_mem hslot)
  have hrules : plan.reading.bound.flatten.map Binding.rule = plan.boundSlots.map SlotPlan.rule := by
    rw [reading_eq hslots, flatten_bound, List.map_map]
    rfl
  refine ⟨⟨plan.render_eq_join, fun h => splitOn_render h hslots⟩, ?_, ?_, ?_⟩
  · rw [SlotTable.rules_ofPlan hdistinct, reading_eq hslots]
    exact ⟨rfl, rfl, rfl⟩
  · rw [reading_eq hslots]
    rfl
  · intro all child parent
    rw [hrules]
    refine ⟨rfl, ?_⟩
    intro old hchild hparent hold
    rw [reading_eq hslots, flatten_bound, List.forall_mem_map] at hold
    exact LinkedTables.exists_chainPlan_eq_ok hdistinct hchild hparent hold

/-- A plan with a slot whose rule is a keyword and whose production is none of its own parser, for a
parent whose module is not named after its parser. -/
def withKeyword : Plan where
  module := dotted "com.example.SubParserUtil"
  baseClass := dotted "com.example.Base"
  parserClass := dotted "com.example.SubParser"
  elementHolder := dotted "com.example.SubTypes"
  slots := [⟨"object".toList, "objectExt".toList, "Literals.object".toList, true⟩,
    .of "stmt".toList "stmtExt".toList false]
  parent := some ⟨dotted "com.example.RootParser", dotted "com.example.Dispatch"⟩

def keywordTables : LinkedTables Text Nat where
  tables := [.ofPlan withKeyword (fun slot => .own slot.realEntry) 0,
    .ofEntries [("stmt".toList, .own "root".toList), ("object".toList, .own "root".toList)] 1]

theorem module_agrees_with_table_keyword :
    withKeyword.slotNames.Nodup ∧
      (∀ rule ∈ withKeyword.slotNames, Token.isIdentifier rule = true) ∧ withKeyword.OneLine ∧
      withKeyword.render.splitOn '\n' = withKeyword.sourceLines ∧
      withKeyword.reading =
        ⟨["object".toList, "stmt".toList], ["object".toList, "stmt".toList],
          [["object".toList, "stmt".toList]],
          [[⟨"object".toList, "object".toList, "Literals.object".toList⟩]]⟩ ∧
      ∃ next, keywordTables.chainPlan 0 1 withKeyword = .ok next ∧
        next.lookup 1 "object".toList = .ok (.link 0 "object".toList) ∧
        next.lookup 1 "stmt".toList = .ok (.own "root".toList) ∧
        next.lookup 0 "object".toList = .ok (.own "Literals.object".toList) := by
  have hdistinct : withKeyword.slotNames.Nodup := by decide
  have hident : ∀ rule ∈ withKeyword.slotNames, Token.isIdentifier rule = true := by decide
  have honeLine : withKeyword.OneLine := by
    refine ⟨.ofDotted (by decide), .ofDotted (by decide), .ofDotted (by decide), .ofDotted (by decide),
      by decide, by decide, ?_⟩
    intro parent h
    rw [← Option.some.inj h]
    exact ⟨.ofDotted (by decide), .ofDotted (by decide)⟩
  obtain ⟨⟨-, hlines⟩, ⟨hdeclared, haccessed, hemptied⟩, hbound, htables⟩ :=
    module_agrees_with_table withKeyword hdistinct hident (fun slot => RuleFn.own slot.realEntry) (0 : Nat)
  have hreading : withKeyword.reading =
      ⟨["object".toList, "stmt".toList], ["object".toList, "stmt".toList],
        [["object".toList, "stmt".toList]],
        [[⟨"object".toList, "object".toList, "Literals.object".toList⟩]]⟩ := by
    rw [ModuleText.Reading.mk.injEq, hdeclared, haccessed, hemptied, hbound]
    decide
  obtain ⟨next, hnext, hparent, hchild⟩ := (htables keywordTables 0 1).2 _ rfl rfl
    (by rw [hreading]; decide)
  rw [hreading] at hparent
  refine ⟨hdistinct, hident, honeLine, hlines honeLine, hreading, next, hnext, ?_, ?_, ?_⟩
  · rw [hparent]
    rfl
  · rw [hparent]
    rfl
  · exact hchild (by decide) ⟨"object".toList, "objectExt".toList, "Literals.object".toList, true⟩
      (by decide)

end Plan
end OpenGrammar
