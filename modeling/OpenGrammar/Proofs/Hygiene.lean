import OpenGrammar.Proofs.Composing

/-! Names that a composition generates: that of the root rule, those of the real productions,
and the accessors of the slots. They are pairwise distinct, and no rule of the grammar
has one of the first two kinds. An accessor is not the name of its own rule, but it may
be the name of another one: accessors are not rules, and nothing refuses them. -/
namespace OpenGrammar
namespace Naming

/-- Without low lines the camel case is the name itself. -/
theorem camelFrom_of_not_mem {name : Text} (h : '_' ∉ name) : camelFrom false name = name := by
  have happend := camelFrom_append h []
  rwa [camelFrom, List.append_nil] at happend

theorem lowLine_not_mem_camelFrom {passed : Bool} {name : Text}
    (hpart : ∀ c ∈ name, Token.isIdentPart c = true) (hlast : name.getLast? ≠ some '_')
    (hne : passed = true → name ≠ []) : '_' ∉ camelFrom passed name := by
  have hrest : ∀ {c : Char} {cs : Text}, (c :: cs).getLast? ≠ some '_' → cs.getLast? ≠ some '_' := by
    intro c cs h hcs
    rw [List.getLast?_cons, hcs] at h
    exact h rfl
  fun_induction camelFrom passed name with
  | case1 => exact absurd rfl (hne rfl)
  | case2 => simp
  | case3 passed cs ih =>
    refine ih (fun c hc => hpart c (List.mem_cons_of_mem _ hc)) (hrest hlast) fun _ hcs => hlast ?_
    rw [hcs]
    rfl
  | case4 c cs hc ih =>
    rw [List.mem_append]
    rintro (hm | hm)
    · exact hc (Text.eq_lowLine_of_mem_uppercase (hpart c (by simp)) hm)
    · exact ih (fun d hd => hpart d (List.mem_cons_of_mem _ hd)) (hrest hlast) (by simp) hm
  | case5 passed c cs hc hp ih =>
    rw [List.mem_cons]
    rintro (hm | hm)
    · exact hc hm.symm
    · exact ih (fun d hd => hpart d (List.mem_cons_of_mem _ hd)) (hrest hlast) (by simp) hm

/-- A name that its own accessor ends with `Ext` would have lost low lines that the
accessor, being the same name, still has. -/
theorem accessor_ne_self {name : Text} (h : Token.isIdentifier name = true) :
    accessor "Ext".toList name ≠ name := by
  intro he
  have hlast : name.getLast? ≠ some '_' := by
    rw [← he, getLast?_accessor]
    decide
  have hcamel : '_' ∉ camelCase name :=
    lowLine_not_mem_camelFrom (fun c hc => Token.isIdentPart_of_mem h hc) hlast (by simp)
  have hname : '_' ∉ name := by
    rw [← he, accessor, List.mem_append]
    rintro (hm | hm)
    · exact hcamel hm
    · exact absurd hm (by decide)
  have hlen := congrArg List.length he
  rw [accessor, camelCase, camelFrom_of_not_mem hname, List.length_append] at hlen
  simp at hlen

theorem realName_injective : Function.Injective realName := fun _ _ h => List.append_cancel_right h

theorem realName_ne_root (name : Text) : realName name ≠ ComposedRule.rootName := by
  intro h
  have hm : '_' ∈ realName name := by simp [realName, realSuffix]
  rw [h] at hm
  exact absurd hm (by decide)

theorem accessor_ne_root (name : Text) : accessor "Ext".toList name ≠ ComposedRule.rootName := by
  intro h
  have hs : "Ext".toList <:+ ComposedRule.rootName := ⟨camelCase name, h⟩
  exact absurd hs (by decide)

theorem accessor_ne_realName (name other : Text) : accessor "Ext".toList name ≠ realName other := by
  intro h
  have hl := congrArg List.getLast? h
  rw [getLast?_accessor, getLast?_realName] at hl
  exact absurd hl (by decide)

end Naming

namespace Composition

/-- A name is free when it is neither that of the root rule nor that of the real production
of a rule. -/
theorem reservedName?_eq_none_iff {cls : Classification} {bare : Text} :
    reservedName? cls bare = none ↔
      bare ≠ ComposedRule.rootName ∧
        ∀ base, (cls.referenceKind base).any RuleKind.hasReal = true → bare ≠ Naming.realName base := by
  unfold reservedName?
  by_cases hroot : bare = ComposedRule.rootName
  · simp [hroot]
  · rw [if_neg hroot]
    cases hs : Naming.realSuffix.isSuffixOf? bare with
    | none =>
      refine ⟨fun _ => ⟨hroot, fun base _ he => ?_⟩, fun _ => rfl⟩
      have hsome : Naming.realSuffix.isSuffixOf? bare = some base :=
        List.isSuffixOf?_eq_some_iff_append_eq.2 he.symm
      rw [hs] at hsome
      cases hsome
    | some base =>
      have hb : Naming.realName base = bare := List.isSuffixOf?_eq_some_iff_append_eq.1 hs
      by_cases hreal : (cls.referenceKind base).any RuleKind.hasReal = true
      · simp only [hreal, if_true, reduceCtorEq, false_iff]
        rintro ⟨-, hfree⟩
        exact hfree base hreal hb.symm
      · simp only [hreal]
        refine ⟨fun _ => ⟨hroot, fun other ho he => hreal ?_⟩, fun _ => rfl⟩
        rwa [Naming.realName_injective (hb.trans he)]

/-- The bare name of each rule that has a real production. -/
def realBareNames (cls : Classification) : List Text :=
  (cls.rules.filter (·.2.hasReal)).map (·.1.bareName)

/-- The names of generated rules: that of the root rule, and of one real production for each
rule that has any. -/
def generatedRules (cls : Classification) : List Text :=
  ComposedRule.rootName :: (realBareNames cls).map Naming.realName

theorem nodup_generatedRules_iff {cls : Classification} :
    (generatedRules cls).Nodup ↔ (realBareNames cls).Nodup := by
  have hroot : ComposedRule.rootName ∉ (realBareNames cls).map Naming.realName := by
    intro hm
    obtain ⟨bare, -, he⟩ := List.mem_map.1 hm
    exact Naming.realName_ne_root bare he
  rw [generatedRules, List.nodup_cons, List.nodup_map_iff Naming.realName_injective]
  exact and_iff_right hroot

section Engine

variable {engine : PatternEngine} {config : Config} {names : GrammarNames} {text : Text}
  {path : Option Text} {source : Source} {directives : Directives} {comp : Composition}

theorem mem_generatedRules {table : RuleTable} {name : Text} :
    name ∈ generatedRules (Classification.ofTable directives table) ↔
      name = ComposedRule.rootName ∨
        ∃ rule ∈ table.rules, (Classification.kindOf directives rule).hasReal = true ∧
          name = Naming.realName rule.bareName := by
  simp only [generatedRules, realBareNames, Classification.ofTable, List.mem_cons, List.mem_map,
    List.mem_filter]
  constructor
  · rintro (h | ⟨bare, ⟨p, ⟨⟨rule, hr, rfl⟩, hreal⟩, rfl⟩, rfl⟩)
    · exact Or.inl h
    · exact Or.inr ⟨rule, hr, hreal, rfl⟩
  · rintro (h | ⟨rule, hr, hreal, rfl⟩)
    · exact Or.inl h
    · exact Or.inr ⟨rule.bareName, ⟨_, ⟨⟨rule, hr, rfl⟩, hreal⟩, rfl⟩, rfl⟩

section Succeeded

variable (hscan : Source.scan text path = .ok source)
  (hread : Directives.read source.header config.defaultBaseClass = .ok directives)
  (h : compose config names text path = .ok comp)
include hscan hread h

theorem not_mem_generatedRules {rule : Rule} (hr : rule ∈ source.rules.rules) :
    rule.bareName ∉ generatedRules (Classification.ofTable directives source.rules) := by
  obtain ⟨hfree, -⟩ := compose_eq_ok hscan hread h
  obtain ⟨hroot, hreal⟩ := reservedName?_eq_none_iff.1 (hfree rule hr)
  rw [mem_generatedRules]
  rintro (he | ⟨other, ho, hk, he⟩)
  · exact hroot he
  · exact hreal other.bareName (Classification.hasReal_referenceKind_iff.2 ⟨other, ho, rfl, hk⟩) he

theorem accessor_not_mem_generatedRules (hsuffix : config.accessorSuffix = "Ext".toList)
    {slot : SlotPlan} (hs : slot ∈ comp.plan.slots) :
    slot.accessor ∉ generatedRules (Classification.ofTable directives source.rules) := by
  intro hname
  obtain ⟨rule, -, -, rfl⟩ := (mem_slots_of_compose hscan hread h).1 hs
  have ha : (slotOf (linkageOf config source directives) rule).accessor =
      Naming.accessor "Ext".toList rule.bareName := by
    rw [← hsuffix]
    rfl
  rw [ha] at hname
  rcases mem_generatedRules.1 hname with heq | ⟨other, -, -, heq⟩
  · exact Naming.accessor_ne_root rule.bareName heq
  · exact Naming.accessor_ne_realName rule.bareName other.bareName heq

end Succeeded

/-- With the default suffix, and where all bare names are identifiers, the accessors differ from
each other and from the names of the generated rules, no rule of the grammar has the name of
a generated rule, and no accessor is the name of its own rule. As long as no two rules with
real productions share their bare name, all generated names are distinct. -/
theorem generated_names_of_compose (hscan : Source.scan text path = .ok source)
    (hread : Directives.read source.header config.defaultBaseClass = .ok directives)
    (h : compose config names text path = .ok comp)
    (hsuffix : config.accessorSuffix = "Ext".toList)
    (hident : ∀ rule ∈ source.rules.rules, Token.isIdentifier rule.bareName = true) :
    let cls := Classification.ofTable directives source.rules
    ((realBareNames cls).Nodup →
        (generatedRules cls ++ comp.plan.slots.map SlotPlan.accessor).Nodup) ∧
      (comp.plan.slots.map SlotPlan.accessor).Nodup ∧
      (∀ slot ∈ comp.plan.slots, slot.accessor ∉ generatedRules cls) ∧
      (∀ rule ∈ source.rules.rules, rule.bareName ∉ generatedRules cls) ∧
      ∀ slot ∈ comp.plan.slots, slot.accessor ≠ slot.rule := by
  intro cls
  have haccessors : (comp.plan.slots.map SlotPlan.accessor).Nodup :=
    nodup_accessors_of_compose hscan hread h
  have hapart : ∀ slot ∈ comp.plan.slots, slot.accessor ∉ generatedRules cls :=
    fun slot hs => accessor_not_mem_generatedRules hscan hread h hsuffix hs
  refine ⟨fun hbare => ?_, haccessors, hapart,
    fun rule hr => not_mem_generatedRules hscan hread h hr, fun slot hs => ?_⟩
  · refine List.nodup_append.2 ⟨nodup_generatedRules_iff.2 hbare, haccessors, ?_⟩
    rintro name hname _ haccessor rfl
    obtain ⟨slot, hs, rfl⟩ := List.mem_map.1 haccessor
    exact hapart slot hs hname
  · obtain ⟨rule, hr, -, rfl⟩ := (mem_slots_of_compose hscan hread h).1 hs
    rw [slotOf, SlotPlan.of, linkageOf_suffix, hsuffix]
    exact Naming.accessor_ne_self (hident rule hr)

end Engine

theorem generated_names_of_compose_sample :
    ∃ source directives comp,
      Source.scan sampleText none = .ok source ∧
      Directives.read source.header ({} : Config).defaultBaseClass = .ok directives ∧
      compose {} sampleNames sampleText none = .ok comp ∧
      (∀ rule ∈ source.rules.rules, Token.isIdentifier rule.bareName = true) ∧
      (generatedRules (Classification.ofTable directives source.rules) ++
        comp.plan.slots.map SlotPlan.accessor).Nodup ∧
      (∀ rule ∈ source.rules.rules,
        rule.bareName ∉ generatedRules (Classification.ofTable directives source.rules)) ∧
      ∀ slot ∈ comp.plan.slots, slot.accessor ≠ slot.rule := by
  obtain ⟨source, directives, comp, hscan, hread, h⟩ := exists_stages_of_isOk sample_isOk
  have hrules : (Source.scan sampleText none).toOption.all (fun s => decide
      (∀ rule ∈ s.rules.rules, Token.isIdentifier rule.bareName = true)) = true := by decide +kernel
  have hbare : (Source.scan sampleText none).toOption.all (fun s =>
      (Directives.read s.header ({} : Config).defaultBaseClass).toOption.all fun d => decide
        (realBareNames (Classification.ofTable d s.rules)).Nodup) = true := by decide +kernel
  rw [hscan] at hrules hbare
  simp only [Except.toOption, Option.all_some, hread] at hbare
  have hident := of_decide_eq_true hrules
  obtain ⟨hnodup, -, -, hfree, hown⟩ := generated_names_of_compose hscan hread h rfl hident
  exact ⟨source, directives, comp, hscan, hread, h, hident, hnodup (of_decide_eq_true hbare), hfree,
    hown⟩

def capturedText : Text := "a ::= 'x'\naExt ::= 'y'\n".toList

/-- An accessor can be the name of another rule, and two rules of one bare name share the name of
their real productions. -/
theorem generated_names_clash :
    (∃ source comp,
      Source.scan capturedText none = .ok source ∧
      compose {} sampleNames capturedText none = .ok comp ∧
      (∀ rule ∈ source.rules.rules, Token.isIdentifier rule.bareName = true) ∧
      ∃ slot ∈ comp.plan.slots, ∃ rule ∈ source.rules.rules, slot.accessor = rule.bareName) ∧
    ∃ source directives comp,
      Source.scan twinText none = .ok source ∧
      Directives.read source.header ({} : Config).defaultBaseClass = .ok directives ∧
      compose {} sampleNames twinText none = .ok comp ∧
      (∀ rule ∈ source.rules.rules, Token.isIdentifier rule.bareName = true) ∧
      ¬ (generatedRules (Classification.ofTable directives source.rules)).Nodup := by
  constructor
  · have hok : (compose {} sampleNames capturedText none).isOk = true := by decide +kernel
    obtain ⟨source, directives, comp, hscan, -, h⟩ := exists_stages_of_isOk hok
    have hrules : (Source.scan capturedText none).toOption.all (fun s => decide
        ((∀ rule ∈ s.rules.rules, Token.isIdentifier rule.bareName = true) ∧
          ∃ rule ∈ s.rules.rules, rule.bareName = "aExt".toList)) = true := by decide +kernel
    have hslots : (compose {} sampleNames capturedText none).toOption.all (fun c => decide
        (∃ slot ∈ c.plan.slots, slot.accessor = "aExt".toList)) = true := by decide +kernel
    rw [hscan] at hrules
    rw [h] at hslots
    obtain ⟨hident, rule, hr, hn⟩ := of_decide_eq_true hrules
    obtain ⟨slot, hs, ha⟩ := of_decide_eq_true hslots
    exact ⟨source, comp, hscan, h, hident, slot, hs, rule, hr, ha.trans hn.symm⟩
  · have hok : (compose {} sampleNames twinText none).isOk = true := by decide +kernel
    obtain ⟨source, directives, comp, hscan, hread, h⟩ := exists_stages_of_isOk hok
    have hrules : (Source.scan twinText none).toOption.all (fun s => decide
        (∀ rule ∈ s.rules.rules, Token.isIdentifier rule.bareName = true)) = true := by decide +kernel
    have hbare : (Source.scan twinText none).toOption.all (fun s =>
        (Directives.read s.header ({} : Config).defaultBaseClass).toOption.all fun d => decide
          (¬ (realBareNames (Classification.ofTable d s.rules)).Nodup)) = true := by decide +kernel
    rw [hscan] at hrules hbare
    simp only [Except.toOption, Option.all_some, hread] at hbare
    exact ⟨source, directives, comp, hscan, hread, h, of_decide_eq_true hrules,
      nodup_generatedRules_iff.not.2 (of_decide_eq_true hbare)⟩

end Composition
end OpenGrammar
