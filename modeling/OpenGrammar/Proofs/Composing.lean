import OpenGrammar.Composition
import OpenGrammar.Proofs.Accessors
import OpenGrammar.Proofs.RuleKinds
import OpenGrammar.Proofs.Scanning
import OpenGrammar.Regex.Parser

/-! What a composition that succeeds has gone through: which names were free, what slots
its plan holds, and of which texts its grammar is joined. -/
namespace OpenGrammar
namespace Composition

section Engine

variable {engine : PatternEngine} {config : Config} {names : GrammarNames} {text : Text} {path : Option Text}
  {source : Source} {directives : Directives} {comp : Composition}

/-- How the names of a scanned grammar whose header was read are linked. -/
def linkageOf (config : Config) (source : Source) (directives : Directives) : Linkage :=
  ⟨Classification.ofTable directives source.rules, config.accessorSuffix⟩

@[simp] theorem linkageOf_rules (config : Config) (source : Source) (directives : Directives) :
    (linkageOf config source directives).rules = Classification.ofTable directives source.rules := rfl

@[simp] theorem linkageOf_suffix (config : Config) (source : Source) (directives : Directives) :
    (linkageOf config source directives).suffix = config.accessorSuffix := rfl

/-- The slot of an extendable rule. -/
def slotOf (link : Linkage) (rule : Rule) : SlotPlan :=
  SlotPlan.of rule.bareName (Naming.accessor link.suffix rule.bareName)
    (ComposedRule.ofOpen link rule .extendable).overrideEnabled

def headerText (names : GrammarNames) (source : Source) (directives : Directives) (link : Linkage) :
    Text :=
  Header.emit source.header names (requiredImports link directives.overrides)
    directives.existingImports

/-- The texts of which a composed grammar is joined behind its header: the root rule, the
rules with slots, and the other rules behind an empty line. -/
def bodyTexts (link : Linkage) (firstBare : Text) : List Text :=
  ComposedRule.rootRule link firstBare ::
    ((link.rules.rulesOf .extendable).map
        (fun rule => (ComposedRule.ofRule link rule .extendable).text) ++
      if link.rules.unextendable.isEmpty then []
      else ['\n'] :: link.rules.unextendable.map fun p => (ComposedRule.ofRule link p.1 p.2).text)

theorem checkReserved_eq_ok_iff {cls : Classification} {rules : List Rule} :
    checkReserved cls rules = .ok () ↔ ∀ rule ∈ rules, reservedName? cls rule.bareName = none := by
  induction rules with
  | nil => simp [checkReserved]
  | cons rule rules ih =>
    rw [checkReserved]
    cases hr : reservedName? cls rule.bareName with
    | none => simp [hr, ih]
    | some generated => simp [hr]

theorem compose_eq_ok (hscan : Source.scan text path = .ok source)
    (hread : Directives.read source.header config.defaultBaseClass = .ok directives)
    (h : compose config names text path = .ok comp) :
    let cls := Classification.ofTable directives source.rules
    (∀ rule ∈ source.rules.rules, reservedName? cls rule.bareName = none) ∧
      ∃ accessors,
        Naming.claimAll config.accessorSuffix [] ((cls.rulesOf .extendable).map Rule.bareName) =
          .ok accessors ∧
        comp = assemble names source directives (linkageOf config source directives) accessors := by
  intro cls
  simp only [compose, hscan, bind, Except.bind, ofSource, hread] at h
  cases hr : checkReserved cls source.rules.rules with
  | error e => simp [cls, hr] at h
  | ok u =>
    cases hc : Naming.claimAll config.accessorSuffix []
        ((cls.rulesOf .extendable).map Rule.bareName) with
    | error e => simp [cls, hr, hc] at h
    | ok accessors =>
      simp only [cls, hr, hc, pure, Except.pure, Except.ok.injEq] at h
      exact ⟨checkReserved_eq_ok_iff.1 hr, accessors, rfl, h.symm⟩

theorem exists_stages_of_isOk (h : (compose config names text path).isOk = true) :
    ∃ source directives comp,
      Source.scan text path = .ok source ∧
      Directives.read source.header config.defaultBaseClass = .ok directives ∧
      compose config names text path = .ok comp := by
  cases hc : compose config names text path with
  | error e =>
    rw [hc] at h
    cases h
  | ok comp =>
    cases hs : Source.scan text path with
    | error e => simp [compose, hs, bind, Except.bind] at hc
    | ok source =>
      cases hd : Directives.read source.header config.defaultBaseClass with
      | error e => simp [compose, hs, ofSource, hd, bind, Except.bind] at hc
      | ok directives => exact ⟨source, directives, comp, rfl, hd, rfl⟩

/-- What is evaluated of the stages of a grammar tells that they succeed. -/
theorem exists_stages_of_any {p : Source → Directives → Bool}
    (h : (Source.scan text path).toOption.any (fun source =>
      (Directives.read source.header config.defaultBaseClass).toOption.any (p source)) = true) :
    ∃ source directives,
      Source.scan text path = .ok source ∧
      Directives.read source.header config.defaultBaseClass = .ok directives ∧
      p source directives = true := by
  cases hs : Source.scan text path with
  | error e => simp [hs, Except.toOption] at h
  | ok source =>
    cases hd : Directives.read source.header config.defaultBaseClass with
    | error e => simp [hs, hd, Except.toOption] at h
    | ok directives => exact ⟨source, directives, rfl, hd, by simpa [hs, hd, Except.toOption] using h⟩

theorem slots_assemble (link : Linkage) :
    (assemble names source directives link
      (((link.rules.rulesOf .extendable).map Rule.bareName).map
        (Naming.accessor link.suffix))).plan.slots =
      (link.rules.rulesOf .extendable).map (slotOf link) := by
  simp only [assemble, List.map_map, List.zipWith_map, List.zipWith_self]
  rfl

theorem grammarText_assemble (link : Linkage) (accessors : List Text) :
    (assemble names source directives link accessors).grammarText =
      headerText names source directives link ++
        '\n' :: (bodyTexts link (Rule.bareNameOf source.firstRule)).flatten := by
  simp only [assemble, headerText, joinGrammar, bodyTexts, List.map_map, List.isEmpty_map,
    List.flatten_cons, List.flatten_append, List.append_assoc, List.cons_append]
  split <;> rfl

section Succeeded

variable (hscan : Source.scan text path = .ok source)
  (hread : Directives.read source.header config.defaultBaseClass = .ok directives)
  (h : compose config names text path = .ok comp)
include hscan hread h

theorem slots_of_compose :
    comp.plan.slots = ((Classification.ofTable directives source.rules).rulesOf .extendable).map
      (slotOf (linkageOf config source directives)) := by
  obtain ⟨-, accessors, hc, rfl⟩ := compose_eq_ok hscan hread h
  obtain ⟨rfl, -⟩ := Naming.claimAll_eq_ok hc
  exact slots_assemble _

theorem grammarText_of_compose :
    comp.grammarText =
      headerText names source directives (linkageOf config source directives) ++
        '\n' :: (bodyTexts (linkageOf config source directives)
          (Rule.bareNameOf source.firstRule)).flatten := by
  obtain ⟨-, accessors, -, rfl⟩ := compose_eq_ok hscan hread h
  exact grammarText_assemble _ accessors

/-- The lines of a composed grammar are those of its header, an empty one, and those of its
body. -/
theorem lines_of_compose :
    Text.lines comp.grammarText =
      Text.lines (headerText names source directives (linkageOf config source directives)) ++
        [] :: Text.lines (bodyTexts (linkageOf config source directives)
          (Rule.bareNameOf source.firstRule)).flatten := by
  obtain ⟨u, hu⟩ : ∃ u, headerText names source directives (linkageOf config source directives) =
      u ++ ['\n'] := ⟨_, rfl⟩
  rw [grammarText_of_compose hscan hread h, hu, Text.lines_append_newline, List.append_assoc,
    List.singleton_append, Text.lines_append_newline, List.append_assoc]
  rfl

theorem mem_slots_of_compose {slot : SlotPlan} :
    slot ∈ comp.plan.slots ↔
      ∃ rule ∈ source.rules.rules, Classification.kindOf directives rule = .extendable ∧
        slot = slotOf (linkageOf config source directives) rule := by
  rw [slots_of_compose hscan hread h]
  simp only [List.mem_map, Classification.mem_rulesOf, Classification.mem_ofTable, and_assoc,
    eq_comm (b := slot)]

theorem slotNames_of_compose :
    comp.plan.slotNames =
      ((Classification.ofTable directives source.rules).rulesOf .extendable).map Rule.name := by
  rw [Plan.slotNames, slots_of_compose hscan hread h, List.map_map]
  apply List.map_congr_left
  intro rule hr
  exact Classification.name_of_mem_extendable hr

theorem nodup_slotNames_of_compose : comp.plan.slotNames.Nodup := by
  rw [slotNames_of_compose hscan hread h]
  exact Classification.nodup_names_extendable

theorem nodup_accessors_of_compose : (comp.plan.slots.map SlotPlan.accessor).Nodup := by
  obtain ⟨-, accessors, hc, -⟩ := compose_eq_ok hscan hread h
  have hbare : (((Classification.ofTable directives source.rules).rulesOf .extendable).map
      Rule.bareName).Nodup := by
    have hn := nodup_slotNames_of_compose hscan hread h
    rwa [Plan.slotNames, slots_of_compose hscan hread h, List.map_map] at hn
  have hn := Naming.nodup_of_claimAll hc hbare
  obtain ⟨rfl, -⟩ := Naming.claimAll_eq_ok hc
  rw [slots_of_compose hscan hread h, List.map_map]
  rwa [List.map_map] at hn

end Succeeded
end Engine

/-! A small grammar with a rule of each kind -/

def sampleText : Text :=
  "\x7b\n  extends(\"s_.*\")=stmt\n\x7d\nfile ::= s_a item\n".toList ++
    "private item ::= 'x' \x7be\x7d \x7b recoverWhile=file \x7d\ns_a ::= file item\n".toList

def sampleNames : GrammarNames := ⟨"com.example".toList, "foo".toList⟩

/-- A grammar that declares a name with the marker and without it. -/
def twinText : Text := "x ::= 'q'\nprivate x ::= 'p'\na ::= x\n".toList

theorem sample_isOk : (compose {} sampleNames sampleText none).isOk = true := by decide +kernel

end Composition
end OpenGrammar
