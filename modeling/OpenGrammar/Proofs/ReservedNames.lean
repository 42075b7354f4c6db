import OpenGrammar.Proofs.Hygiene

/-! Reserved names. The check passes exactly the grammars in which no rule has the name of a
generated one; where the bare names are distinct, these are the grammars whose
composition declares no name twice. -/
namespace OpenGrammar
namespace Composition

section Engine

variable {engine : PatternEngine} {cls : Classification} {directives : Directives} {table : RuleTable}

/-- The bare names that a composed grammar declares: that of the root rule, those of the given
rules, and one more for each rule that has a real production. -/
def emittedNames (cls : Classification) : List Text :=
  ComposedRule.rootName ::
    (cls.rules.map (·.1.bareName) ++
      ((cls.rules.filter (·.2.hasReal)).map (·.1.bareName)).map Naming.realName)

theorem eq_of_reservedName? {bare generated : Text} (h : reservedName? cls bare = some generated) :
    generated = bare := by
  unfold reservedName? at h
  split at h
  · rename_i hroot
    rw [hroot]
    exact (Option.some.inj h).symm
  · split at h
    · rename_i base hs
      split at h
      · rw [← Option.some.inj h]
        exact List.isSuffixOf?_eq_some_iff_append_eq.1 hs
      · cases h
    · cases h

theorem reservedName?_eq_none_iff_not_mem {bare : Text} :
    reservedName? (Classification.ofTable directives table) bare = none ↔
      bare ∉ generatedRules (Classification.ofTable directives table) := by
  rw [reservedName?_eq_none_iff, mem_generatedRules, not_or]
  refine and_congr_right fun _ => ?_
  simp only [Classification.hasReal_referenceKind_iff]
  constructor
  · rintro h ⟨rule, hr, hreal, he⟩
    exact h rule.bareName ⟨rule, hr, rfl, hreal⟩ he
  · rintro h base ⟨rule, hr, rfl, hreal⟩ he
    exact h ⟨rule, hr, hreal, he⟩

/-- The check stops at the first rule that has the name of a generated one. -/
theorem checkReserved_eq (rules : List Rule) :
    checkReserved (Classification.ofTable directives table) rules =
      match rules.find? fun rule =>
        decide (rule.bareName ∈ generatedRules (Classification.ofTable directives table)) with
      | none => .ok ()
      | some rule => .error (.reservedRuleName rule.name rule.bareName) := by
  induction rules with
  | nil => rfl
  | cons rule rules ih =>
    rw [checkReserved, List.find?_cons]
    cases hr : reservedName? (Classification.ofTable directives table) rule.bareName with
    | none =>
      rw [decide_eq_false (reservedName?_eq_none_iff_not_mem.1 hr)]
      exact ih
    | some generated =>
      have hm : rule.bareName ∈ generatedRules (Classification.ofTable directives table) := by
        by_contra hm
        rw [reservedName?_eq_none_iff_not_mem.2 hm] at hr
        cases hr
      rw [decide_eq_true hm, eq_of_reservedName? hr]

/-- Where the bare names are distinct, so are the generated ones, and a name that is declared twice
is a bare name that is generated too. -/
theorem nodup_emittedNames_iff (h : (table.rules.map Rule.bareName).Nodup) :
    (emittedNames (Classification.ofTable directives table)).Nodup ↔
      ∀ rule ∈ table.rules,
        rule.bareName ∉ generatedRules (Classification.ofTable directives table) := by
  have hbare : (Classification.ofTable directives table).rules.map (·.1.bareName) =
      table.rules.map Rule.bareName := by
    simp [Classification.ofTable, Function.comp_def]
  have hreal : (realBareNames (Classification.ofTable directives table)).Nodup := by
    refine List.Nodup.sublist (List.filter_sublist.map _) ?_
    rwa [hbare]
  have hperm : (emittedNames (Classification.ofTable directives table)).Perm
      (table.rules.map Rule.bareName ++
        generatedRules (Classification.ofTable directives table)) := by
    rw [emittedNames, generatedRules, hbare]
    exact List.perm_middle.symm
  rw [hperm.nodup_iff, List.nodup_append']
  simp only [h, nodup_generatedRules_iff.2 hreal, true_and, List.disjoint_left, List.mem_map,
    forall_exists_index, and_imp, forall_apply_eq_imp_iff₂]

/-- Where the bare names are distinct, the check passes exactly if the composition would declare
no name twice; otherwise it stops at the first rule that has a generated name. -/
theorem checkReserved_exact (directives : Directives) (table : RuleTable)
    (h : (table.rules.map Rule.bareName).Nodup) :
    let cls := Classification.ofTable directives table
    (checkReserved cls table.rules = .ok () ↔ (emittedNames cls).Nodup) ∧
      (¬ (emittedNames cls).Nodup →
        ∃ rule, (table.rules.find? fun rule => decide (rule.bareName ∈ generatedRules cls)) =
            some rule ∧
          checkReserved cls table.rules =
            .error (.reservedRuleName rule.name rule.bareName)) := by
  intro cls
  have hnodup : (emittedNames cls).Nodup ↔
      (table.rules.find? fun rule => decide (rule.bareName ∈ generatedRules cls)) = none := by
    simp [cls, nodup_emittedNames_iff h]
  rw [hnodup, checkReserved_eq]
  cases table.rules.find? fun rule => decide (rule.bareName ∈ generatedRules cls) with
  | none => simp
  | some rule => simp

end Engine

def clashingTable : RuleTable where
  rules := ["x", "x_real", "a", "private a_real"].map fun name => ⟨name.toList, []⟩
  nodup := by decide

/-- A header that fixes the rule `x`, so that `x_real` is free. -/
def fixingHeader : Text := "\x7b extends(\"x\")=y \x7d".toList

theorem checkReserved_exact_clashing :
    ∃ directives, Directives.read (some fixingHeader) [] = .ok directives ∧
      (clashingTable.rules.map Rule.bareName).Nodup ∧
      checkReserved (Classification.ofTable directives clashingTable) clashingTable.rules =
        .error (.reservedRuleName "private a_real".toList "a_real".toList) := by
  have hbare : (clashingTable.rules.map Rule.bareName).Nodup := by decide
  have hrun : (Directives.read (some fixingHeader) []).toOption.any (fun directives => decide
      (¬ (emittedNames (Classification.ofTable directives clashingTable)).Nodup ∧
        (clashingTable.rules.find? fun rule => decide
          (rule.bareName ∈ generatedRules (Classification.ofTable directives clashingTable))) =
          some ⟨"private a_real".toList, []⟩)) = true := by
    decide +kernel
  cases hread : Directives.read (some fixingHeader) [] with
  | error e =>
    rw [hread] at hrun
    cases hrun
  | ok directives =>
    rw [hread] at hrun
    obtain ⟨htwice, hfirst⟩ := of_decide_eq_true hrun
    obtain ⟨rule, hfind, hcheck⟩ := (checkReserved_exact directives clashingTable hbare).2 htwice
    rw [hfind] at hfirst
    obtain rfl := Option.some.inj hfirst
    exact ⟨directives, rfl, hbare, hcheck⟩

end Composition
end OpenGrammar
