import Mathlib.Data.List.Nodup
import OpenGrammar.Classification
import OpenGrammar.Naming

/-! Kinds of rules and of references. Rules are sorted by the name as it is written, while
references go by the bare name; the lemmas say how the two meet, whatever the order of
the declarations. -/
namespace OpenGrammar
namespace Rule

theorem bareName_eq_name {rule : Rule} (h : rule.isPrivate = false) : rule.bareName = rule.name := by
  have hm : afterMarker? rule.name = none := by
    simpa [isPrivate, isPrivateName] using h
  simp [bareName, bareNameOf, hm]

theorem afterMarker?_eq_some_iff {name rest : Text} :
    afterMarker? name = some rest ↔
      ∃ c cs, rest = c :: cs ∧ Text.isBlank c = true ∧ name = "private".toList ++ c :: cs := by
  unfold afterMarker?
  constructor
  · intro h
    split at h
    · rename_i c cs hp
      split at h
      · rename_i hb
        have hn := List.isPrefixOf?_eq_some_iff_append_eq.1 hp
        exact ⟨c, cs, (Option.some.inj h).symm, hb, hn.symm⟩
      · cases h
    · cases h
  · rintro ⟨c, cs, rfl, hb, rfl⟩
    have hp : "private".toList.isPrefixOf? ("private".toList ++ c :: cs) = some (c :: cs) :=
      List.isPrefixOf?_eq_some_iff_append_eq.2 rfl
    rw [hp]
    simp [hb]

theorem afterMarker?_realName_eq_none {name : Text} (h : afterMarker? name = none) :
    afterMarker? (Naming.realName name) = none := by
  cases hr : afterMarker? (Naming.realName name) with
  | none => rfl
  | some rest =>
    exfalso
    obtain ⟨c, cs, -, hb, he⟩ := afterMarker?_eq_some_iff.1 hr
    have hmark : ∀ u, name ≠ "private".toList ++ c :: u := by
      intro u hu
      rw [afterMarker?_eq_some_iff.2 ⟨c, u, rfl, hb, hu⟩] at h
      cases h
    rw [Naming.realName, ← List.singleton_append, ← List.append_assoc] at he
    rcases List.append_eq_append_iff.1 he with ⟨u, hu, hs⟩ | ⟨u, hu, -⟩
    · -- the marker would end behind the name, so the low line would be a part of it
      cases u with
      | nil => exact hmark [] (by simpa using hu.symm)
      | cons d u =>
        have hd : '_' = d := (List.cons.inj hs).1
        have hmem : '_' ∈ "private".toList ++ [c] := by
          rw [hu, hd]
          simp
        rcases List.mem_append.1 hmem with hmem | hmem
        · exact absurd hmem (by decide)
        · rw [List.mem_singleton] at hmem
          rw [← hmem] at hb
          exact absurd hb (by decide)
    · exact hmark u (by simpa using hu)

/-- The real name of a rule as written is that of its bare name with the marker in
front. -/
theorem bareNameOf_realName (name : Text) :
    bareNameOf (Naming.realName name) = Naming.realName (bareNameOf name) := by
  cases hm : afterMarker? name with
  | some rest =>
    obtain ⟨c, cs, rfl, hb, rfl⟩ := afterMarker?_eq_some_iff.1 hm
    have hr : afterMarker? (Naming.realName ("private".toList ++ c :: cs)) =
        some (c :: cs ++ Naming.realSuffix) := by
      refine afterMarker?_eq_some_iff.2 ⟨c, cs ++ Naming.realSuffix, rfl, hb, ?_⟩
      simp [Naming.realName]
    have ht : Naming.realSuffix.dropWhile Text.isBlank = Naming.realSuffix := by decide
    rw [bareNameOf, hr, bareNameOf, hm]
    simp only [Naming.realName, Text.trimStart, List.dropWhile_append, ht]
    split
    · rename_i he
      rw [List.isEmpty_iff.1 he, List.nil_append]
    · rfl
  | none => rw [bareNameOf, afterMarker?_realName_eq_none hm, bareNameOf, hm]

end Rule

namespace RuleTable

theorem eq_of_name_eq {table : RuleTable} {r s : Rule} (hr : r ∈ table.rules) (hs : s ∈ table.rules)
    (h : r.name = s.name) : r = s :=
  List.inj_on_of_nodup_map table.nodup hr hs h

end RuleTable

namespace Classification

variable {engine : PatternEngine} {directives : Directives} {table : RuleTable} {rule : Rule} {bare : Text}

theorem kindOf_eq_hidden_iff : kindOf directives rule = .hidden ↔ rule.isPrivate = true := by
  unfold kindOf
  split
  · simp_all
  · split <;> simp_all

theorem kindOf_eq_extendable_iff : kindOf directives rule = .extendable ↔
    rule.isPrivate = false ∧ directives.fixes rule.name = false := by
  unfold kindOf
  split
  · simp_all
  · split <;> simp_all

theorem bareName_of_kindOf {kind : RuleKind} (h : kindOf directives rule = kind)
    (hne : kind ≠ .hidden) : rule.bareName = rule.name := by
  rw [← h, Ne, kindOf_eq_hidden_iff, Bool.not_eq_true] at hne
  exact Rule.bareName_eq_name hne

theorem mem_ofTable {kind : RuleKind} :
    (rule, kind) ∈ (ofTable directives table).rules ↔
      rule ∈ table.rules ∧ kindOf directives rule = kind := by
  simp only [ofTable, List.mem_map, Prod.mk.injEq]
  constructor
  · rintro ⟨r, hr, rfl, rfl⟩
    exact ⟨hr, rfl⟩
  · rintro ⟨hr, rfl⟩
    exact ⟨rule, hr, rfl, rfl⟩

theorem mem_rulesOf {cls : Classification} {kind : RuleKind} :
    rule ∈ cls.rulesOf kind ↔ (rule, kind) ∈ cls.rules := by
  simp [rulesOf]

theorem rulesOf_ofTable {kind : RuleKind} :
    (ofTable directives table).rulesOf kind = table.rules.filter (kindOf directives · == kind) := by
  simp [rulesOf, ofTable, List.filter_map, Function.comp_def]

theorem name_of_mem_extendable (h : rule ∈ (ofTable directives table).rulesOf .extendable) :
    rule.bareName = rule.name := by
  have hk := (mem_ofTable.1 (mem_rulesOf.1 h)).2
  exact bareName_of_kindOf hk (by decide)

theorem nodup_names_extendable :
    (((ofTable directives table).rulesOf .extendable).map Rule.name).Nodup := by
  have hs : ((ofTable directives table).rulesOf .extendable).Sublist table.rules := by
    rw [rulesOf_ofTable]
    exact List.filter_sublist
  exact table.nodup.sublist (hs.map Rule.name)

/-! References -/

/-- How one rule changes what a reference is known to name. -/
def resolve (bare : Text) (found : Option RuleKind) (p : Rule × RuleKind) : Option RuleKind :=
  if p.1.bareName = bare ∧ found ≠ some .hidden then some p.2 else found

theorem referenceKind_eq (cls : Classification) (bare : Text) :
    cls.referenceKind bare = cls.rules.foldl (resolve bare) none := rfl

theorem resolve_run_hidden_iff {l : List (Rule × RuleKind)} {found : Option RuleKind} :
    l.foldl (resolve bare) found = some .hidden ↔
      found = some .hidden ∨ ∃ rule, (rule, RuleKind.hidden) ∈ l ∧ rule.bareName = bare := by
  induction l generalizing found with
  | nil => simp
  | cons p l ih =>
    rw [List.foldl_cons, ih]
    have hstep : resolve bare found p = some .hidden ↔
        found = some .hidden ∨ (p.2 = .hidden ∧ p.1.bareName = bare) := by
      unfold resolve
      by_cases hf : found = some .hidden
      · simp [hf]
      · by_cases hb : p.1.bareName = bare <;> simp [hf, hb]
    rw [hstep]
    constructor
    · rintro ((hf | ⟨hk, hb⟩) | ⟨r, hr, hb⟩)
      · exact Or.inl hf
      · exact Or.inr ⟨p.1, by simp [← hk], hb⟩
      · exact Or.inr ⟨r, by simp [hr], hb⟩
    · rintro (hf | ⟨r, hr, hb⟩)
      · exact Or.inl (Or.inl hf)
      · rcases List.mem_cons.1 hr with rfl | hr
        · exact Or.inl (Or.inr ⟨rfl, hb⟩)
        · exact Or.inr ⟨r, hr, hb⟩

theorem resolve_run_some {l : List (Rule × RuleKind)} {found : Option RuleKind} {kind : RuleKind}
    (h : l.foldl (resolve bare) found = some kind) :
    found = some kind ∨ ∃ rule, (rule, kind) ∈ l ∧ rule.bareName = bare := by
  induction l generalizing found with
  | nil => exact Or.inl h
  | cons p l ih =>
    rcases ih h with hs | ⟨r, hr, hb⟩
    · unfold resolve at hs
      split at hs
      · rename_i hp
        obtain rfl := Option.some.inj hs
        exact Or.inr ⟨p.1, by simp, hp.1⟩
      · exact Or.inl hs
    · exact Or.inr ⟨r, by simp [hr], hb⟩

theorem resolve_run_isSome {l : List (Rule × RuleKind)} {found : Option RuleKind}
    (h : found.isSome ∨ ∃ p ∈ l, p.1.bareName = bare) : (l.foldl (resolve bare) found).isSome := by
  induction l generalizing found with
  | nil => simpa using h
  | cons p l ih =>
    apply ih
    rcases h with hf | ⟨q, hq, hb⟩
    · left
      unfold resolve
      split <;> simp [hf]
    · rcases List.mem_cons.1 hq with rfl | hq
      · left
        unfold resolve
        split
        · rfl
        · rename_i hn
          have hf : found = some .hidden := by
            by_contra hne
            exact hn ⟨hb, hne⟩
          simp [hf]
      · exact Or.inr ⟨q, hq, hb⟩

theorem exists_referenceKind (directives : Directives) (h : rule ∈ table.rules) :
    ∃ kind, (ofTable directives table).referenceKind rule.bareName = some kind := by
  rw [referenceKind_eq, ← Option.isSome_iff_exists]
  exact resolve_run_isSome (Or.inr ⟨(rule, kindOf directives rule), mem_ofTable.2 ⟨h, rfl⟩, rfl⟩)

theorem referenceKind_eq_hidden_iff :
    (ofTable directives table).referenceKind bare = some .hidden ↔
      ∃ rule ∈ table.rules, rule.isPrivate = true ∧ rule.bareName = bare := by
  rw [referenceKind_eq, resolve_run_hidden_iff]
  simp only [reduceCtorEq, false_or, mem_ofTable, kindOf_eq_hidden_iff, and_assoc]

theorem referenceKind_eq_some_iff {kind : RuleKind} (hk : kind ≠ .hidden) :
    (ofTable directives table).referenceKind bare = some kind ↔
      (∀ rule ∈ table.rules, rule.isPrivate = true → rule.bareName ≠ bare) ∧
        ∃ rule ∈ table.rules, rule.name = bare ∧ kindOf directives rule = kind := by
  have hsome : ∀ {k}, (ofTable directives table).referenceKind bare = some k → k ≠ .hidden →
      ∃ rule ∈ table.rules, rule.name = bare ∧ kindOf directives rule = k := by
    intro k h hne
    rw [referenceKind_eq] at h
    rcases resolve_run_some h with h | ⟨r, hr, hb⟩
    · cases h
    · obtain ⟨hr, hkind⟩ := mem_ofTable.1 hr
      rw [bareName_of_kindOf hkind hne] at hb
      exact ⟨r, hr, hb, hkind⟩
  constructor
  · intro h
    refine ⟨fun r hr hp hb => ?_, hsome h hk⟩
    have hh : (ofTable directives table).referenceKind bare = some .hidden :=
      referenceKind_eq_hidden_iff.2 ⟨r, hr, hp, hb⟩
    rw [h] at hh
    exact hk (Option.some.inj hh)
  · rintro ⟨hp, r, hr, hn, hkind⟩
    have hpub : r.bareName = r.name := bareName_of_kindOf hkind hk
    have hs : ((ofTable directives table).referenceKind bare).isSome := by
      rw [referenceKind_eq]
      refine resolve_run_isSome (Or.inr ⟨(r, kind), mem_ofTable.2 ⟨hr, hkind⟩, ?_⟩)
      rw [hpub, hn]
    obtain ⟨k, h⟩ := Option.isSome_iff_exists.1 hs
    have hne : k ≠ .hidden := by
      rintro rfl
      obtain ⟨s, hs, hsp, hsb⟩ := referenceKind_eq_hidden_iff.1 h
      exact hp s hs hsp hsb
    obtain ⟨s, hs, hsn, hsk⟩ := hsome h hne
    have he : s = r := RuleTable.eq_of_name_eq hs hr (hsn.trans hn.symm)
    rw [h, ← hsk, he, hkind]

/-- A reference has a real production to name exactly when some rule of its bare name
has one. -/
theorem hasReal_referenceKind_iff :
    ((ofTable directives table).referenceKind bare).any RuleKind.hasReal = true ↔
      ∃ rule ∈ table.rules, rule.bareName = bare ∧ (kindOf directives rule).hasReal = true := by
  constructor
  · intro h
    obtain ⟨kind, hk, hr⟩ := (Option.any_eq_true _ _).1 h
    cases kind with
    | hidden =>
      obtain ⟨r, hr, hp, hb⟩ := referenceKind_eq_hidden_iff.1 hk
      exact ⟨r, hr, hb, by rw [kindOf_eq_hidden_iff.2 hp]; rfl⟩
    | extendable =>
      obtain ⟨-, r, hr, hn, hkind⟩ := (referenceKind_eq_some_iff (by decide)).1 hk
      refine ⟨r, hr, ?_, by rw [hkind]; rfl⟩
      rw [bareName_of_kindOf hkind (by decide), hn]
    | subclass => cases hr
  · rintro ⟨r, hr, hb, hreal⟩
    by_cases hp : ∃ s ∈ table.rules, s.isPrivate = true ∧ s.bareName = bare
    · rw [referenceKind_eq_hidden_iff.2 hp]
      rfl
    · have hpub : ∀ s ∈ table.rules, s.isPrivate = true → s.bareName ≠ bare :=
        fun s hs hsp hsb => hp ⟨s, hs, hsp, hsb⟩
      have hkind : kindOf directives r = .extendable := by
        cases hk : kindOf directives r with
        | hidden => exact absurd hb (hpub r hr (kindOf_eq_hidden_iff.1 hk))
        | extendable => rfl
        | subclass => rw [hk] at hreal; cases hreal
      have hn : r.name = bare := by rw [← bareName_of_kindOf hkind (by decide), hb]
      rw [(referenceKind_eq_some_iff (by decide)).2 ⟨hpub, r, hr, hn, hkind⟩]
      rfl

end Classification
end OpenGrammar
