import OpenGrammar.Proofs.References

/-! Rules with the private marker. No reference to one goes through an accessor. A slot of
its bare name is there exactly when a rule without the marker has that name too: slots
go by the name as it is written, references by the bare name. -/
namespace OpenGrammar
namespace Linkage

variable {suffix p q : Text}

/-- Of two names behind their accessors, one cannot be the end of the other: the blank before
it would leave the accessor of the longer name too short. -/
theorem eq_of_append_eq {u : Text}
    (ha : Naming.accessor suffix q = Naming.accessor suffix p ++ u) (hn : ' ' :: p = u ++ ' ' :: q) :
    p = q := by
  cases u with
  | nil => simpa using hn
  | cons c r =>
    exfalso
    have hp : p = r ++ ' ' :: q := (List.cons.inj hn).2
    have hle : (Naming.camelCase q).length ≤ (Naming.camelCase p).length := by
      rw [hp]
      exact (Naming.camelCase_suffix_camelFrom false r q).length_le
    have hlen := congrArg List.length ha
    simp only [Naming.accessor, List.length_append, List.length_cons] at hlen
    omega

theorem call_accessor_inj
    (h : call (Naming.accessor suffix p) (Naming.realName p) =
      call (Naming.accessor suffix q) (Naming.realName q)) : p = q := by
  have hcut : Naming.accessor suffix p ++ ' ' :: p = Naming.accessor suffix q ++ ' ' :: q := by
    simp only [call, Naming.realName, List.append_assoc, List.cons_append] at h
    have hl := List.append_cancel_left h
    simp only [← List.cons_append, ← List.append_assoc] at hl
    exact List.append_cancel_right (List.append_cancel_right hl)
  rcases List.append_eq_append_iff.1 hcut with ⟨u, ha, hn⟩ | ⟨u, ha, hn⟩
  · exact eq_of_append_eq ha hn
  · exact (eq_of_append_eq ha hn).symm

theorem getLast?_append_close (t : Text) : (t ++ ">>".toList).getLast? = some '>' := by
  rw [List.getLast?_append]
  rfl

theorem realName_ne_call (name accessor target : Text) :
    Naming.realName name ≠ call accessor target := by
  intro h
  have hl := congrArg List.getLast? h
  rw [call, getLast?_append_close, Naming.getLast?_realName] at hl
  exact absurd hl (by decide)

/-- A call of another grammar's rule is no call of a rule of this one. -/
theorem externalReference_ne_call (name accessor p : Text) :
    externalReference suffix name ≠ call accessor (Naming.realName p) := by
  intro h
  rw [externalReference, call, call] at h
  have hl := congrArg List.getLast? (List.append_cancel_right h)
  have hreal : "<<".toList ++ accessor ++ ' ' :: Naming.realName p =
      ("<<".toList ++ accessor ++ [' ']) ++ Naming.realName p := by simp
  rw [← List.cons_append, ← List.append_assoc, getLast?_append_close, hreal, List.getLast?_append,
    Naming.getLast?_realName, Option.some_or] at hl
  exact absurd hl (by decide)

end Linkage

namespace Composition

section Engine

variable {engine : PatternEngine} {config : Config} {names : GrammarNames} {text : Text} {path : Option Text}
  {source : Source} {directives : Directives} {comp : Composition}

/-- What a private rule is called by. -/
structure Hidden (source : Source) (link : Linkage) (bare : Text) : Prop where
  /-- Every reference to it becomes its real name. -/
  target_eq : ∀ target, .linked bare target ∈ bodyFragments link (Rule.bareNameOf source.firstRule) →
    target = Naming.realName bare
  /-- Nothing is replaced by a call of it, whatever it stood for. -/
  not_called : ∀ given target,
    .linked given target ∈ bodyFragments link (Rule.bareNameOf source.firstRule) →
      target ≠ Linkage.call (Naming.accessor link.suffix bare) (Naming.realName bare)
  not_called_outside : ∀ name, Linkage.externalReference link.suffix name ≠
    Linkage.call (Naming.accessor link.suffix bare) (Naming.realName bare)

theorem hidden_of_isPrivate (config : Config) (directives : Directives) {rule : Rule}
    (hr : rule ∈ source.rules.rules) (hp : rule.isPrivate = true) :
    Hidden source (linkageOf config source directives) rule.bareName := by
  have hk : (linkageOf config source directives).rules.referenceKind rule.bareName =
      some .hidden := Classification.referenceKind_eq_hidden_iff.2 ⟨rule, hr, hp, rfl⟩
  constructor
  · intro target hm
    obtain ⟨kind, hl⟩ := linked_mem_bodyFragments hm
    rcases Linkage.linkIn_eq_some hl with ⟨ht, -⟩ | ⟨-, he⟩
    · exact ht
    · rw [hk] at he
      cases he
  · intro given target hm ht
    obtain ⟨kind, hl⟩ := linked_mem_bodyFragments hm
    rcases Linkage.linkIn_eq_some hl with ⟨hreal, -⟩ | ⟨hcall, he⟩
    · exact Linkage.realName_ne_call _ _ _ (hreal.symm.trans ht)
    · obtain rfl := Linkage.call_accessor_inj (hcall.symm.trans ht)
      rw [hk] at he
      cases he
  · intro name
    exact Linkage.externalReference_ne_call _ _ _

/-- In the composed text a private rule is never called through an accessor. Its bare name has
a slot exactly when a rule that has the name without the marker is fixed by no
directive. -/
theorem hidden_and_slot_iff (hscan : Source.scan text path = .ok source)
    (hread : Directives.read source.header config.defaultBaseClass = .ok directives)
    (h : compose config names text path = .ok comp) {rule : Rule}
    (hr : rule ∈ source.rules.rules) (hp : rule.isPrivate = true) :
    comp.grammarText = headerText names source directives (linkageOf config source directives) ++
        '\n' :: Fragment.spell (bodyFragments (linkageOf config source directives)
          (Rule.bareNameOf source.firstRule)) ∧
      Hidden source (linkageOf config source directives) rule.bareName ∧
      ((∃ slot ∈ comp.plan.slots, slot.rule = rule.bareName) ↔
        ∃ other ∈ source.rules.rules, other.name = rule.bareName ∧ other.isPrivate = false ∧
          directives.fixes other.name = false) := by
  refine ⟨grammarText_eq_spell hscan hread h, hidden_of_isPrivate config directives hr hp, ?_⟩
  constructor
  · rintro ⟨slot, hs, hn⟩
    obtain ⟨other, ho, hk, rfl⟩ := (mem_slots_of_compose hscan hread h).1 hs
    refine ⟨other, ho, ?_, Classification.kindOf_eq_extendable_iff.1 hk⟩
    rw [← hn, ← Classification.bareName_of_kindOf hk (by decide)]
    rfl
  · rintro ⟨other, ho, hn, hk⟩
    have hkind := Classification.kindOf_eq_extendable_iff.2 hk
    refine ⟨_, (mem_slots_of_compose hscan hread h).2 ⟨other, ho, hkind, rfl⟩, ?_⟩
    rw [← hn, ← Classification.bareName_of_kindOf hkind (by decide)]
    rfl

end Engine

theorem hidden_and_slot_iff_sample :
    ∃ source directives comp,
      Source.scan sampleText none = .ok source ∧
      Directives.read source.header ({} : Config).defaultBaseClass = .ok directives ∧
      compose {} sampleNames sampleText none = .ok comp ∧
      ∃ rule ∈ source.rules.rules, rule.isPrivate = true ∧
        Hidden source (linkageOf {} source directives) rule.bareName ∧
        ¬ ∃ slot ∈ comp.plan.slots, slot.rule = rule.bareName := by
  obtain ⟨source, directives, comp, hscan, hread, h⟩ := exists_stages_of_isOk sample_isOk
  have hrules : (Source.scan sampleText none).toOption.all (fun s => decide
      (∃ rule ∈ s.rules.rules, rule.isPrivate = true ∧
        ¬ ∃ other ∈ s.rules.rules, other.name = rule.bareName)) = true := by decide +kernel
  rw [hscan] at hrules
  obtain ⟨rule, hr, hp, hno⟩ := of_decide_eq_true hrules
  obtain ⟨-, hh, hslot⟩ := hidden_and_slot_iff hscan hread h hr hp
  refine ⟨source, directives, comp, hscan, hread, h, rule, hr, hp, hh, fun hs => hno ?_⟩
  obtain ⟨other, ho, hn, -⟩ := hslot.1 hs
  exact ⟨other, ho, hn⟩

/-- A private rule that shares its bare name with another rule does get a slot. -/
theorem twin_private_slot :
    ∃ source comp,
      Source.scan twinText none = .ok source ∧ compose {} sampleNames twinText none = .ok comp ∧
      ∃ rule ∈ source.rules.rules, rule.isPrivate = true ∧
        ∃ slot ∈ comp.plan.slots, slot.rule = rule.bareName := by
  have hok : (compose {} sampleNames twinText none).isOk = true := by decide +kernel
  obtain ⟨source, directives, comp, hscan, -, h⟩ := exists_stages_of_isOk hok
  have hrules : (Source.scan twinText none).toOption.all (fun s => decide
      (∃ rule ∈ s.rules.rules, rule.isPrivate = true ∧ rule.bareName = "x".toList)) = true := by
    decide +kernel
  have hslots : (compose {} sampleNames twinText none).toOption.all (fun c => decide
      (∃ slot ∈ c.plan.slots, slot.rule = "x".toList)) = true := by decide +kernel
  rw [hscan] at hrules
  rw [h] at hslots
  obtain ⟨rule, hr, hp, hb⟩ := of_decide_eq_true hrules
  have hs := of_decide_eq_true hslots
  exact ⟨source, comp, hscan, h, rule, hr, hp, by rwa [hb]⟩

end Composition
end OpenGrammar
