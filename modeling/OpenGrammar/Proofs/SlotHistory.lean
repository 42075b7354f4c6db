import OpenGrammar.Proofs.SlotTables

/-! Slot tables and their histories. At every time a table is what its entry points and the
operations that were not refused make of it; after a reset it is the table that was
made. -/
namespace OpenGrammar

variable {φ ε : Type}

/-- Whether an operation needs a slot for the rule and there is none. -/
def TableOperation.Lacks (all : LinkedTables φ ε) (rule : Text) : TableOperation φ ε → Prop
  | .install id r _ | .clearOverride id r =>
    r = rule ∧ ∃ table, all.get? id = some table ∧ rule ∉ table.rules
  | .chain child parent rules =>
    rule ∈ rules ∧ ¬(all.contains child rule = true ∧ all.contains parent rule = true)
  | .create _ _ | .reset _ | .setConstructor _ _ => False

namespace LinkedTables

variable {all : LinkedTables φ ε} {id : TableId} {table : SlotTable φ ε} {rule : Text}
  {op : TableOperation φ ε} {e : SlotError}

open SlotTable TableOperation

theorem change_eq_error_iff {f : SlotTable φ ε → Except SlotError (SlotTable φ ε)} :
    all.change id f = .error e ↔ ∃ table, all.get? id = some table ∧ f table = .error e := by
  unfold change
  cases hg : all.get? id with
  | none => simp
  | some table => cases hf : f table <;> simp [hf, Except.map]

theorem install_eq_error_iff {f : RuleFn φ} :
    table.install rule f = .error e ↔ e = .unknownRule rule ∧ rule ∉ table.rules := by
  rw [← SlotTable.contains_eq_true_iff, SlotTable.install]
  by_cases hc : table.contains rule = true
  · simp [hc]
  · rw [if_neg hc]
    exact ⟨fun h => ⟨(Except.error.inj h).symm, hc⟩, fun ⟨h, _⟩ => by rw [h]⟩

theorem clearOverride_eq_error_iff :
    table.clearOverride rule = .error e ↔ e = .unknownRule rule ∧ rule ∉ table.rules := by
  rw [← SlotTable.contains_eq_true_iff, SlotTable.clearOverride]
  by_cases hc : table.contains rule = true
  · simp [hc]
  · rw [if_neg hc]
    exact ⟨fun h => ⟨(Except.error.inj h).symm, hc⟩, fun ⟨h, _⟩ => by rw [h]⟩

theorem chain_eq_error {child parent : TableId} {rules : List Text}
    (h : all.chain child parent rules = .error e) : ∃ rule, e = .unknownRule rule ∧ rule ∈ rules ∧
      ¬(all.contains child rule = true ∧ all.contains parent rule = true) := by
  unfold chain at h
  split at h
  · rename_i rule hf
    cases h
    refine ⟨rule, rfl, List.mem_of_find?_eq_some hf, fun ⟨hc, hp⟩ => ?_⟩
    have hno := List.find?_some hf
    rw [hc, hp] at hno
    cases hno
  · split at h <;> cases h

/-- An operation is refused for a rule that lacks a slot. -/
theorem perform_eq_error (h : all.perform op = .error e) :
    ∃ rule, e = .unknownRule rule ∧ op.Lacks all rule := by
  cases op with
  | create entries element => cases h
  | install t r f =>
    obtain ⟨table, hg, hi⟩ := change_eq_error_iff.1 h
    obtain ⟨he, hr⟩ := install_eq_error_iff.1 hi
    exact ⟨r, he, rfl, table, hg, hr⟩
  | clearOverride t r =>
    obtain ⟨table, hg, hc⟩ := change_eq_error_iff.1 h
    obtain ⟨he, hr⟩ := clearOverride_eq_error_iff.1 hc
    exact ⟨r, he, rfl, table, hg, hr⟩
  | reset t =>
    obtain ⟨table, -, hr⟩ := change_eq_error_iff.1 h
    cases hr
  | setConstructor t c => cases h
  | chain child parent rules => exact chain_eq_error h

theorem exists_error_of_lacks (h : op.Lacks all rule) : ∃ e, all.perform op = .error e := by
  cases op with
  | create entries element => cases h
  | install t r f =>
    obtain ⟨rfl, table, hg, hr⟩ := h
    exact ⟨_, change_eq_error_iff.2 ⟨table, hg, install_eq_error_iff.2 ⟨rfl, hr⟩⟩⟩
  | clearOverride t r =>
    obtain ⟨rfl, table, hg, hr⟩ := h
    exact ⟨_, change_eq_error_iff.2 ⟨table, hg, clearOverride_eq_error_iff.2 ⟨rfl, hr⟩⟩⟩
  | reset t => cases h
  | setConstructor t c => cases h
  | chain child parent rules =>
    obtain ⟨hm, hno⟩ := h
    cases hc : all.chain child parent rules with
    | error e => exact ⟨e, hc⟩
    | ok next => exact absurd ((chain_eq_ok hc).1 rule hm) hno

theorem lookup_of_get? (hg : all.get? id = some table) (rule : Text) :
    all.lookup id rule = table.lookup rule := by
  rw [lookup, hg]

theorem parse_of_lookup {m : Type → Type} [Monad m] {f : RuleFn φ} (h : all.lookup id rule = .ok f)
    (run : φ → Nat → m Bool) (level : Nat) :
    all.parse run id rule level = .ok (all.call run f level) := by
  rw [parse, h]

/-- A table as its entry points and its history tell. -/
structure Recalls (all : LinkedTables φ ε) (id : TableId) (table : SlotTable φ ε)
    (entries : List (Text × RuleFn φ)) (element : ε) (history : List (TableOperation φ ε)) :
    Prop where
  get?_eq : all.get? id = some table
  mem_rules_iff : ∀ rule, rule ∈ table.rules ↔ rule ∈ entries.map Prod.fst
  /-- The override in force, or else the last entry point for the rule. -/
  lookup_eq : ∀ rule entry, entries.reverse.lookup rule = some entry →
    all.lookup id rule = .ok ((overrideAfter id rule history).getD entry)
  lookup_eq_error_iff : ∀ rule e, all.lookup id rule = .error e ↔
    e = .unknownRule rule ∧ rule ∉ entries.map Prod.fst
  parse_eq : ∀ (m : Type → Type) [Monad m] (run : φ → Nat → m Bool) (level : Nat) rule entry,
    entries.reverse.lookup rule = some entry → all.parse run id rule level =
      .ok (all.call run ((overrideAfter id rule history).getD entry) level)
  parse_eq_error_iff : ∀ (m : Type → Type) [Monad m] (run : φ → Nat → m Bool) (level : Nat) rule e,
    all.parse run id rule level = .error e ↔ e = .unknownRule rule ∧ rule ∉ entries.map Prod.fst
  isOverridden_iff : ∀ rule, table.isOverridden rule = true ↔
    rule ∈ entries.map Prod.fst ∧ (overrideAfter id rule history).isSome = true
  overrideCount_eq : table.overrideCount = ((entries.map Prod.fst).toFinset.filter fun rule =>
    (overrideAfter id rule history).isSome = true).card
  /-- An operation is refused if it lacks a slot. -/
  refused_of_lacks : ∀ op rule, op.Lacks all rule → ∃ e, all.perform op = .error e
  /-- Then all stays as it is. -/
  step_of_refused : ∀ op e, all.perform op = .error e →
    (∃ rule, e = .unknownRule rule ∧ op.Lacks all rule) ∧ all.step op = all
  get?_reset : (all.step (.reset id)).get? id = some (.ofEntries entries element)

theorem slot?_of_changed {entries : List (Text × RuleFn φ)} {element : ε}
    {effect : Text → Option (Option (RuleFn φ))} {rewire : Constructor ε → Constructor ε}
    (h : (ofEntries entries element).Changed id effect rewire table) (rule : Text) :
    table.slot? rule =
      (entries.reverse.lookup rule).map fun entry => ⟨rule, entry, (effect rule).join⟩ := by
  rw [h.slot?_eq, slot?_ofEntries, Option.map_map]
  congr 1
  funext entry
  cases effect rule <;> rfl

theorem reset_of_changed {entries : List (Text × RuleFn φ)} {element : ε}
    {effect : Text → Option (Option (RuleFn φ))} {rewire : Constructor ε → Constructor ε}
    (h : (ofEntries entries element).Changed id effect rewire table) :
    table.reset = ofEntries entries element := by
  apply SlotTable.ext_parts
  · rw [slots_reset, h.slots_eq, List.map_map]
    conv_rhs => rw [← List.map_id (ofEntries entries element).slots]
    apply List.map_congr_left
    intro slot hm
    have ho := override_ofEntries hm
    simp only [Function.comp, Slot.touch_touch, Option.some_or]
    rw [Slot.touch, ← ho]
    rfl
  · exact h.defaultElement_eq
  · exact (element_ofEntries entries element).symm

/-- The table that was made of some entry points is, after any operations on whatever tables, as
they and its history tell. -/
theorem exists_recalls_of_run (before : LinkedTables φ ε) (entries : List (Text × RuleFn φ))
    (element : ε) (ops : List (TableOperation φ ε)) :
    let made := before.add (.ofEntries entries element)
    ∃ table, Recalls (made.2.run ops) made.1 table entries element (made.2.history ops) := by
  intro made
  have hmade : made.2.get? made.1 = some (.ofEntries entries element) := get?_add_self _ _
  obtain ⟨table, hg, hc⟩ := get?_run hmade ops
  have hrules : ∀ rule, rule ∈ table.rules ↔ rule ∈ entries.map Prod.fst := by
    intro rule
    rw [hc.rules_eq, mem_rules_ofEntries]
  have hknown : ∀ rule entry, entries.reverse.lookup rule = some entry →
      (made.2.run ops).lookup made.1 rule =
        .ok ((overrideAfter made.1 rule (made.2.history ops)).getD entry) := by
    intro rule entry he
    rw [lookup_of_get? hg, SlotTable.lookup, slot?_of_changed hc, he]
    rfl
  have hunknown : ∀ rule e, (made.2.run ops).lookup made.1 rule = .error e ↔
      e = .unknownRule rule ∧ rule ∉ entries.map Prod.fst := by
    intro rule e
    rw [lookup_of_get? hg, ← hrules, ← slot?_eq_none_iff, SlotTable.lookup]
    cases table.slot? rule <;> simp [eq_comm]
  have hover : ∀ rule, table.isOverridden rule = true ↔ rule ∈ entries.map Prod.fst ∧
      (overrideAfter made.1 rule (made.2.history ops)).isSome = true := by
    intro rule
    rw [← hrules, ← not_not (a := rule ∈ table.rules), ← slot?_eq_none_iff, isOverridden,
      slot?_of_changed hc]
    cases entries.reverse.lookup rule <;> simp [Slot.isOverridden, overrideAfter]
  refine ⟨table, hg, hrules, hknown, hunknown, ?_, ?_, hover, ?_, ?_, ?_, ?_⟩
  · intro m _ run level rule entry he
    exact parse_of_lookup (hknown rule entry he) run level
  · intro m _ run level rule e
    rw [← hunknown rule e, parse]
    cases (made.2.run ops).lookup made.1 rule <;> simp
  · rw [SlotTable.overrideCount_eq]
    congr 1
    ext rule
    simp only [Finset.mem_filter, List.mem_toFinset, hover, hrules]
    tauto
  · intro op rule h
    exact exists_error_of_lacks h
  · intro op e h
    exact ⟨perform_eq_error h, step_of_error h⟩
  · have hp : (made.2.run ops).perform (.reset made.1) =
        .ok ((made.2.run ops).set made.1 table.reset) := by
      rw [perform, change, hg]
      rfl
    rw [step_of_ok hp, get?_set hg, if_pos rfl, reset_of_changed hc]

end LinkedTables
end OpenGrammar
