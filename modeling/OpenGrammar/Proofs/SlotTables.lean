import Mathlib.Data.Finset.Card
import Mathlib.Data.List.Nodup
import OpenGrammar.SlotTable.Operation

/-! One slot table among all. Whatever is done, the slots of a table keep their rules and
entry points; an operation changes overrides and the constructor, and what a run
makes of them is told by its history alone. -/
namespace OpenGrammar
namespace Slot

variable {φ : Type}

def touch (effect : Option (Option (RuleFn φ))) (slot : Slot φ) : Slot φ :=
  match effect with
  | none => slot
  | some override => { slot with override }

@[simp] theorem touch_none (slot : Slot φ) : slot.touch none = slot := rfl

@[simp] theorem rule_touch (effect : Option (Option (RuleFn φ))) (slot : Slot φ) :
    (slot.touch effect).rule = slot.rule := by
  cases effect <;> rfl

@[simp] theorem override_touch (effect : Option (Option (RuleFn φ))) (slot : Slot φ) :
    (slot.touch effect).override = effect.getD slot.override := by
  cases effect <;> rfl

theorem touch_touch (first second : Option (Option (RuleFn φ))) (slot : Slot φ) :
    (slot.touch first).touch second = slot.touch (second.or first) := by
  cases second <;> cases first <;> rfl

end Slot

namespace SlotTable

variable {φ ε : Type} {table : SlotTable φ ε} {rule : Text} {slot : Slot φ}

theorem mem_rules_iff : rule ∈ table.rules ↔ ∃ slot ∈ table.slots, slot.rule = rule := List.mem_map

theorem contains_eq_true_iff : table.contains rule = true ↔ rule ∈ table.rules :=
  List.contains_iff_mem

theorem slot?_eq_some_iff : table.slot? rule = some slot ↔ slot ∈ table.slots ∧ slot.rule = rule := by
  constructor
  · intro h
    exact ⟨List.mem_of_find?_eq_some h, by simpa using List.find?_some h⟩
  · rintro ⟨hm, rfl⟩
    cases hf : table.slot? slot.rule with
    | none => exact absurd (List.find?_eq_none.1 hf slot hm) (by simp)
    | some other =>
      have hr : other.rule = slot.rule := by simpa using List.find?_some hf
      rw [List.inj_on_of_nodup_map table.nodup (List.mem_of_find?_eq_some hf) hm hr]

theorem slot?_eq_none_iff : table.slot? rule = none ↔ rule ∉ table.rules := by
  simp only [slot?, List.find?_eq_none, beq_iff_eq, mem_rules_iff]
  exact ⟨fun h ⟨slot, hm, hr⟩ => h slot hm hr, fun h slot hm hr => h ⟨slot, hm, hr⟩⟩

theorem overrideCount_eq : table.overrideCount =
    (table.rules.toFinset.filter fun rule => table.isOverridden rule = true).card := by
  have hcount : table.overrideCount = table.rules.countP table.isOverridden := by
    rw [overrideCount, rules, List.countP_map]
    apply List.countP_congr
    intro slot hm
    have hs : table.slot? slot.rule = some slot := slot?_eq_some_iff.2 ⟨hm, rfl⟩
    simp [isOverridden, hs]
  have hnodup : (table.rules.filter table.isOverridden).Nodup := table.nodup.filter _
  rw [hcount, List.countP_eq_length_filter, ← List.toFinset_filter,
    List.toFinset_card_of_nodup hnodup]

theorem ext_parts {other : SlotTable φ ε} (hs : table.slots = other.slots)
    (hd : table.defaultElement = other.defaultElement) (he : table.element = other.element) :
    table = other := by
  cases table
  cases other
  cases hs
  cases hd
  cases he
  rfl

/-! Tables of entry points -/

theorem slot?_register (table : SlotTable φ ε) (r : Text) (entry : RuleFn φ) (rule : Text) :
    (table.register r entry).slot? rule =
      if rule = r then some ⟨r, entry, none⟩ else table.slot? rule := by
  unfold register
  split
  · rename_i hm
    obtain ⟨slot, hs, rfl⟩ := List.mem_map.1 hm
    simp only [slot?, List.find?_map]
    have hcomp : ((fun s : Slot φ => s.rule == rule) ∘ update slot.rule fun _ => (entry, none)) =
        fun s => s.rule == rule := by
      funext s
      simp only [Function.comp, update]
      split <;> rfl
    rw [hcomp]
    by_cases hr : rule = slot.rule
    · subst hr
      have hf : table.slots.find? (·.rule == slot.rule) = some slot :=
        slot?_eq_some_iff.2 ⟨hs, rfl⟩
      simp [hf, update]
    · rw [if_neg hr]
      cases hf : table.slots.find? (·.rule == rule) with
      | none => rfl
      | some other =>
        have ho : other.rule = rule := by simpa using List.find?_some hf
        have hne : other.rule ≠ slot.rule := fun h => hr (ho.symm.trans h)
        simp [update, hne]
  · rename_i hm
    simp only [slot?, List.find?_append]
    by_cases hr : rule = r
    · subst hr
      have hf : table.slots.find? (·.rule == rule) = none := slot?_eq_none_iff.2 hm
      simp [hf]
    · simp [hr, Ne.symm hr]

/-- Of several entry points for one rule the last one counts. -/
theorem slot?_ofEntries (entries : List (Text × RuleFn φ)) (element : ε) (rule : Text) :
    (ofEntries entries element).slot? rule =
      (entries.reverse.lookup rule).map fun entry => ⟨rule, entry, none⟩ := by
  induction entries using List.reverseRecOn with
  | nil => rfl
  | append_singleton entries last ih =>
    obtain ⟨r, entry⟩ := last
    rw [ofEntries, List.foldl_append, ← ofEntries]
    simp only [List.foldl_cons, List.foldl_nil, slot?_register, List.reverse_append,
      List.reverse_singleton, List.singleton_append, List.lookup_cons]
    by_cases hr : rule = r
    · simp [hr]
    · have hne : (rule == r) = false := by simpa using hr
      simp [hr, hne, ih]

theorem mem_rules_ofEntries (entries : List (Text × RuleFn φ)) (element : ε) (rule : Text) :
    rule ∈ (ofEntries entries element).rules ↔ rule ∈ entries.map Prod.fst := by
  rw [← not_iff_not, ← slot?_eq_none_iff, slot?_ofEntries, Option.map_eq_none_iff,
    List.lookup_eq_none_iff]
  simp only [List.mem_reverse, bne_iff_ne, List.mem_map]
  exact ⟨fun h ⟨entry, hm, hr⟩ => h entry hm hr.symm, fun h entry hm hr => h ⟨entry, hm, hr.symm⟩⟩

theorem slots_ofEntries {entries : List (Text × RuleFn φ)} (h : (entries.map Prod.fst).Nodup)
    (element : ε) :
    (ofEntries entries element).slots = entries.map fun entry => ⟨entry.1, entry.2, none⟩ := by
  induction entries using List.reverseRecOn with
  | nil => rfl
  | append_singleton entries last ih =>
    obtain ⟨rule, entry⟩ := last
    rw [List.map_append, List.nodup_append] at h
    have hnew : rule ∉ (ofEntries entries element).slots.map Slot.rule := by
      intro hm
      exact h.2.2 rule ((mem_rules_ofEntries entries element rule).1 hm) rule (by simp) rfl
    rw [ofEntries, List.foldl_append, ← ofEntries]
    simp only [List.foldl_cons, List.foldl_nil, register, dif_neg hnew]
    rw [ih h.1, List.map_append, List.map_cons, List.map_nil]

theorem override_ofEntries {entries : List (Text × RuleFn φ)} {element : ε}
    (h : slot ∈ (ofEntries entries element).slots) : slot.override = none := by
  have hs := slot?_eq_some_iff.2 ⟨h, rfl⟩
  rw [slot?_ofEntries] at hs
  obtain ⟨entry, -, he⟩ := Option.map_eq_some_iff.1 hs
  rw [← he]

theorem element_ofEntries (entries : List (Text × RuleFn φ)) (element : ε) :
    (ofEntries entries element).element = none := by
  induction entries using List.reverseRecOn with
  | nil => rfl
  | append_singleton entries last ih =>
    rw [ofEntries, List.foldl_append, ← ofEntries]
    simp only [List.foldl_cons, List.foldl_nil, register]
    split <;> exact ih

/-! Changes of a table -/

def held (table : SlotTable φ ε) (id : TableId) : Constructor ε := table.element.getD (.default id)

/-- One table before and after a change: `effect` tells what becomes of the override of each
rule, and `rewire` what becomes of the constructor. -/
structure Changed (id : TableId) (effect : Text → Option (Option (RuleFn φ)))
    (rewire : Constructor ε → Constructor ε) (before after : SlotTable φ ε) : Prop where
  slots_eq : after.slots = before.slots.map fun slot => slot.touch (effect slot.rule)
  defaultElement_eq : after.defaultElement = before.defaultElement
  held_eq : after.held id = rewire (before.held id)

theorem slots_setOverride (table : SlotTable φ ε) (rule : Text) (override : Option (RuleFn φ)) :
    (table.setOverride rule override).slots =
      table.slots.map fun slot => slot.touch (if slot.rule = rule then some override else none) := by
  apply List.map_congr_left
  intro slot _
  by_cases h : slot.rule = rule <;> simp [update, h, Slot.touch]

theorem slots_reset (table : SlotTable φ ε) :
    table.reset.slots = table.slots.map fun slot => slot.touch (some none) := rfl

theorem slots_foldl_link (child : TableId) (rules : List Text) (table : SlotTable φ ε) :
    (rules.foldl (fun t rule => t.setOverride rule (some (.link child rule))) table).slots =
      table.slots.map fun slot =>
        slot.touch (if slot.rule ∈ rules then some (some (.link child slot.rule)) else none) := by
  induction rules generalizing table with
  | nil => simp
  | cons rule rules ih =>
    rw [List.foldl_cons, ih, slots_setOverride, List.map_map]
    apply List.map_congr_left
    intro slot _
    simp only [Function.comp, Slot.rule_touch, Slot.touch_touch, List.mem_cons]
    by_cases hr : slot.rule = rule
    · by_cases hm : rule ∈ rules <;> simp [hr, hm]
    · by_cases hm : slot.rule ∈ rules <;> simp [hr, hm]

theorem defaultElement_foldl_link (child : TableId) (rules : List Text) (table : SlotTable φ ε) :
    (rules.foldl (fun t rule => t.setOverride rule (some (.link child rule))) table).defaultElement =
      table.defaultElement := by
  induction rules generalizing table with
  | nil => rfl
  | cons rule rules ih => exact ih _

theorem element_foldl_link (child : TableId) (rules : List Text) (table : SlotTable φ ε) :
    (rules.foldl (fun t rule => t.setOverride rule (some (.link child rule))) table).element =
      table.element := by
  induction rules generalizing table with
  | nil => rfl
  | cons rule rules ih => exact ih _

theorem install_eq_ok {new : SlotTable φ ε} {rule : Text} {f : RuleFn φ}
    (h : table.install rule f = .ok new) : new = table.setOverride rule (some f) := by
  unfold install at h
  split at h
  · exact (Except.ok.inj h).symm
  · cases h

theorem clearOverride_eq_ok {new : SlotTable φ ε} {rule : Text}
    (h : table.clearOverride rule = .ok new) : new = table.setOverride rule none := by
  unfold clearOverride at h
  split at h
  · exact (Except.ok.inj h).symm
  · cases h

namespace Changed

variable {id : TableId} {before middle after : SlotTable φ ε}
  {effect effect' : Text → Option (Option (RuleFn φ))} {rewire rewire' : Constructor ε → Constructor ε}

theorem of_unchanged (he : ∀ rule, effect rule = none) (hr : ∀ c, rewire c = c)
    (table : SlotTable φ ε) : Changed id effect rewire table table :=
  ⟨by simp [he], rfl, (hr _).symm⟩

theorem trans (h : Changed id effect rewire before middle)
    (h' : Changed id effect' rewire' middle after) :
    Changed id (fun rule => (effect' rule).or (effect rule)) (fun c => rewire' (rewire c))
      before after := by
  refine ⟨?_, h'.defaultElement_eq.trans h.defaultElement_eq, ?_⟩
  · rw [h'.slots_eq, h.slots_eq, List.map_map]
    simp [Function.comp_def, Slot.touch_touch]
  · rw [h'.held_eq, h.held_eq]

theorem rules_eq (h : Changed id effect rewire before after) : after.rules = before.rules := by
  rw [rules, h.slots_eq, List.map_map]
  simp [Function.comp_def, rules]

theorem slot?_eq (h : Changed id effect rewire before after) (rule : Text) :
    after.slot? rule = (before.slot? rule).map fun slot => slot.touch (effect rule) := by
  simp only [slot?, h.slots_eq, List.find?_map, Function.comp_def, Slot.rule_touch]
  cases hf : before.slots.find? (·.rule == rule) with
  | none => rfl
  | some slot =>
    have hr : slot.rule = rule := by simpa using List.find?_some hf
    simp [hr]

end Changed
end SlotTable

namespace TableOperation

variable {φ ε : Type}

/-- What an operation does to the override of a slot. -/
def effect (id : TableId) (rule : Text) : TableOperation φ ε → Option (Option (RuleFn φ))
  | .install table r f => if table = id ∧ rule = r then some (some f) else none
  | .clearOverride table r => if table = id ∧ rule = r then some none else none
  | .reset table => if table = id then some none else none
  | .chain child parent rules =>
    if parent = id ∧ rule ∈ rules then some (some (.link child rule)) else none
  | .create _ _ | .setConstructor _ _ => none

/-- What an operation does to the constructor of a table. -/
def rewire (id : TableId) : TableOperation φ ε → Constructor ε → Constructor ε
  | .reset table, c => if table = id then .default id else c
  | .setConstructor table d, c => if table = id then d else c
  | .chain child parent _, c => if parent = id then .chained child c else c
  | .create _ _, c | .install _ _ _, c | .clearOverride _ _, c => c

def made? : TableOperation φ ε → Option (SlotTable φ ε)
  | .create entries element => some (.ofEntries entries element)
  | .install _ _ _ | .clearOverride _ _ | .reset _ | .setConstructor _ _ | .chain _ _ _ => none

/-- What a history does to the override of a slot: what the last operation on it does. -/
def lastEffect (id : TableId) (rule : Text) (history : List (TableOperation φ ε)) :
    Option (Option (RuleFn φ)) :=
  (history.filterMap (effect id rule)).getLast?

/-- The override that a history leaves in a slot that had none: the one that was put there last,
unless it was taken away again. -/
def overrideAfter (id : TableId) (rule : Text) (history : List (TableOperation φ ε)) :
    Option (RuleFn φ) :=
  (lastEffect id rule history).join

def rewireAll (id : TableId) (history : List (TableOperation φ ε)) (c : Constructor ε) :
    Constructor ε :=
  history.foldl (fun c op => op.rewire id c) c

theorem held_of_made? {op : TableOperation φ ε} {table : SlotTable φ ε}
    (h : op.made? = some table) (id : TableId) : table.held id = .default id := by
  cases op with
  | create entries element =>
    cases h
    rw [SlotTable.held, SlotTable.element_ofEntries]
    rfl
  | install t rule f => cases h
  | clearOverride t rule => cases h
  | reset t => cases h
  | setConstructor t c => cases h
  | chain child parent rules => cases h

@[simp] theorem lastEffect_nil (id : TableId) (rule : Text) :
    lastEffect id rule ([] : List (TableOperation φ ε)) = none := rfl

theorem lastEffect_cons (id : TableId) (rule : Text) (op : TableOperation φ ε)
    (history : List (TableOperation φ ε)) :
    lastEffect id rule (op :: history) = (lastEffect id rule history).or (op.effect id rule) := by
  unfold lastEffect
  cases h : op.effect id rule with
  | none => simp [h]
  | some o =>
    rw [List.filterMap_cons_some h, List.getLast?_cons]
    cases (history.filterMap (effect id rule)).getLast? <;> rfl

theorem lastEffect_eq_none {id : TableId} {rule : Text} {history : List (TableOperation φ ε)}
    (h : ∀ op ∈ history, op.effect id rule = none) : lastEffect id rule history = none := by
  rw [lastEffect, List.filterMap_eq_nil_iff.2 h]
  rfl

end TableOperation

namespace LinkedTables

variable {φ ε : Type} {all next : LinkedTables φ ε} {id : TableId} {table : SlotTable φ ε}
  {op : TableOperation φ ε}

open SlotTable TableOperation

theorem get?_set (h : all.get? id = some table) (t : TableId) (new : SlotTable φ ε) :
    (all.set t new).get? id = some (if t = id then new else table) := by
  simp only [get?, set] at h ⊢
  rw [List.getElem?_set]
  have hlt := (List.getElem?_eq_some_iff.1 h).1
  by_cases ht : t = id
  · subst ht
    simp [hlt]
  · simp [ht, h]

theorem set_set (all : LinkedTables φ ε) (id : TableId) (first second : SlotTable φ ε) :
    (all.set id first).set id second = all.set id second := by
  simp [set]

theorem set_self (h : all.get? id = some table) : all.set id table = all := by
  obtain ⟨hlt, hg⟩ := List.getElem?_eq_some_iff.1 h
  rw [set, ← hg, List.set_getElem_self]

theorem get?_add (h : all.get? id = some table) (new : SlotTable φ ε) :
    (all.add new).2.get? id = some table := by
  simp only [get?, add] at h ⊢
  rw [List.getElem?_append_left (List.getElem?_eq_some_iff.1 h).1, h]

theorem get?_add_self (all : LinkedTables φ ε) (new : SlotTable φ ε) :
    (all.add new).2.get? (all.add new).1 = some new := by
  simp [get?, add]

theorem contains_eq_true_iff {rule : Text} (h : all.get? id = some table) :
    all.contains id rule = true ↔ rule ∈ table.rules := by
  rw [contains, h]
  exact SlotTable.contains_eq_true_iff

theorem exists_table_of_contains {rule : Text} (h : all.contains id rule = true) :
    ∃ table, all.get? id = some table ∧ rule ∈ table.rules := by
  cases hg : all.get? id with
  | none =>
    rw [contains, hg] at h
    cases h
  | some table => exact ⟨table, rfl, (contains_eq_true_iff hg).1 h⟩

theorem change_eq_ok {t : TableId} {f : SlotTable φ ε → Except SlotError (SlotTable φ ε)}
    (h : all.change t f = .ok next) :
    (all.get? t = none ∧ next = all) ∨
      ∃ old new, all.get? t = some old ∧ f old = .ok new ∧ next = all.set t new := by
  unfold change at h
  cases hg : all.get? t with
  | none =>
    rw [hg] at h
    cases h
    exact .inl ⟨rfl, rfl⟩
  | some old =>
    simp only [hg] at h
    cases hf : f old with
    | error e =>
      rw [hf] at h
      cases h
    | ok new =>
      rw [hf] at h
      cases h
      exact .inr ⟨old, new, rfl, hf, rfl⟩

theorem get?_change {t : TableId} {f : SlotTable φ ε → Except SlotError (SlotTable φ ε)}
    (h : all.change t f = .ok next) (hg : all.get? id = some table) :
    (t ≠ id ∧ next.get? id = some table) ∨
      ∃ new, t = id ∧ f table = .ok new ∧ next.get? id = some new := by
  rcases change_eq_ok h with ⟨hn, rfl⟩ | ⟨old, new, ho, hf, rfl⟩
  · refine .inl ⟨?_, hg⟩
    rintro rfl
    rw [hn] at hg
    cases hg
  · by_cases ht : t = id
    · subst ht
      obtain rfl : old = table := Option.some.inj (ho.symm.trans hg)
      exact .inr ⟨new, rfl, hf, by rw [get?_set hg, if_pos rfl]⟩
    · exact .inl ⟨ht, by rw [get?_set hg, if_neg ht]⟩

theorem get?_setConstructor (hg : all.get? id = some table) (t : TableId) (c : Constructor ε) :
    ∃ after, (all.setConstructor t c).get? id = some after ∧
      table.Changed id (fun _ => none) (fun d => if t = id then c else d) after := by
  by_cases ht : t = id
  · subst ht
    cases c with
    | default owner =>
      refine ⟨_, by simp only [setConstructor, hg]; exact get?_set hg _ _, ?_⟩
      by_cases ho : owner = t
      · subst ho
        exact ⟨by simp, by simp, by simp [held]⟩
      · exact ⟨by simp, by simp, by simp [held, ho]⟩
    | own make =>
      refine ⟨_, by simp only [setConstructor, hg]; exact get?_set hg _ _, ?_⟩
      exact ⟨by simp, by simp, by simp [held]⟩
    | chained child previous =>
      refine ⟨_, by simp only [setConstructor, hg]; exact get?_set hg _ _, ?_⟩
      exact ⟨by simp, by simp, by simp [held]⟩
  · refine ⟨table, ?_, Changed.of_unchanged (fun _ => rfl) (by simp [ht]) table⟩
    unfold setConstructor
    split
    · exact hg
    · split <;> rw [get?_set hg, if_neg ht]

theorem chain_eq_ok {child parent : TableId} {rules : List Text}
    (h : all.chain child parent rules = .ok next) :
    (∀ rule ∈ rules, all.contains child rule = true ∧ all.contains parent rule = true) ∧
      ((all.get? parent = none ∧ next = all) ∨
        ∃ old, all.get? parent = some old ∧
          next = all.set parent
            { rules.foldl (fun t rule => t.setOverride rule (some (.link child rule))) old with
              element := some (.chained child (old.held parent)) }) := by
  unfold chain at h
  split at h
  · cases h
  · rename_i hf
    refine ⟨fun rule hm => by simpa using List.find?_eq_none.1 hf rule hm, ?_⟩
    split at h
    · rename_i hg
      cases h
      exact .inl ⟨hg, rfl⟩
    · rename_i old hg
      cases h
      exact .inr ⟨old, hg, rfl⟩

theorem get?_chain {child parent : TableId} {rules : List Text}
    (h : all.chain child parent rules = .ok next) (hg : all.get? id = some table) :
    ∃ after, next.get? id = some after ∧
      table.Changed id ((TableOperation.chain child parent rules : TableOperation φ ε).effect id)
        ((TableOperation.chain child parent rules : TableOperation φ ε).rewire id) after := by
  by_cases hp : parent = id
  · subst hp
    rcases (chain_eq_ok h).2 with ⟨hn, -⟩ | ⟨old, ho, rfl⟩
    · rw [hg] at hn
      cases hn
    · obtain rfl : old = table := Option.some.inj (ho.symm.trans hg)
      refine ⟨_, get?_set hg _ _, ?_⟩
      rw [if_pos rfl]
      refine ⟨?_, defaultElement_foldl_link child rules old, by simp [held, rewire]⟩
      simpa [effect] using slots_foldl_link child rules old
  · refine ⟨table, ?_, Changed.of_unchanged (by simp [effect, hp]) (by simp [rewire, hp]) table⟩
    rcases (chain_eq_ok h).2 with ⟨-, rfl⟩ | ⟨old, -, rfl⟩
    · exact hg
    · rw [get?_set hg, if_neg hp]

/-- What an operation makes of each table that is there. -/
theorem get?_perform (h : all.perform op = .ok next) (hg : all.get? id = some table) :
    ∃ after, next.get? id = some after ∧ table.Changed id (op.effect id) (op.rewire id) after := by
  cases op with
  | create entries element =>
    cases h
    exact ⟨table, get?_add hg _, Changed.of_unchanged (fun _ => rfl) (fun _ => rfl) table⟩
  | install t rule f =>
    rcases get?_change h hg with ⟨ht, hn⟩ | ⟨new, rfl, hi, hn⟩
    · exact ⟨table, hn, Changed.of_unchanged (by simp [effect, ht]) (fun _ => rfl) table⟩
    · obtain rfl := install_eq_ok hi
      exact ⟨_, hn, by simpa [effect] using slots_setOverride table rule (some f), rfl, rfl⟩
  | clearOverride t rule =>
    rcases get?_change h hg with ⟨ht, hn⟩ | ⟨new, rfl, hc, hn⟩
    · exact ⟨table, hn, Changed.of_unchanged (by simp [effect, ht]) (fun _ => rfl) table⟩
    · obtain rfl := clearOverride_eq_ok hc
      exact ⟨_, hn, by simpa [effect] using slots_setOverride table rule none, rfl, rfl⟩
  | reset t =>
    rcases get?_change h hg with ⟨ht, hn⟩ | ⟨new, rfl, hr, hn⟩
    · exact ⟨table, hn, Changed.of_unchanged (by simp [effect, ht]) (by simp [rewire, ht]) table⟩
    · cases hr
      refine ⟨_, hn, ⟨?_, rfl, by simp [held, rewire, SlotTable.reset]⟩⟩
      simpa [effect] using slots_reset table
  | setConstructor t c =>
    cases h
    exact get?_setConstructor hg t c
  | chain child parent rules => exact get?_chain h hg

theorem get?_eq_none_iff : all.get? id = none ↔ all.tables.length ≤ id := List.getElem?_eq_none_iff

theorem get?_set_of_none (h : all.get? id = none) (t : TableId) (new : SlotTable φ ε) :
    (all.set t new).get? id = none := by
  rw [get?_eq_none_iff] at h ⊢
  rwa [set, List.length_set]

/-- Of the tables that were not there only one that was made is there after an operation. -/
theorem get?_perform_of_none (h : all.perform op = .ok next) (hn : all.get? id = none) :
    next.get? id = if id = all.tables.length then op.made? else none := by
  have hchange : ∀ t f, all.change t f = .ok next → next.get? id = none := by
    intro t f hc
    rcases change_eq_ok hc with ⟨-, rfl⟩ | ⟨old, new, -, -, rfl⟩
    · exact hn
    · exact get?_set_of_none hn t new
  cases op with
  | create entries element =>
    cases h
    split
    · rename_i hid
      subst hid
      exact get?_add_self all _
    · rename_i hid
      rw [get?_eq_none_iff] at hn ⊢
      rw [add, List.length_append]
      exact Nat.lt_of_le_of_ne hn (Ne.symm hid)
  | install t rule f => simpa [made?] using hchange t _ h
  | clearOverride t rule => simpa [made?] using hchange t _ h
  | reset t => simpa [made?] using hchange t _ h
  | setConstructor t c =>
    cases h
    have hset : (all.setConstructor t c).get? id = none := by
      unfold setConstructor
      split
      · exact hn
      · split <;> exact get?_set_of_none hn _ _
    simpa [made?] using hset
  | chain child parent rules =>
    have hset : next.get? id = none := by
      rcases (chain_eq_ok h).2 with ⟨-, rfl⟩ | ⟨old, -, rfl⟩
      · exact hn
      · exact get?_set_of_none hn _ _
    simpa [made?] using hset

@[simp] theorem run_nil (all : LinkedTables φ ε) : all.run [] = all := rfl

@[simp] theorem run_cons (all : LinkedTables φ ε) (op : TableOperation φ ε)
    (ops : List (TableOperation φ ε)) : all.run (op :: ops) = (all.step op).run ops := rfl

theorem step_of_ok (h : all.perform op = .ok next) : all.step op = next := by rw [step, h]

theorem step_of_error {e : SlotError} (h : all.perform op = .error e) : all.step op = all := by
  rw [step, h]

theorem history_cons_of_ok (h : all.perform op = .ok next) (ops : List (TableOperation φ ε)) :
    all.history (op :: ops) = op :: next.history ops := by
  rw [history, h]

theorem history_cons_of_error {e : SlotError} (h : all.perform op = .error e)
    (ops : List (TableOperation φ ε)) : all.history (op :: ops) = all.history ops := by
  rw [history, h]

/-- What a run makes of each table that is there at its start. -/
theorem get?_run (hg : all.get? id = some table) (ops : List (TableOperation φ ε)) :
    ∃ after, (all.run ops).get? id = some after ∧
      table.Changed id (fun rule => lastEffect id rule (all.history ops))
        (rewireAll id (all.history ops)) after := by
  induction ops generalizing all table with
  | nil => exact ⟨table, hg, Changed.of_unchanged (fun _ => rfl) (fun _ => rfl) table⟩
  | cons op ops ih =>
    cases hp : all.perform op with
    | error e =>
      rw [run_cons, step_of_error hp, history_cons_of_error hp]
      exact ih hg
    | ok next =>
      rw [run_cons, step_of_ok hp, history_cons_of_ok hp]
      obtain ⟨middle, hm, hc⟩ := get?_perform hp hg
      obtain ⟨after, ha, hc'⟩ := ih hm
      refine ⟨after, ha, ?_⟩
      have ht := hc.trans hc'
      simp only [← lastEffect_cons] at ht
      exact ht

end LinkedTables
end OpenGrammar
