import OpenGrammar.Proofs.SlotHistory

/-! Rules of a child table that are bound into a parent table, one write after the other. All
rules are looked at before the first write, so a binding that is refused leaves no parent
with some of its slots bound and others not. -/
namespace OpenGrammar

variable {φ ε : Type}

/-- Work on tables in place. Work that fails keeps the tables as they were when it
failed. -/
abbrev TableWork (φ ε : Type) := ExceptT SlotError (StateM (LinkedTables φ ε))

namespace TableWork

def outcome {α : Type} (work : TableWork φ ε α) (all : LinkedTables φ ε) :
    Except SlotError α × LinkedTables φ ε := work.run.run all

def write (id : TableId) (f : SlotTable φ ε → SlotTable φ ε) : TableWork φ ε Unit :=
  modify fun all =>
    match all.get? id with
    | none => all
    | some table => all.set id (f table)

def demand (child parent : TableId) (rule : Text) : TableWork φ ε Unit := do
  let all ← get
  unless all.contains child rule && all.contains parent rule do
    throw (.unknownRule rule)

def linkSlot (child parent : TableId) (rule : Text) : TableWork φ ε Unit :=
  write parent fun table => table.setOverride rule (some (.link child rule))

/-- Puts the constructor of the child before the one that the parent holds. -/
def linkConstructor (child parent : TableId) : TableWork φ ε Unit :=
  write parent fun table => { table with element := some (.chained child (table.held parent)) }

def bindRules (child parent : TableId) (rules : List Text) : TableWork φ ε Unit := do
  forM rules (demand child parent)
  forM rules (linkSlot child parent)
  linkConstructor child parent

/-! What the work does, step by step -/

section Outcomes

variable {α β : Type} {all : LinkedTables φ ε} {child parent id : TableId} {rule : Text}
  {rules : List Text} {table : SlotTable φ ε}

@[simp] theorem outcome_pure (a : α) (all : LinkedTables φ ε) :
    (pure a : TableWork φ ε α).outcome all = (.ok a, all) := rfl

theorem outcome_bind (work : TableWork φ ε α) (next : α → TableWork φ ε β)
    (all : LinkedTables φ ε) : (work >>= next).outcome all =
      match work.outcome all with
      | (.ok a, mid) => (next a).outcome mid
      | (.error e, mid) => (.error e, mid) := by
  have hrun : (work >>= next).outcome all =
      (ExceptT.bindCont next (work.outcome all).1).run (work.outcome all).2 := rfl
  rw [hrun]
  obtain ⟨result, mid⟩ := work.outcome all
  cases result <;> rfl

theorem outcome_write (h : all.get? id = some table) (f : SlotTable φ ε → SlotTable φ ε) :
    (write id f).outcome all = (.ok (), all.set id (f table)) := by
  have hrun : (write id f).outcome all = (.ok (),
    match all.get? id with
    | none => all
    | some table => all.set id (f table)) := rfl
  rw [hrun, h]

theorem outcome_demand (child parent : TableId) (rule : Text) (all : LinkedTables φ ε) :
    (demand child parent rule).outcome all =
      (if all.contains child rule && all.contains parent rule then .ok ()
        else .error (.unknownRule rule), all) := by
  have hget : (get : TableWork φ ε _).outcome all = (.ok all, all) := rfl
  rw [demand, outcome_bind, hget]
  by_cases hc : (all.contains child rule && all.contains parent rule) = true
  · simp [hc]
  · simp only [hc]
    rfl

/-- Looking at all rules ends at the first one that lacks a slot, and writes nothing. -/
theorem outcome_forM_demand (child parent : TableId) (rules : List Text)
    (all : LinkedTables φ ε) : (forM rules (demand child parent)).outcome all =
      (match rules.find? fun rule => !(all.contains child rule && all.contains parent rule) with
        | some rule => .error (.unknownRule rule)
        | none => .ok (), all) := by
  induction rules with
  | nil => rfl
  | cons rule rules ih =>
    rw [List.forM_cons, outcome_bind, outcome_demand]
    cases hc : all.contains child rule && all.contains parent rule with
    | true =>
      rw [List.find?_cons_of_neg (by simp [hc])]
      exact ih
    | false => rw [List.find?_cons_of_pos (by simp [hc])]; rfl

/-- The slots of the parent are written in the order of the rules; the state on the way is that
of the rules so far. -/
theorem outcome_forM_linkSlot (h : all.get? parent = some table) (child : TableId)
    (rules : List Text) : (forM rules (linkSlot child parent)).outcome all =
      (.ok (), all.set parent
        (rules.foldl (fun t rule => t.setOverride rule (some (.link child rule))) table)) := by
  induction rules generalizing all table with
  | nil => rw [List.foldl_nil, LinkedTables.set_self h]; rfl
  | cons rule rules ih =>
    have hw : (linkSlot child parent rule).outcome all =
      (.ok (), all.set parent (table.setOverride rule (some (.link child rule)))) :=
        outcome_write h _
    have hn : (all.set parent (table.setOverride rule (some (.link child rule)))).get? parent =
        some (table.setOverride rule (some (.link child rule))) := by
      rw [LinkedTables.get?_set h, if_pos rfl]
    rw [List.forM_cons, outcome_bind, hw]
    simp only [ih hn, LinkedTables.set_set, List.foldl_cons]

/-- Bound write after write, the tables are those that the operation makes. -/
theorem outcome_bindRules (h : all.get? parent = some table) (child : TableId)
    (rules : List Text) : (bindRules child parent rules).outcome all =
      ((all.perform (.chain child parent rules)).map fun _ => (),
        all.step (.chain child parent rules)) := by
  simp only [bindRules, outcome_bind, outcome_forM_demand, LinkedTables.step,
    LinkedTables.perform, LinkedTables.chain, h]
  cases rules.find? fun rule => !(all.contains child rule && all.contains parent rule) with
  | some rule => rfl
  | none =>
    have hn := LinkedTables.get?_set h parent
      (rules.foldl (fun t rule => t.setOverride rule (some (.link child rule))) table)
    rw [if_pos rfl] at hn
    simp only [outcome_forM_linkSlot h, linkConstructor, outcome_write hn, LinkedTables.set_set, Except.map]
    rw [SlotTable.held, SlotTable.element_foldl_link]

end Outcomes

/-- Rules of a child are bound into its parent, and nothing else is touched. -/
structure Binds (child parent : TableId) (rules : List Text) (all next : LinkedTables φ ε)
    (before after : SlotTable φ ε) : Prop where
  get?_parent : next.get? parent = some after
  get?_of_ne : ∀ id, id ≠ parent → next.get? id = all.get? id
  rules_eq : after.rules = before.rules
  realEntry_eq : ∀ rule, after.realEntry rule = before.realEntry rule
  isOverridden_of_mem : ∀ rule ∈ rules, after.isOverridden rule = true
  /-- The parent calls what the child has for the rule at the time of the call. -/
  lookup_of_mem : ∀ rule ∈ rules, next.lookup parent rule = .ok (.link child rule)
  slot?_of_not_mem : ∀ rule, rule ∉ rules → after.slot? rule = before.slot? rule
  lookup_of_not_mem : ∀ rule, rule ∉ rules → next.lookup parent rule = all.lookup parent rule
  defaultElement_eq : after.defaultElement = before.defaultElement
  constructor?_eq : next.constructor? parent = (all.constructor? parent).map (.chained child)

section Binding

variable {all next : LinkedTables φ ε} {child parent : TableId} {rules : List Text}
  {c p : SlotTable φ ε}

open TableOperation in
theorem Binds.of_chain (h : all.chain child parent rules = .ok next)
    (hp : all.get? parent = some p) : ∃ after, Binds child parent rules all next p after := by
  obtain ⟨after, ha, hc⟩ := LinkedTables.get?_chain h hp
  have hmem : ∀ rule ∈ rules, after.slot? rule =
      (p.slot? rule).map fun slot => { slot with override := some (.link child rule) } := by
    intro rule hm
    rw [hc.slot?_eq, effect, if_pos ⟨rfl, hm⟩]
    rfl
  have hnot : ∀ rule, rule ∉ rules → after.slot? rule = p.slot? rule := by
    intro rule hm
    rw [hc.slot?_eq, effect, if_neg fun h => hm h.2]
    simp
  have hslot : ∀ rule ∈ rules, ∃ slot, p.slot? rule = some slot := by
    intro rule hm
    have hr := (LinkedTables.contains_eq_true_iff hp).1 ((LinkedTables.chain_eq_ok h).1 rule hm).2
    exact Option.ne_none_iff_exists'.1 fun hn => SlotTable.slot?_eq_none_iff.1 hn hr
  refine ⟨after, ha, ?_, hc.rules_eq, ?_, ?_, ?_, hnot, ?_, hc.defaultElement_eq, ?_⟩
  · intro id hid
    rcases (LinkedTables.chain_eq_ok h).2 with ⟨-, rfl⟩ | ⟨old, -, rfl⟩
    · rfl
    · exact List.getElem?_set_ne (Ne.symm hid)
  · intro rule
    rw [SlotTable.realEntry, SlotTable.realEntry, hc.slot?_eq]
    cases p.slot? rule with
    | none => rfl
    | some slot => cases (chain child parent rules : TableOperation φ ε).effect parent rule <;> rfl
  · intro rule hm
    obtain ⟨slot, hs⟩ := hslot rule hm
    rw [SlotTable.isOverridden, hmem rule hm, hs]
    rfl
  · intro rule hm
    obtain ⟨slot, hs⟩ := hslot rule hm
    rw [LinkedTables.lookup_of_get? ha, SlotTable.lookup, hmem rule hm, hs]
    rfl
  · intro rule hm
    rw [LinkedTables.lookup_of_get? ha, LinkedTables.lookup_of_get? hp, SlotTable.lookup,
      SlotTable.lookup, hnot rule hm]
  · have hheld := hc.held_eq
    rw [rewire, if_pos rfl] at hheld
    rw [LinkedTables.constructor?, LinkedTables.constructor?, ha, hp]
    exact congrArg some hheld

theorem contains_both_iff (hc : all.get? child = some c) (hp : all.get? parent = some p)
    (rule : Text) : (all.contains child rule && all.contains parent rule) = true ↔
      rule ∈ c.rules ∧ rule ∈ p.rules := by
  rw [Bool.and_eq_true, LinkedTables.contains_eq_true_iff hc, LinkedTables.contains_eq_true_iff hp]

/-- A list of rules is refused for the first one that lacks a slot in the child or in the
parent. -/
theorem chain_eq_error_of_lacks {front back : List Text} {rule : Text}
    (hc : all.get? child = some c) (hp : all.get? parent = some p)
    (hfront : ∀ r ∈ front, r ∈ c.rules ∧ r ∈ p.rules) (hrule : ¬(rule ∈ c.rules ∧ rule ∈ p.rules)) :
    all.chain child parent (front ++ rule :: back) = .error (.unknownRule rule) := by
  have hfind : ((front ++ rule :: back).find? fun r =>
      !(all.contains child r && all.contains parent r)) = some rule := by
    rw [List.find?_append, List.find?_eq_none.2, Option.none_or, List.find?_cons_of_pos]
    · rw [← contains_both_iff hc hp, Bool.not_eq_true] at hrule
      rw [hrule, Bool.not_false]
    · intro r hr
      rw [(contains_both_iff hc hp r).2 (hfront r hr), Bool.not_true]
      exact Bool.false_ne_true
  rw [LinkedTables.chain, hfind]

theorem exists_chain_eq_ok (hc : all.get? child = some c) (hp : all.get? parent = some p)
    (h : ∀ rule ∈ rules, rule ∈ c.rules ∧ rule ∈ p.rules) :
    ∃ next, all.chain child parent rules = .ok next := by
  have hfind : (rules.find? fun r => !(all.contains child r && all.contains parent r)) = none := by
    refine List.find?_eq_none.2 fun r hr => ?_
    rw [(contains_both_iff hc hp r).2 (h r hr), Bool.not_true]
    exact Bool.false_ne_true
  simp only [LinkedTables.chain, hfind, hp]
  exact ⟨_, rfl⟩

/-- Binding is all or nothing. The first rule that lacks a slot is refused, and then every table
is as it was; otherwise the parent has exactly the rules bound, and the child is as it was. -/
theorem bindRules_all_or_nothing (hne : child ≠ parent) (hc : all.get? child = some c)
    (hp : all.get? parent = some p) (rules : List Text) :
    (bindRules child parent rules).outcome all =
      ((all.perform (.chain child parent rules)).map fun _ => (),
        all.step (.chain child parent rules)) ∧
    (∀ front rule back, rules = front ++ rule :: back →
      (∀ r ∈ front, r ∈ c.rules ∧ r ∈ p.rules) → ¬(rule ∈ c.rules ∧ rule ∈ p.rules) →
      (bindRules child parent rules).outcome all = (.error (.unknownRule rule), all)) ∧
    ((∀ rule ∈ rules, rule ∈ c.rules ∧ rule ∈ p.rules) → ∃ next after,
      (bindRules child parent rules).outcome all = (.ok (), next) ∧
      next.get? child = some c ∧ Binds child parent rules all next p after) := by
  have hout := outcome_bindRules hp child rules
  refine ⟨hout, ?_, ?_⟩
  · intro front rule back hsplit hfront hrule
    have hperform : all.perform (.chain child parent rules) = .error (.unknownRule rule) := by
      rw [LinkedTables.perform, hsplit, chain_eq_error_of_lacks hc hp hfront hrule]
    rw [hout, LinkedTables.step_of_error hperform, hperform]
    rfl
  · intro hall
    obtain ⟨next, hchain⟩ := exists_chain_eq_ok hc hp hall
    have hperform : all.perform (.chain child parent rules) = .ok next := hchain
    obtain ⟨after, hb⟩ := Binds.of_chain hchain hp
    refine ⟨next, after, ?_, ?_, hb⟩
    · rw [hout, LinkedTables.step_of_ok hperform, hperform]
      rfl
    · rw [hb.get?_of_ne child hne, hc]

def aParent : SlotTable String String :=
  .ofEntries [(['r'], .own "r"), (['a'], .own "a"), (['b'], .own "b")] "parent"

def aChild : SlotTable String String :=
  .ofEntries [(['b'], .own "b"), (['a'], .own "a"), (['c'], .own "c")] "child"

theorem bindRules_all_or_nothing_pair :
    (bindRules 1 0 [['a'], ['c'], ['r']]).outcome ⟨[aParent, aChild]⟩ =
      (.error (.unknownRule ['c']), ⟨[aParent, aChild]⟩) ∧
    ∃ next after, (bindRules 1 0 [['a'], ['b'], ['a']]).outcome ⟨[aParent, aChild]⟩ =
        (.ok (), next) ∧
      next.get? 1 = some aChild ∧
      Binds 1 0 [['a'], ['b'], ['a']] ⟨[aParent, aChild]⟩ next aParent after := by
  have h := @bindRules_all_or_nothing _ _ ⟨[aParent, aChild]⟩ 1 0 _ _ (by decide) rfl rfl
  exact ⟨(h _).2.1 [['a']] ['c'] [['r']] rfl (by decide) (by decide),
    (h [['a'], ['b'], ['a']]).2.2 (by decide)⟩

end Binding
end TableWork
end OpenGrammar
