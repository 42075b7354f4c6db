import OpenGrammar.Proofs.ElementChains

/-! Tables that are chained more than once. A child that is asked again right after itself
has nothing new to say; no operation and no call tells tables that were chained once from
tables that were chained twice. -/
namespace OpenGrammar

variable {φ ε α : Type}

/-- Constructors that differ only in tables that are asked again right after themselves. -/
inductive Constructor.Same : Constructor ε → Constructor ε → Prop
  | own (e : ε) : Same (.own e) (.own e)
  | default (id : TableId) : Same (.default id) (.default id)
  | chained (id : TableId) {c d : Constructor ε} (h : Same c d) :
      Same (.chained id c) (.chained id d)
  | again (id : TableId) {c d : Constructor ε} (h : Same c d) :
      Same (.chained id (.chained id c)) (.chained id d)

namespace Constructor.Same

theorem refl (c : Constructor ε) : Same c c := by
  induction c with
  | own e => exact .own e
  | default id => exact .default id
  | chained id previous ih => exact .chained id ih

theorem rewire {c d : Constructor ε} (h : Same c d) (id : TableId) (op : TableOperation φ ε) :
    Same (op.rewire id c) (op.rewire id d) := by
  cases op with
  | create entries element => exact h
  | install t rule f => exact h
  | clearOverride t rule => exact h
  | reset t =>
    rw [TableOperation.rewire, TableOperation.rewire]
    split
    · exact refl _
    · exact h
  | setConstructor t e =>
    rw [TableOperation.rewire, TableOperation.rewire]
    split
    · exact refl _
    · exact h
  | chain child parent rules =>
    rw [TableOperation.rewire, TableOperation.rewire]
    split
    · exact .chained child h
    · exact h

end Constructor.Same

/-- Tables with the number that differ only in what their constructors ask again. -/
structure SlotTable.Alike (id : TableId) (t u : SlotTable φ ε) : Prop where
  slots_eq : t.slots = u.slots
  defaultElement_eq : t.defaultElement = u.defaultElement
  held_same : (t.held id).Same (u.held id)

theorem SlotTable.Alike.refl (id : TableId) (t : SlotTable φ ε) : t.Alike id t :=
  ⟨rfl, rfl, .refl _⟩

namespace LinkedTables

variable {a b a' b' : LinkedTables φ ε} {id : TableId} {rule : Text} {op : TableOperation φ ε}
  {make : ε → Option α}

open SlotTable TableOperation

def Alike (a b : LinkedTables φ ε) : Prop :=
  ∀ id, (a.get? id = none ∧ b.get? id = none) ∨
    ∃ t u, a.get? id = some t ∧ b.get? id = some u ∧ t.Alike id u

namespace Alike

theorem lookup_eq (h : Alike a b) (id : TableId) (rule : Text) :
    a.lookup id rule = b.lookup id rule := by
  rcases h id with ⟨ha, hb⟩ | ⟨t, u, ha, hb, ht⟩
  · rw [lookup, lookup, ha, hb]
  · simp only [lookup, ha, hb, SlotTable.lookup, slot?, ht.slots_eq]

theorem contains_eq (h : Alike a b) (id : TableId) (rule : Text) :
    a.contains id rule = b.contains id rule := by
  rcases h id with ⟨ha, hb⟩ | ⟨t, u, ha, hb, ht⟩
  · rw [contains, contains, ha, hb]
  · simp only [contains, ha, hb, Option.any_some, SlotTable.contains, rules, ht.slots_eq]

theorem length_eq (h : Alike a b) : a.tables.length = b.tables.length := by
  have hle : ∀ n, a.tables.length ≤ n ↔ b.tables.length ≤ n := by
    intro n
    rw [← get?_eq_none_iff, ← get?_eq_none_iff]
    rcases h n with ⟨ha, hb⟩ | ⟨t, u, ha, hb, -⟩ <;> simp [ha, hb]
  exact Nat.le_antisymm ((hle _).2 (Nat.le_refl _)) ((hle _).1 (Nat.le_refl _))

theorem lacks_iff (h : Alike a b) : op.Lacks a rule ↔ op.Lacks b rule := by
  have htable : ∀ id, (∃ t, a.get? id = some t ∧ rule ∉ t.rules) ↔
      ∃ t, b.get? id = some t ∧ rule ∉ t.rules := by
    intro id
    rcases h id with ⟨ha, hb⟩ | ⟨t, u, ha, hb, ht⟩
    · simp [ha, hb]
    · simp [ha, hb, rules, ht.slots_eq]
  cases op with
  | create entries element => rfl
  | install t r f => exact and_congr_right fun _ => htable t
  | clearOverride t r => exact and_congr_right fun _ => htable t
  | reset t => rfl
  | setConstructor t c => rfl
  | chain child parent rules => simp only [Lacks, h.contains_eq]

theorem perform (h : Alike a b) (ha : a.perform op = .ok a') (hb : b.perform op = .ok b') :
    Alike a' b' := by
  intro id
  rcases h id with ⟨hga, hgb⟩ | ⟨t, u, hga, hgb, ht⟩
  · rw [get?_perform_of_none ha hga, get?_perform_of_none hb hgb, h.length_eq]
    cases (if id = b.tables.length then op.made? else none) with
    | none => exact .inl ⟨rfl, rfl⟩
    | some t => exact .inr ⟨t, t, rfl, rfl, .refl id t⟩
  · obtain ⟨t', hga', hca⟩ := get?_perform ha hga
    obtain ⟨u', hgb', hcb⟩ := get?_perform hb hgb
    refine .inr ⟨t', u', hga', hgb', ?_, ?_, ?_⟩
    · rw [hca.slots_eq, hcb.slots_eq, ht.slots_eq]
    · rw [hca.defaultElement_eq, hcb.defaultElement_eq, ht.defaultElement_eq]
    · rw [hca.held_eq, hcb.held_eq]
      exact ht.held_same.rewire id op

theorem step (h : Alike a b) (op : TableOperation φ ε) : Alike (a.step op) (b.step op) := by
  cases ha : a.perform op with
  | error e =>
    obtain ⟨rule, -, hl⟩ := perform_eq_error ha
    obtain ⟨e', hb⟩ := exists_error_of_lacks (h.lacks_iff.1 hl)
    rwa [step_of_error ha, step_of_error hb]
  | ok a' =>
    cases hb : b.perform op with
    | error e =>
      obtain ⟨rule, -, hl⟩ := perform_eq_error hb
      obtain ⟨e', ha'⟩ := exists_error_of_lacks (h.lacks_iff.2 hl)
      cases ha.symm.trans ha'
    | ok b' =>
      rw [step_of_ok ha, step_of_ok hb]
      exact h.perform ha hb

theorem run (h : Alike a b) (ops : List (TableOperation φ ε)) : Alike (a.run ops) (b.run ops) := by
  induction ops generalizing a b with
  | nil => exact h
  | cons op ops ih => exact ih (h.step op)

/-! Calls -/

theorem slotCount_eq (h : Alike a b) : a.slotCount = b.slotCount := by
  have hslots : a.tables.map SlotTable.slots = b.tables.map SlotTable.slots := by
    apply List.ext_getElem?
    intro id
    rw [List.getElem?_map, List.getElem?_map]
    rcases h id with ⟨ha, hb⟩ | ⟨t, u, ha, hb, ht⟩
    · rw [get?] at ha hb
      rw [ha, hb]
    · rw [get?] at ha hb
      rw [ha, hb, Option.map_some, Option.map_some, ht.slots_eq]
  simp only [slotCount, List.flatMap_def, hslots]

theorem follow_eq (h : Alike a b) (fuel : Nat) (f : RuleFn φ) : a.follow fuel f = b.follow fuel f := by
  induction fuel generalizing f with
  | zero =>
    cases f with
    | own g => rfl
    | link id rule => simp only [follow, h.lookup_eq]
  | succ fuel ih =>
    cases f with
    | own g => rfl
    | link id rule => simp only [follow, h.lookup_eq, ih]

theorem parse_eq {m : Type → Type} [Monad m] (h : Alike a b) (run : φ → Nat → m Bool) (id : TableId)
    (rule : Text) (level : Nat) : a.parse run id rule level = b.parse run id rule level := by
  simp only [parse, call, target, h.lookup_eq, h.follow_eq, h.slotCount_eq]

theorem construct_eq (h : Alike a b) (fuel : Nat) {c d : Constructor ε} (hcd : c.Same d) :
    a.construct make fuel c = b.construct make fuel d := by
  have hdefault : ∀ id, (a.get? id).bind (fun t => make t.defaultElement) =
      (b.get? id).bind fun t => make t.defaultElement := by
    intro id
    rcases h id with ⟨ha, hb⟩ | ⟨t, u, ha, hb, ht⟩
    · rw [ha, hb]
    · rw [ha, hb, Option.bind_some, Option.bind_some, ht.defaultElement_eq]
  induction fuel generalizing c d with
  | zero =>
    induction hcd with
    | own e => rw [construct, construct]
    | default id => rw [construct, construct, hdefault]
    | chained id _ ih => rw [construct_chained_zero, construct_chained_zero, ih]
    | again id _ ih => rw [construct_chained_zero, construct_chained_zero, construct_chained_zero, ih]
  | succ fuel ihf =>
    have hasked : ∀ id, (a.constructor? id).bind (a.construct make fuel) =
        (b.constructor? id).bind (b.construct make fuel) := by
      intro id
      rcases h id with ⟨ha, hb⟩ | ⟨t, u, ha, hb, ht⟩
      · rw [constructor?, constructor?, ha, hb]
        rfl
      · rw [constructor?, constructor?, ha, hb]
        exact ihf ht.held_same
    induction hcd with
    | own e => rw [construct, construct]
    | default id => rw [construct, construct, hdefault]
    | chained id _ ih => rw [construct_chained_succ, construct_chained_succ, ih, hasked]
    | again id _ ih =>
      rw [construct_chained_succ, construct_chained_succ, construct_chained_succ, ih, hasked]
      cases (b.constructor? id).bind (b.construct make fuel) <;> rfl

theorem createElement_eq (h : Alike a b) (make : ε → Option α) (id : TableId) :
    a.createElement make id = b.createElement make id := by
  rw [createElement_eq_answer, createElement_eq_answer, h.length_eq]
  rcases h id with ⟨ha, hb⟩ | ⟨t, u, ha, hb, ht⟩
  · rw [constructor?, constructor?, ha, hb]
    rfl
  · rw [constructor?, constructor?, ha, hb]
    exact congrArg answer (h.construct_eq _ ht.held_same)

end Alike

variable {all start once : LinkedTables φ ε} {child parent : TableId} {rules : List Text}

theorem contains_perform (h : a.perform op = .ok a') (hc : a.contains id rule = true) :
    a'.contains id rule = true := by
  obtain ⟨t, hg, hm⟩ := exists_table_of_contains hc
  obtain ⟨t', hg', hch⟩ := get?_perform h hg
  rw [contains_eq_true_iff hg', hch.rules_eq]
  exact hm

/-- What was chained once can be chained again, and then all is alike. -/
theorem exists_chain_again (h : all.chain child parent rules = .ok once) :
    ∃ twice, once.chain child parent rules = .ok twice ∧ Alike twice once := by
  let op : TableOperation φ ε := .chain child parent rules
  have hop : all.perform op = .ok once := h
  cases htwice : once.chain child parent rules with
  | error e =>
    obtain ⟨rule, -, hm, hno⟩ := chain_eq_error htwice
    obtain ⟨hc, hp⟩ := (chain_eq_ok h).1 rule hm
    exact absurd ⟨contains_perform hop hc, contains_perform hop hp⟩ hno
  | ok twice =>
    have hop' : once.perform op = .ok twice := htwice
    refine ⟨twice, rfl, fun id => ?_⟩
    cases hg : all.get? id with
    | none =>
      have hnone : ∀ {x y : LinkedTables φ ε}, x.perform op = .ok y → x.get? id = none →
          y.get? id = none := fun hxy hx => by simpa [op, made?] using get?_perform_of_none hxy hx
      exact .inl ⟨hnone hop' (hnone hop hg), hnone hop hg⟩
    | some t =>
      obtain ⟨t', hg', hc⟩ := get?_perform hop hg
      obtain ⟨t'', hg'', hc'⟩ := get?_perform hop' hg'
      refine .inr ⟨t'', t', hg'', hg', ?_, hc'.defaultElement_eq, ?_⟩
      · rw [(hc.trans hc').slots_eq, hc.slots_eq]
        simp
      · rw [hc'.held_eq, hc.held_eq]
        simp only [op, rewire]
        split
        · exact .again child (.refl _)
        · exact .refl _

theorem constructor?_run {base : Constructor ε} (hbase : start.constructor? parent = some base)
    {ops : List (TableOperation φ ε)} (hkeep : ∀ op ∈ start.history ops, ¬op.Replaces parent) :
    (start.run ops).constructor? parent =
      some (base.behind (childrenIn parent (start.history ops))) := by
  obtain ⟨table, hg, rfl⟩ := constructor?_eq_some_iff.1 hbase
  obtain ⟨after, hg', hch⟩ := get?_run hg ops
  exact constructor?_eq_some_iff.2 ⟨after, hg', by rw [hch.held_eq, rewireAll_eq_behind hkeep]⟩

theorem toOption_createElement_eq_none_iff :
    (all.createElement make id).toOption = none ↔ all.createElement make id = .error .noMatch := by
  rw [createElement_eq_answer, toOption_answer, answer_eq_error_iff]
  simp

/-- If no table is chained into a descendant of its own, a table whose constructor is not
replaced answers each call: with the first element that one of its children makes, from
the last one back, or else with what the constructor that it had before makes. Neither
elements nor rules tell whether a child was chained once or twice in a row. -/
theorem createElement_of_chained {base : Constructor ε} {ops : List (TableOperation φ ε)}
    (hac : start.Acyclic) (hops : start.Orderly ops) (hbase : start.constructor? parent = some base)
    (hkeep : ∀ op ∈ start.history ops, ¬op.Replaces parent) (make : ε → Option α) :
    let all := start.run ops
    let children := childrenIn parent (start.history ops)
    (∃ last, Makes all make base last ∧
      let made := (children.reverse.findSome? fun child =>
        (all.createElement make child).toOption).or last
      (∃ c, all.constructor? parent = some c ∧ Makes all make c made) ∧
      all.createElement make parent = answer made ∧
      (all.createElement make parent = .error .noMatch ↔
        (∀ child ∈ children, all.createElement make child = .error .noMatch) ∧ last = none)) ∧
    ∀ child rules once, all.chain child parent rules = .ok once →
      ∃ twice, once.chain child parent rules = .ok twice ∧ ∀ later id,
        (twice.run later).createElement make id = (once.run later).createElement make id ∧
        ∀ (m : Type → Type) [Monad m] (run : φ → Nat → m Bool) rule level,
          (twice.run later).parse run id rule level = (once.run later).parse run id rule level := by
  intro all children
  constructor
  · have hend : all.Acyclic := acyclic_run hac hops
    have hc : all.constructor? parent = some (base.behind children) := constructor?_run hbase hkeep
    obtain ⟨last, hlast⟩ := exists_makes hend make base
    have hmade := makes_behind hend hlast children
    have hanswer := createElement_of_makes hend hc hmade
    refine ⟨last, hlast, ⟨_, hc, hmade⟩, hanswer, ?_⟩
    rw [hanswer, answer_eq_error_iff]
    simp [List.findSome?_eq_none_iff, toOption_createElement_eq_none_iff]
  · intro child rules once h
    obtain ⟨twice, htwice, halike⟩ := exists_chain_again h
    refine ⟨twice, htwice, fun later id => ⟨(halike.run later).createElement_eq make id, ?_⟩⟩
    intro m _ run rule level
    exact (halike.run later).parse_eq run id rule level

/-! A family of tables -/

theorem acyclic_empty : ({} : LinkedTables φ ε).Acyclic := by
  intro id h
  obtain ⟨other, ⟨c, hc, -⟩, -⟩ := Relation.TransGen.head'_iff.1 h
  cases hc

theorem not_reaches {other : TableId} {c : Constructor ε} (hc : all.constructor? id = some c)
    (hne : id ≠ other) (h : ∀ b ∈ c.tables, ¬Relation.ReflTransGen all.Asks b other) :
    ¬Relation.ReflTransGen all.Asks id other := by
  intro hr
  rcases Relation.ReflTransGen.cases_head hr with he | ⟨b, ⟨c', hc', hb⟩, hr⟩
  · exact hne he
  · cases hc.symm.trans hc'
    exact h b hb hr

def family : List (TableOperation Nat Nat) :=
  [.create [(['a'], .own 0)] 8, .create [(['a'], .own 1)] 3, .create [(['a'], .own 2)] 5,
    .create [(['a'], .own 3)] 4]

/-- The second child is chained twice, and what its own child makes is changed afterwards. -/
def familyTies : List (TableOperation Nat Nat) :=
  [.chain 3 2 [['a']], .chain 1 0 [['a']], .chain 2 0 [['a']], .chain 2 0 [['a']],
    .setConstructor 3 (.own 6)]

theorem orderly_familyTies : (({} : LinkedTables Nat Nat).run family).Orderly familyTies := by
  have hleaf : ∀ (all : LinkedTables Nat Nat) id other, all.constructor? id = some (.default id) →
      id ≠ other → ¬Relation.ReflTransGen all.Asks id other :=
    fun all id other hc hne => not_reaches hc hne (fun _ hb => (List.not_mem_nil hb).elim)
  refine ⟨?_, ?_, ?_, ?_, ?_, trivial⟩
  · rintro - - _ _ ⟨rfl, rfl⟩
    exact hleaf _ _ _ rfl (by decide)
  · rintro - - _ _ ⟨rfl, rfl⟩
    exact hleaf _ _ _ rfl (by decide)
  · rintro - - _ _ ⟨rfl, rfl⟩
    refine not_reaches (c := .chained 3 (.default 2)) rfl (by decide) fun b hb => ?_
    obtain rfl := List.mem_singleton.1 hb
    exact hleaf _ _ _ rfl (by decide)
  · rintro - - _ _ ⟨rfl, rfl⟩
    refine not_reaches (c := .chained 3 (.default 2)) rfl (by decide) fun b hb => ?_
    obtain rfl := List.mem_singleton.1 hb
    exact hleaf _ _ _ rfl (by decide)
  · rintro - - _ _ ⟨rfl, hb⟩
    exact (List.not_mem_nil hb).elim

theorem createElement_of_chained_family :
    let even : Nat → Option Nat := fun e => if e % 2 = 0 then some e else none
    let start := ({} : LinkedTables Nat Nat).run family
    start.Acyclic ∧ start.Orderly familyTies ∧ start.constructor? 0 = some (.default 0) ∧
      (∀ op ∈ start.history familyTies, ¬op.Replaces 0) ∧
      childrenIn 0 (start.history familyTies) = [1, 2, 2] ∧
      (start.run familyTies).createElement even 0 = .ok 6 := by
  intro even start
  have hac : start.Acyclic := acyclic_run acyclic_empty (by simp [family, Orderly, Links])
  have hbase : start.constructor? 0 = some (.default 0) := rfl
  have hkeep : ∀ op ∈ start.history familyTies, ¬op.Replaces 0 := by
    have hh : start.history familyTies = familyTies := rfl
    rw [hh]
    simp [familyTies, Replaces]
  have hchildren : childrenIn 0 (start.history familyTies) = [1, 2, 2] := rfl
  obtain ⟨⟨last, -, -, hanswer, -⟩, -⟩ :=
    createElement_of_chained hac orderly_familyTies hbase hkeep even
  refine ⟨hac, orderly_familyTies, hbase, hkeep, hchildren, ?_⟩
  have htwo : (start.run familyTies).constructor? 2 = some (.chained 3 (.default 2)) := rfl
  have hthree : (start.run familyTies).constructor? 3 = some (.own 6) := rfl
  have hmakes : Makes (start.run familyTies) even (.chained 3 (.default 2)) (some 6) :=
    .handled hthree (.own 6)
  have hsecond : (start.run familyTies).createElement even 2 = answer (some 6) :=
    createElement_of_makes (acyclic_run hac orderly_familyTies) htwo hmakes
  have hreverse : [1, 2, 2].reverse = [2, 2, 1] := rfl
  rw [hanswer, hchildren, hreverse, List.findSome?_cons, hsecond, toOption_answer]
  rfl

end LinkedTables
end OpenGrammar
