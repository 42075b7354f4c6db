import Mathlib.Logic.Relation
import OpenGrammar.Proofs.SlotHistory

/-! Links from slots to the slots of other tables. A call that ends passes no slot twice, so
that the bound on the links that are followed is never felt, and any other call runs in a
circle; a slot that was bound to a child table is parsed with what the child has at the time
of the call. -/
namespace OpenGrammar

variable {φ ε : Type} {all next : LinkedTables φ ε} {id : TableId} {rule : Text} {f : RuleFn φ} {g : φ}
  {t : CallTarget φ} {path : List (TableId × Text)} {op : TableOperation φ ε}

namespace LinkedTables

open SlotTable TableOperation

/-! The end of a call -/

/-- The slots that a call passes until it comes to its end. -/
inductive Leads (all : LinkedTables φ ε) : List (TableId × Text) → RuleFn φ → CallTarget φ → Prop
  | own (g : φ) : Leads all [] (.own g) (.function g)
  | missing {id : TableId} {rule : Text} {e : SlotError} (hl : all.lookup id rule = .error e) :
      Leads all [] (.link id rule) .missing
  | link {id : TableId} {rule : Text} {f : RuleFn φ} {path : List (TableId × Text)}
      {t : CallTarget φ} (hl : all.lookup id rule = .ok f) (h : Leads all path f t) :
      Leads all ((id, rule) :: path) (.link id rule) t

namespace Leads

theorem unique {path' : List (TableId × Text)} {t' : CallTarget φ} (h : Leads all path f t)
    (h' : Leads all path' f t') : path = path' ∧ t = t' := by
  induction h generalizing path' with
  | own g =>
    cases h'
    exact ⟨rfl, rfl⟩
  | missing hl =>
    cases h' with
    | missing _ => exact ⟨rfl, rfl⟩
    | link hl' _ => cases hl.symm.trans hl'
  | link hl h ih =>
    cases h' with
    | missing hl' => cases hl.symm.trans hl'
    | link hl' h' =>
      cases hl.symm.trans hl'
      obtain ⟨hp, ht⟩ := ih h'
      exact ⟨by rw [hp], ht⟩

theorem of_append {first : List (TableId × Text)}
    (h : Leads all (first ++ (id, rule) :: path) f t) :
    Leads all ((id, rule) :: path) (.link id rule) t := by
  induction first generalizing f with
  | nil =>
    cases h with
    | link hl h => exact .link hl h
  | cons slot first ih =>
    cases h with
    | link hl h => exact ih h

/-- A call that came to a slot for the second time would come to it for ever. -/
theorem nodup (h : Leads all path f t) : path.Nodup := by
  induction h with
  | own g => exact List.nodup_nil
  | missing hl => exact List.nodup_nil
  | @link id rule f path t hl h ih =>
    refine List.nodup_cons.2 ⟨fun hm => ?_, ih⟩
    obtain ⟨first, last, rfl⟩ := List.append_of_mem hm
    have hlen := congrArg List.length ((Leads.link hl h).unique h.of_append).1
    simp only [List.length_cons, List.length_append] at hlen
    omega

end Leads

def slotKeys (all : LinkedTables φ ε) : List (TableId × Text) :=
  all.tables.zipIdx.flatMap fun p => p.1.slots.map fun slot => (p.2, slot.rule)

theorem length_slotKeys (all : LinkedTables φ ε) : all.slotKeys.length = all.slotCount := by
  have hmap : all.tables.map (fun t => t.slots.length) =
      all.tables.zipIdx.map fun p => p.1.slots.length := by
    conv_lhs => rw [← List.zipIdx_map_fst 0 all.tables, List.map_map]
    rfl
  simp only [slotKeys, slotCount, List.length_flatMap, List.length_map, hmap]

theorem mem_slotKeys (h : all.lookup id rule = .ok f) : (id, rule) ∈ all.slotKeys := by
  unfold lookup at h
  split at h
  · rename_i table hg
    unfold SlotTable.lookup at h
    split at h
    · rename_i slot hs
      obtain ⟨hm, rfl⟩ := slot?_eq_some_iff.1 hs
      exact List.mem_flatMap.2
        ⟨(table, id), List.mk_mem_zipIdx_iff_getElem?.2 hg, List.mem_map.2 ⟨slot, hm, rfl⟩⟩
    · cases h
  · cases h

theorem Leads.length_le (h : Leads all path f t) : path.length ≤ all.slotCount := by
  have hsub : path ⊆ all.slotKeys := by
    induction h with
    | own g => exact List.nil_subset _
    | missing hl => exact List.nil_subset _
    | link hl h ih => exact List.cons_subset.2 ⟨mem_slotKeys hl, ih⟩
  rw [← length_slotKeys]
  exact (h.nodup.subperm hsub).length_le

theorem follow_link_of_error {e : SlotError} (h : all.lookup id rule = .error e) (fuel : Nat) :
    all.follow fuel (.link id rule) = .missing := by
  cases fuel <;> simp only [follow, h]

theorem follow_of_leads {fuel : Nat} (h : Leads all path f t) (hlen : path.length ≤ fuel) :
    all.follow fuel f = t := by
  induction h generalizing fuel with
  | own g => cases fuel <;> rfl
  | missing hl => exact follow_link_of_error hl fuel
  | link hl h ih =>
    obtain ⟨fuel, rfl⟩ : ∃ n, fuel = n + 1 := ⟨fuel - 1, by simp at hlen; omega⟩
    simp only [follow, hl]
    exact ih (Nat.le_of_succ_le_succ hlen)

theorem exists_leads_of_follow {fuel : Nat} (ht : all.follow fuel f ≠ .endless) :
    ∃ path, Leads all path f (all.follow fuel f) := by
  induction fuel generalizing f with
  | zero =>
    cases f with
    | own g => exact ⟨[], .own g⟩
    | link id rule =>
      cases hl : all.lookup id rule with
      | error e => exact ⟨[], follow_link_of_error hl 0 ▸ .missing hl⟩
      | ok f => simp [follow, hl] at ht
  | succ fuel ih =>
    cases f with
    | own g => exact ⟨[], .own g⟩
    | link id rule =>
      cases hl : all.lookup id rule with
      | error e => exact ⟨[], follow_link_of_error hl (fuel + 1) ▸ .missing hl⟩
      | ok f =>
        have hstep : all.follow (fuel + 1) (.link id rule) = all.follow fuel f := by
          simp only [follow, hl]
        rw [hstep] at ht ⊢
        obtain ⟨path, hp⟩ := ih ht
        exact ⟨(id, rule) :: path, .link hl hp⟩

/-- The bound on the links that are followed is no bound on the calls that end. -/
theorem target_eq_iff (ht : t ≠ .endless) : all.target f = t ↔ ∃ path, Leads all path f t := by
  constructor
  · rintro rfl
    exact exists_leads_of_follow ht
  · rintro ⟨path, hp⟩
    exact follow_of_leads hp hp.length_le

theorem target_link (h : all.lookup id rule = .ok f) :
    all.target (.link id rule) = all.target f := by
  have hiff : ∀ t ≠ CallTarget.endless, all.target (.link id rule) = t ↔ all.target f = t := by
    intro t ht
    rw [target_eq_iff ht, target_eq_iff ht]
    constructor
    · rintro ⟨path, hp⟩
      cases hp with
      | missing hl => cases h.symm.trans hl
      | link hl hp =>
        cases h.symm.trans hl
        exact ⟨_, hp⟩
    · rintro ⟨path, hp⟩
      exact ⟨_, .link h hp⟩
  by_cases ht : all.target f = .endless
  · rw [ht]
    by_contra hne
    exact hne ((hiff _ hne).1 rfl ▸ ht)
  · exact (hiff _ ht).2 rfl

/-- From the slot a call passes link after link without end. -/
def Circling (all : LinkedTables φ ε) (slot : TableId × Text) : Prop :=
  ∃ slots : Nat → TableId × Text, slots 0 = slot ∧
    ∀ n, all.lookup (slots n).1 (slots n).2 = .ok (.link (slots (n + 1)).1 (slots (n + 1)).2)

theorem exists_next_of_endless (h : all.target (.link id rule) = .endless) : ∃ id' rule',
    all.lookup id rule = .ok (.link id' rule') ∧ all.target (.link id' rule') = .endless := by
  cases hl : all.lookup id rule with
  | error e =>
    rw [target, follow_link_of_error hl] at h
    cases h
  | ok f =>
    rw [target_link hl] at h
    cases f with
    | own g =>
      have hown : all.target (.own g) = .function g := follow_of_leads (.own g) (Nat.zero_le _)
      rw [hown] at h
      cases h
    | link id' rule' => exact ⟨id', rule', rfl, h⟩

theorem target_eq_endless_iff : all.target (.link id rule) = .endless ↔ all.Circling (id, rule) := by
  constructor
  · intro h
    have hnext (slot : {p : TableId × Text // all.target (.link p.1 p.2) = .endless}) :
        ∃ slot' : {p : TableId × Text // all.target (.link p.1 p.2) = .endless},
          all.lookup slot.1.1 slot.1.2 = .ok (.link slot'.1.1 slot'.1.2) := by
      obtain ⟨id', rule', hl, ht⟩ := exists_next_of_endless slot.2
      exact ⟨⟨(id', rule'), ht⟩, hl⟩
    choose step hstep using hnext
    refine ⟨fun n => (step^[n] ⟨(id, rule), h⟩).1, rfl, fun n => ?_⟩
    simp only [Function.iterate_succ_apply']
    exact hstep _
  · rintro ⟨slots, hstart, hstep⟩
    by_contra hne
    obtain ⟨path, hp⟩ := (target_eq_iff hne).1 rfl
    generalize all.target (.link id rule) = t at hne hp
    generalize hf : RuleFn.link id rule = f at hp
    have hfirst : f = .link (slots 0).1 (slots 0).2 := by rw [← hf, hstart]
    clear hf hstart hne
    -- The call stays on the circle, whatever it has passed.
    induction hp generalizing slots with
    | own g => cases hfirst
    | missing hl =>
      cases hfirst
      cases hl.symm.trans (hstep 0)
    | link hl h ih =>
      cases hfirst
      cases hl.symm.trans (hstep 0)
      exact ih (fun n => slots (n + 1)) (fun n => hstep (n + 1)) rfl

end LinkedTables

/-! Links to slots that are there -/

/-- A function that is no link, or a link to a slot that is there. Chaining makes no other
links. -/
def RuleFn.Grounded (all : LinkedTables φ ε) : RuleFn φ → Prop
  | .own _ => True
  | .link id rule => all.contains id rule = true

def TableOperation.Grounded (all : LinkedTables φ ε) : TableOperation φ ε → Prop
  | .create entries _ => ∀ entry ∈ entries, entry.2.Grounded all
  | .install _ _ f => f.Grounded all
  | .clearOverride _ _ | .reset _ | .setConstructor _ _ | .chain _ _ _ => True

namespace LinkedTables

open SlotTable TableOperation

/-- Tables whose entry points and overrides are grounded. -/
def Grounded (all : LinkedTables φ ε) : Prop :=
  ∀ id table, all.get? id = some table → ∀ slot ∈ table.slots,
    slot.entry.Grounded all ∧ ∀ f ∈ slot.override, f.Grounded all

def GroundedRun (all : LinkedTables φ ε) : List (TableOperation φ ε) → Prop
  | [] => True
  | op :: ops => op.Grounded all ∧ GroundedRun (all.step op) ops

/-- No table loses a slot. -/
theorem contains_of_perform (h : all.perform op = .ok next) (hc : all.contains id rule = true) :
    next.contains id rule = true := by
  obtain ⟨table, hg, hm⟩ := exists_table_of_contains hc
  obtain ⟨after, hg', hch⟩ := get?_perform h hg
  rw [contains_eq_true_iff hg', hch.rules_eq]
  exact hm

theorem grounded_of_perform (h : all.perform op = .ok next) (hf : f.Grounded all) :
    f.Grounded next := by
  cases f with
  | own g => trivial
  | link id rule => exact contains_of_perform h hf

theorem grounded_of_effect (h : all.perform op = .ok next) (ho : op.Grounded all)
    (he : op.effect id rule = some (some f)) : f.Grounded all := by
  cases op with
  | install t r f' =>
    simp only [effect] at he
    split at he <;> cases he
    exact ho
  | chain child parent rules =>
    simp only [effect] at he
    split at he
    · rename_i hm
      cases he
      exact ((chain_eq_ok h).1 rule hm.2).1
    · cases he
  | clearOverride t r =>
    simp only [effect] at he
    split at he <;> cases he
  | reset t =>
    simp only [effect] at he
    split at he <;> cases he
  | create entries element => cases he
  | setConstructor t c => cases he

theorem grounded_of_made? {table : SlotTable φ ε} (ho : op.Grounded all) (hm : op.made? = some table) :
    ∀ slot ∈ table.slots, slot.entry.Grounded all ∧ ∀ f ∈ slot.override, f.Grounded all := by
  cases op with
  | create entries element =>
    cases hm
    intro slot hslot
    have hs := slot?_eq_some_iff.2 ⟨hslot, rfl⟩
    rw [slot?_ofEntries] at hs
    obtain ⟨entry, hentry, hs⟩ := Option.map_eq_some_iff.1 hs
    obtain ⟨later, earlier, hsplit, -⟩ := List.lookup_eq_some_iff.1 hentry
    have hmem : (slot.rule, entry) ∈ entries := by
      rw [← List.mem_reverse, hsplit]
      simp
    rw [← hs]
    exact ⟨ho _ hmem, nofun⟩
  | install t r f => cases hm
  | clearOverride t r => cases hm
  | reset t => cases hm
  | setConstructor t c => cases hm
  | chain child parent rules => cases hm

theorem Grounded.perform (hall : all.Grounded) (ho : op.Grounded all) (h : all.perform op = .ok next) :
    next.Grounded := by
  intro id after hg slot hslot
  suffices slot.entry.Grounded all ∧ ∀ f ∈ slot.override, f.Grounded all from
    ⟨grounded_of_perform h this.1, fun f hf => grounded_of_perform h (this.2 f hf)⟩
  cases hbefore : all.get? id with
  | none =>
    rw [get?_perform_of_none h hbefore] at hg
    split at hg
    · exact grounded_of_made? ho hg slot hslot
    · cases hg
  | some table =>
    obtain ⟨after', hg', hch⟩ := get?_perform h hbefore
    obtain rfl : after' = after := Option.some.inj (hg'.symm.trans hg)
    rw [hch.slots_eq] at hslot
    obtain ⟨old, hold, rfl⟩ := List.mem_map.1 hslot
    obtain ⟨hentry, hoverride⟩ := hall id table hbefore old hold
    cases he : op.effect id old.rule with
    | none => exact ⟨hentry, hoverride⟩
    | some override =>
      refine ⟨hentry, fun f hf => ?_⟩
      obtain rfl : override = some f := hf
      exact grounded_of_effect h ho he

theorem Grounded.run {ops : List (TableOperation φ ε)} (hall : all.Grounded)
    (hops : all.GroundedRun ops) : (all.run ops).Grounded := by
  induction ops generalizing all with
  | nil => exact hall
  | cons op ops ih =>
    refine ih ?_ hops.2
    cases hp : all.perform op with
    | error e => rwa [step_of_error hp]
    | ok next =>
      rw [step_of_ok hp]
      exact hall.perform hops.1 hp

theorem Grounded.lookup (hall : all.Grounded) (h : all.lookup id rule = .ok f) : f.Grounded all := by
  unfold LinkedTables.lookup at h
  split at h
  · rename_i table hg
    unfold SlotTable.lookup at h
    split at h
    · rename_i slot hs
      cases h
      obtain ⟨hentry, hoverride⟩ := hall id table hg slot (slot?_eq_some_iff.1 hs).1
      rw [Slot.current]
      cases ho : slot.override with
      | none => exact hentry
      | some f => exact hoverride f ho
    · cases h
  · cases h

theorem exists_lookup_of_contains (h : all.contains id rule = true) :
    ∃ f, all.lookup id rule = .ok f := by
  obtain ⟨table, hg, hm⟩ := exists_table_of_contains h
  rw [lookup_of_get? hg, SlotTable.lookup]
  cases hs : table.slot? rule with
  | none => exact absurd hm (slot?_eq_none_iff.1 hs)
  | some slot => exact ⟨slot.current, rfl⟩

theorem contains_of_lookup (h : all.lookup id rule = .ok f) : all.contains id rule = true := by
  unfold LinkedTables.lookup at h
  split at h
  · rename_i table hg
    rw [contains_eq_true_iff hg]
    by_contra hm
    rw [SlotTable.lookup, slot?_eq_none_iff.2 hm] at h
    cases h
  · cases h

/-- No call comes to a slot that is not there. -/
theorem Grounded.target_ne_missing (hall : all.Grounded) (hf : f.Grounded all) :
    all.target f ≠ .missing := by
  intro hmissing
  obtain ⟨path, hp⟩ := (target_eq_iff (by simp)).1 hmissing
  clear hmissing
  generalize hend : CallTarget.missing = t at hp
  induction hp with
  | own g => cases hend
  | missing hl =>
    obtain ⟨f, hthere⟩ := exists_lookup_of_contains hf
    cases hl.symm.trans hthere
  | link hl h ih => exact ih (hall.lookup hl) hend

/-! Bound slots -/

/-- The history has bound the rule of a parent table to a child table, and no later operation
is about that slot of the parent. -/
def Bound (history : List (TableOperation φ ε)) (rule : Text) (parent child : TableId) : Prop :=
  ∃ earlier rules later, history = earlier ++ .chain child parent rules :: later ∧ rule ∈ rules ∧
    ∀ op ∈ later, op.effect parent rule = none

theorem exists_perform_of_history {ops earlier later : List (TableOperation φ ε)}
    {op : TableOperation φ ε} (h : all.history ops = earlier ++ op :: later) :
    ∃ (before after : LinkedTables φ ε) (rest : List (TableOperation φ ε)),
      before.perform op = .ok after ∧ after.history rest = later ∧ after.run rest = all.run ops := by
  induction ops generalizing all earlier with
  | nil => simp [history] at h
  | cons first ops ih =>
    cases hp : all.perform first with
    | error e =>
      rw [history_cons_of_error hp] at h
      rw [run_cons, step_of_error hp]
      exact ih h
    | ok next =>
      rw [history_cons_of_ok hp] at h
      rw [run_cons, step_of_ok hp]
      cases earlier with
      | nil =>
        obtain ⟨rfl, hlater⟩ := List.cons.inj h
        exact ⟨all, next, ops, hp, hlater, rfl⟩
      | cons head earlier => exact ih (List.cons.inj h).2

/-- A bound slot holds the link, and the child never loses its slot. -/
theorem lookup_of_bound {ops : List (TableOperation φ ε)} {parent child : TableId}
    (h : Bound (all.history ops) rule parent child) :
    (all.run ops).lookup parent rule = .ok (.link child rule) ∧
      ∃ f, (all.run ops).lookup child rule = .ok f := by
  obtain ⟨earlier, rules, later, hh, hr, hkeep⟩ := h
  obtain ⟨before, after, rest, hp, rfl, hrun⟩ := exists_perform_of_history hh
  obtain ⟨hc, hpar⟩ := (chain_eq_ok hp).1 rule hr
  obtain ⟨ctable, hcg, hcm⟩ := exists_table_of_contains hc
  obtain ⟨ptable, hpg, hpm⟩ := exists_table_of_contains hpar
  rw [← hrun]
  constructor
  · obtain ⟨ptable', hpg', hch⟩ := get?_perform hp hpg
    obtain ⟨ptable'', hpg'', hch'⟩ := get?_run hpg' rest
    have hbound := (hch.trans hch').slot?_eq rule
    rw [lookup_of_get? hpg'', SlotTable.lookup, hbound, lastEffect_eq_none hkeep]
    cases hs : ptable.slot? rule with
    | none => exact absurd hpm (slot?_eq_none_iff.1 hs)
    | some slot => simp [effect, hr, Slot.current]
  · obtain ⟨ctable', hcg', hch⟩ := get?_perform hp hcg
    obtain ⟨ctable'', hcg'', hch'⟩ := get?_run hcg' rest
    exact exists_lookup_of_contains
      ((contains_eq_true_iff hcg'').2 (by rw [hch'.rules_eq, hch.rules_eq]; exact hcm))

theorem exists_call_of_bound {ops : List (TableOperation φ ε)} {parent child : TableId}
    (h : Bound (all.history ops) rule parent child) :
    ∃ f, (all.run ops).lookup parent rule = .ok (.link child rule) ∧
      (all.run ops).lookup child rule = .ok f ∧
      ∀ (m : Type → Type) [Monad m] (run : φ → Nat → m Bool) (level : Nat),
        (all.run ops).parse run parent rule level = .ok ((all.run ops).call run f level) ∧
        (all.run ops).parse run child rule level = .ok ((all.run ops).call run f level) := by
  obtain ⟨hlink, f, hf⟩ := lookup_of_bound h
  refine ⟨f, hlink, hf, fun m _ run level => ⟨?_, parse_of_lookup hf run level⟩⟩
  rw [parse_of_lookup hlink run level, call, call, target_link hf]

/-- Where all links are to slots that are there, a slot is parsed with a function, unless the call
runs in a circle. -/
theorem Grounded.parse (hall : all.Grounded) (h : all.contains id rule = true) :
    (∃ g, ∀ (m : Type → Type) [Monad m] (run : φ → Nat → m Bool) (level : Nat),
      all.parse run id rule level = .ok (some (run g level))) ∨
    (all.Circling (id, rule) ∧ ∀ (m : Type → Type) [Monad m] (run : φ → Nat → m Bool) (level : Nat),
      all.parse run id rule level = .ok none) := by
  obtain ⟨f, hf⟩ := exists_lookup_of_contains h
  have hparse (m : Type → Type) [Monad m] (run : φ → Nat → m Bool) (level : Nat) :
      all.parse run id rule level = .ok (all.call run f level) := parse_of_lookup hf run level
  cases ht : all.target f with
  | function g =>
    refine .inl ⟨g, fun m _ run level => ?_⟩
    rw [hparse, call, ht]
  | missing => exact absurd ht (hall.target_ne_missing (hall.lookup hf))
  | endless =>
    refine .inr ⟨target_eq_endless_iff.1 (by rw [target_link hf, ht]), fun m _ run level => ?_⟩
    rw [hparse, call, ht]

/-- What a bound slot is parsed with is what the child has for the rule now, and it always has
something; so all tables of a row in which each is bound to the next parse the rule
alike. As long as no other links than those of chained tables are brought in, a function
parses the rule, unless the tables are chained in a circle and the call never returns. -/
theorem parse_of_bound (start : LinkedTables φ ε) (ops : List (TableOperation φ ε)) (rule : Text) :
    (∀ parent child, Bound (start.history ops) rule parent child →
      ∃ f, (start.run ops).lookup parent rule = .ok (.link child rule) ∧
        (start.run ops).lookup child rule = .ok f ∧
        ∀ (m : Type → Type) [Monad m] (run : φ → Nat → m Bool) (level : Nat),
          (start.run ops).parse run parent rule level = .ok ((start.run ops).call run f level) ∧
          (start.run ops).parse run child rule level = .ok ((start.run ops).call run f level)) ∧
    (start.Grounded → start.GroundedRun ops →
      ∀ parent child, Bound (start.history ops) rule parent child →
        (∃ g, ∀ (m : Type → Type) [Monad m] (run : φ → Nat → m Bool) (level : Nat),
          (start.run ops).parse run parent rule level = .ok (some (run g level))) ∨
        ((start.run ops).Circling (parent, rule) ∧
          ∀ (m : Type → Type) [Monad m] (run : φ → Nat → m Bool) (level : Nat),
            (start.run ops).parse run parent rule level = .ok none)) ∧
    ∀ first last, Relation.ReflTransGen (Bound (start.history ops) rule) first last →
      ∀ (m : Type → Type) [Monad m] (run : φ → Nat → m Bool) (level : Nat),
        (start.run ops).parse run first rule level = (start.run ops).parse run last rule level := by
  refine ⟨fun parent child h => exists_call_of_bound h, fun hstart hops parent child h => ?_,
    fun first last h m _ run level => ?_⟩
  · obtain ⟨f, hlink, -⟩ := exists_call_of_bound h
    exact (hstart.run hops).parse (contains_of_lookup hlink)
  · induction h with
    | refl => rfl
    | tail _ hb ih =>
      obtain ⟨f, -, -, hparse⟩ := exists_call_of_bound hb
      obtain ⟨hparent, hchild⟩ := hparse m run level
      rw [ih, hparent, hchild]

/-- Three tables for one rule, each bound to the next, of which the last gets an override
afterwards. -/
def rowOfThree : List (TableOperation Nat Nat) :=
  [.create [(['a'], .own 0)] 0, .create [(['a'], .own 1)] 1, .create [(['a'], .own 2)] 2,
    .chain 1 0 [['a']], .chain 2 1 [['a']], .install 2 ['a'] (.own 7)]

theorem parse_of_bound_rowOfThree :
    ({} : LinkedTables Nat Nat).Grounded ∧ ({} : LinkedTables Nat Nat).GroundedRun rowOfThree ∧
      Bound (({} : LinkedTables Nat Nat).history rowOfThree) ['a'] 0 1 ∧
      Bound (({} : LinkedTables Nat Nat).history rowOfThree) ['a'] 1 2 ∧
      ∀ (run : Nat → Nat → StateM (List Nat) Bool) (level : Nat),
        (({} : LinkedTables Nat Nat).run rowOfThree).parse run 0 ['a'] level =
          .ok (some (run 7 level)) := by
  have hstart : ({} : LinkedTables Nat Nat).Grounded := nofun
  have hops : ({} : LinkedTables Nat Nat).GroundedRun rowOfThree := by
    simp [rowOfThree, GroundedRun, TableOperation.Grounded, RuleFn.Grounded]
  have hfirst : Bound (({} : LinkedTables Nat Nat).history rowOfThree) ['a'] 0 1 :=
    ⟨rowOfThree.take 3, [['a']], rowOfThree.drop 4, by rfl, by decide, by decide⟩
  have hsecond : Bound (({} : LinkedTables Nat Nat).history rowOfThree) ['a'] 1 2 :=
    ⟨rowOfThree.take 4, [['a']], rowOfThree.drop 5, by rfl, by decide, by decide⟩
  refine ⟨hstart, hops, hfirst, hsecond, fun run level => ?_⟩
  obtain ⟨-, hends, hrow⟩ := parse_of_bound ({} : LinkedTables Nat Nat) rowOfThree ['a']
  have hlast := hrow 0 2 (.tail (.single hfirst) hsecond) (StateM (List Nat)) run level
  rcases hends hstart hops 0 1 hfirst with ⟨g, hg⟩ | ⟨-, hnone⟩
  · rw [hlast]
    rfl
  · rw [hnone] at hlast
    cases hlast

/-- Two tables that are chained into each other. -/
example (run : Nat → Nat → StateM (List Nat) Bool) (level : Nat) :
    (({} : LinkedTables Nat Nat).run
      [.create [(['a'], .own 0)] 0, .create [(['a'], .own 1)] 1, .chain 1 0 [['a']],
        .chain 0 1 [['a']]]).parse run 0 ['a'] level = .ok none := by
  rfl

end LinkedTables
end OpenGrammar
