import Mathlib.Logic.Relation
import OpenGrammar.Proofs.SlotHistory

/-! Constructors of elements that are chained from table to table. As long as no table is
chained into a descendant of its own, every call ends, and the bound on the links that
are followed is never felt. The children of a table are asked from the last one back,
each as it is at the time of the call. -/
namespace OpenGrammar

variable {φ ε α : Type}

def Constructor.tables : Constructor ε → List TableId
  | .own _ | .default _ => []
  | .chained id previous => id :: previous.tables

/-- A constructor behind those of some tables, of which the last is asked first. -/
def Constructor.behind (base : Constructor ε) (children : List TableId) : Constructor ε :=
  children.foldl (fun previous child => .chained child previous) base

namespace TableOperation

/-- Whether an operation gives the table a constructor that does not go back to the one it
had. -/
def Replaces (id : TableId) : TableOperation φ ε → Prop
  | .reset table | .setConstructor table _ => table = id
  | .create _ _ | .install _ _ _ | .clearOverride _ _ | .chain _ _ _ => False

def child? (id : TableId) : TableOperation φ ε → Option TableId
  | .chain child parent _ => if parent = id then some child else none
  | .create _ _ | .install _ _ _ | .clearOverride _ _ | .reset _ | .setConstructor _ _ => none

def childrenIn (id : TableId) (history : List (TableOperation φ ε)) : List TableId :=
  history.filterMap (child? id)

/-- The operation makes the constructor of the first table ask the second one. -/
def Links : TableOperation φ ε → TableId → TableId → Prop
  | .chain child parent _, id, other => id = parent ∧ other = child
  | .setConstructor table c, id, other => id = table ∧ other ∈ c.tables
  | .create _ _, _, _ | .install _ _ _, _, _ | .clearOverride _ _, _, _ | .reset _, _, _ => False

theorem exists_source_of_links (op : TableOperation φ ε) :
    ∃ source, ∀ id other, op.Links id other → id = source := by
  cases op with
  | chain child parent rules => exact ⟨parent, fun _ _ h => h.1⟩
  | setConstructor table c => exact ⟨table, fun _ _ h => h.1⟩
  | create entries element => exact ⟨0, fun _ _ h => h.elim⟩
  | install table rule f => exact ⟨0, fun _ _ h => h.elim⟩
  | clearOverride table rule => exact ⟨0, fun _ _ h => h.elim⟩
  | reset table => exact ⟨0, fun _ _ h => h.elim⟩

theorem rewireAll_eq_behind {id : TableId} {history : List (TableOperation φ ε)}
    (h : ∀ op ∈ history, ¬op.Replaces id) (base : Constructor ε) :
    rewireAll id history base = base.behind (childrenIn id history) := by
  induction history generalizing base with
  | nil => rfl
  | cons op history ih =>
    have hop := h op List.mem_cons_self
    have hrest := ih fun op hm => h op (List.mem_cons_of_mem _ hm)
    rw [rewireAll, List.foldl_cons, ← rewireAll, hrest]
    cases op with
    | chain child parent rules =>
      by_cases hp : parent = id <;> simp [rewire, childrenIn, child?, Constructor.behind, hp]
    | reset t =>
      have ht : ¬t = id := hop
      rw [rewire, if_neg ht]
      rfl
    | setConstructor t c =>
      have ht : ¬t = id := hop
      rw [rewire, if_neg ht]
      rfl
    | create entries element => rfl
    | install t rule f => rfl
    | clearOverride t rule => rfl

end TableOperation

namespace LinkedTables

variable {all next : LinkedTables φ ε} {id : TableId} {c : Constructor ε} {make : ε → Option α}
  {op : TableOperation φ ε}

open SlotTable TableOperation

/-! What a call of a constructor ends with -/

/-- A call of the constructor ends, with an element or without one. -/
inductive Makes (all : LinkedTables φ ε) (make : ε → Option α) : Constructor ε → Option α → Prop
  | own (e : ε) : Makes all make (.own e) (make e)
  | default (id : TableId) :
      Makes all make (.default id) ((all.get? id).bind fun table => make table.defaultElement)
  | handled {id : TableId} {c previous : Constructor ε} {made : α}
      (hc : all.constructor? id = some c) (h : Makes all make c (some made)) :
      Makes all make (.chained id previous) (some made)
  | passed {id : TableId} {previous : Constructor ε} {result : Option α}
      (hc : ∀ c, all.constructor? id = some c → Makes all make c none)
      (h : Makes all make previous result) : Makes all make (.chained id previous) result

theorem Makes.unique {r r' : Option α} (h : Makes all make c r) (h' : Makes all make c r') :
    r = r' := by
  induction h generalizing r' with
  | own e =>
    cases h'
    rfl
  | default id =>
    cases h'
    rfl
  | handled hc h ih =>
    cases h' with
    | handled hc' h' =>
      cases hc.symm.trans hc'
      exact ih h'
    | passed hc' h' => exact absurd (ih (hc' _ hc)) (by simp)
  | passed hc h ihc ih =>
    cases h' with
    | handled hc' h' => exact absurd (ihc _ hc' h') (by simp)
    | passed hc' h' => exact ih h'

def answer (made : Option α) : Except SlotError α := made.elim (.error .noMatch) .ok

@[simp] theorem toOption_answer (made : Option α) : (answer made).toOption = made := by
  cases made <;> rfl

theorem answer_eq_error_iff {made : Option α} {e : SlotError} :
    answer made = .error e ↔ e = .noMatch ∧ made = none := by
  cases made <;> simp [answer, eq_comm]

theorem createElement_eq_answer (all : LinkedTables φ ε) (make : ε → Option α) (id : TableId) :
    all.createElement make id =
      answer ((all.constructor? id).bind (all.construct make all.tables.length)) := by
  rw [createElement]
  cases (all.constructor? id).bind (all.construct make all.tables.length) <;> rfl

theorem construct_chained_zero (previous : Constructor ε) :
    all.construct make 0 (.chained id previous) = all.construct make 0 previous := by
  rw [construct]

theorem construct_chained_succ (fuel : Nat) (previous : Constructor ε) :
    all.construct make (fuel + 1) (.chained id previous) =
      ((all.constructor? id).bind (all.construct make fuel)).or
        (all.construct make (fuel + 1) previous) := by
  rw [construct]
  cases (all.constructor? id).bind (all.construct make fuel) <;> rfl

theorem constructor?_eq_some_iff : all.constructor? id = some c ↔
    ∃ table, all.get? id = some table ∧ table.held id = c :=
  Option.map_eq_some_iff

/-! Tables that are no descendants of their own -/

/-- The constructor of the first table asks the second one. -/
def Asks (all : LinkedTables φ ε) (id other : TableId) : Prop :=
  ∃ c, all.constructor? id = some c ∧ other ∈ c.tables

/-- No table is a descendant of its own. -/
def Acyclic (all : LinkedTables φ ε) : Prop := ∀ id, ¬Relation.TransGen all.Asks id id

theorem lt_of_constructor? (h : all.constructor? id = some c) : id < all.tables.length := by
  obtain ⟨table, hg, -⟩ := constructor?_eq_some_iff.1 h
  exact (List.getElem?_eq_some_iff.1 hg).1

theorem length_lt_of_not_mem {n : Nat} {path : List Nat} {id : Nat} (hnodup : path.Nodup)
    (hlt : ∀ a ∈ path, a < n) (hid : id < n) (hm : id ∉ path) : path.length < n := by
  have hsub : id :: path ⊆ List.range n := by
    intro a ha
    rw [List.mem_range]
    rcases List.mem_cons.1 ha with rfl | ha
    · exact hid
    · exact hlt a ha
  have hle := ((List.nodup_cons.2 ⟨hm, hnodup⟩).subperm hsub).length_le
  rwa [List.length_range] at hle

/-- With the tables on the way counted off, what is left of the bound is enough. The way is
that of the calls inside of each other: each of its tables asks, through others, all
that the constructor asks. -/
theorem makes_construct (hac : all.Acyclic) (make : ε → Option α) (fuel : Nat) (c : Constructor ε)
    (path : List TableId) (hnodup : path.Nodup) (hlt : ∀ a ∈ path, a < all.tables.length)
    (hfuel : all.tables.length ≤ path.length + fuel)
    (hasks : ∀ a ∈ path, ∀ b ∈ c.tables, Relation.TransGen all.Asks a b) :
    Makes all make c (all.construct make fuel c) := by
  induction fuel generalizing c path with
  | zero =>
    induction c with
    | own e =>
      rw [construct]
      exact .own e
    | default id =>
      rw [construct]
      exact .default id
    | chained id previous ih =>
      rw [construct_chained_zero]
      refine .passed (fun c hc => ?_) (ih fun a ha b hb => hasks a ha b (List.mem_cons_of_mem _ hb))
      have hm : id ∉ path := fun hm => hac id (hasks id hm id List.mem_cons_self)
      have hlen := length_lt_of_not_mem hnodup hlt (lt_of_constructor? hc) hm
      omega
  | succ fuel ihf =>
    induction c with
    | own e =>
      rw [construct]
      exact .own e
    | default id =>
      rw [construct]
      exact .default id
    | chained id previous ih =>
      have hprevious := ih fun a ha b hb => hasks a ha b (List.mem_cons_of_mem _ hb)
      have hm : id ∉ path := fun hm => hac id (hasks id hm id List.mem_cons_self)
      rw [construct_chained_succ]
      cases hc : all.constructor? id with
      | none => exact .passed (by simp [hc]) hprevious
      | some c =>
        have hchild : Makes all make c (all.construct make fuel c) := by
          refine ihf c (id :: path) (List.nodup_cons.2 ⟨hm, hnodup⟩) ?_ ?_ ?_
          · intro a ha
            rcases List.mem_cons.1 ha with rfl | ha
            · exact lt_of_constructor? hc
            · exact hlt a ha
          · simp only [List.length_cons]
            omega
          · intro a ha b hb
            have hstep : all.Asks id b := ⟨c, hc, hb⟩
            rcases List.mem_cons.1 ha with rfl | ha
            · exact .single hstep
            · exact (hasks a ha id List.mem_cons_self).tail hstep
        rw [Option.bind_some]
        cases hr : all.construct make fuel c with
        | none =>
          rw [hr] at hchild
          refine .passed (fun c' hc' => ?_) hprevious
          cases hc.symm.trans hc'
          exact hchild
        | some made =>
          rw [hr] at hchild
          exact .handled hc hchild

/-- Each call of a constructor ends. -/
theorem exists_makes (hac : all.Acyclic) (make : ε → Option α) (c : Constructor ε) :
    ∃ r, Makes all make c r :=
  ⟨_, makes_construct hac make all.tables.length c [] List.nodup_nil (by simp) (by simp) (by simp)⟩

theorem createElement_of_makes (hac : all.Acyclic) (hc : all.constructor? id = some c) {r : Option α}
    (h : Makes all make c r) : all.createElement make id = answer r := by
  have hm := makes_construct hac make all.tables.length c [] List.nodup_nil (by simp) (by simp)
    (by simp)
  rw [createElement_eq_answer, hc, Option.bind_some, hm.unique h]

/-- The children are asked from the last one back, and then the constructor behind them. -/
theorem makes_behind (hac : all.Acyclic) {base : Constructor ε} {last : Option α}
    (h : Makes all make base last) (children : List TableId) :
    Makes all make (base.behind children)
      ((children.reverse.findSome? fun child => (all.createElement make child).toOption).or
        last) := by
  induction children using List.reverseRecOn with
  | nil => exact h
  | append_singleton children child ih =>
    have hbehind : base.behind (children ++ [child]) = .chained child (base.behind children) := by
      simp [Constructor.behind]
    rw [hbehind, List.reverse_append, List.reverse_singleton, List.singleton_append,
      List.findSome?_cons]
    cases hc : all.constructor? child with
    | none =>
      have hno : (all.createElement make child).toOption = none := by
        rw [createElement_eq_answer, hc]
        rfl
      rw [hno]
      exact .passed (by simp [hc]) ih
    | some c =>
      obtain ⟨r, hr⟩ := exists_makes hac make c
      rw [createElement_of_makes hac hc hr, toOption_answer]
      cases r with
      | none =>
        refine .passed (fun c' hc' => ?_) ih
        cases hc.symm.trans hc'
        exact hr
      | some made => exact .handled hc hr

/-! Operations that keep the order of tables -/

/-- Operations of which none that is not refused chains a table into a descendant of its own or
into itself, or gives a table a constructor that asks it again. -/
def Orderly (all : LinkedTables φ ε) : List (TableOperation φ ε) → Prop
  | [] => True
  | op :: ops =>
    (∀ next, all.perform op = .ok next →
      ∀ id other, op.Links id other → ¬Relation.ReflTransGen all.Asks other id) ∧
    Orderly (all.step op) ops

theorem asks_perform {other : TableId} (h : all.perform op = .ok next) (ha : next.Asks id other) :
    all.Asks id other ∨ op.Links id other := by
  obtain ⟨c, hc, hm⟩ := ha
  obtain ⟨after, hafter, rfl⟩ := constructor?_eq_some_iff.1 hc
  cases hg : all.get? id with
  | none =>
    rw [get?_perform_of_none h hg] at hafter
    split at hafter
    · rw [held_of_made? hafter] at hm
      cases hm
    · cases hafter
  | some table =>
    obtain ⟨after', hafter', hch⟩ := get?_perform h hg
    cases hafter.symm.trans hafter'
    have hold : ∀ b ∈ (table.held id).tables, all.Asks id b :=
      fun b hb => ⟨_, constructor?_eq_some_iff.2 ⟨table, hg, rfl⟩, hb⟩
    rw [hch.held_eq] at hm
    cases op with
    | create entries element => exact .inl (hold other hm)
    | install t rule f => exact .inl (hold other hm)
    | clearOverride t rule => exact .inl (hold other hm)
    | reset t =>
      rw [rewire] at hm
      split at hm
      · cases hm
      · exact .inl (hold other hm)
    | setConstructor t d =>
      rw [rewire] at hm
      split at hm
      · rename_i ht
        exact .inr ⟨ht.symm, hm⟩
      · exact .inl (hold other hm)
    | chain child parent rules =>
      rw [rewire] at hm
      split at hm
      · rename_i hp
        rcases List.mem_cons.1 hm with rfl | hm
        · exact .inr ⟨hp.symm, rfl⟩
        · exact .inl (hold other hm)
      · exact .inl (hold other hm)

/-- New steps that all start at one place make no circle if none of them leads to where that
place can be reached from. -/
theorem not_transGen_of_new {r r' : TableId → TableId → Prop} (source : TableId)
    (hac : ∀ x, ¬Relation.TransGen r x x)
    (hnew : ∀ x y, r' x y → r x y ∨ (x = source ∧ ¬Relation.ReflTransGen r y source)) (x : TableId) :
    ¬Relation.TransGen r' x x := by
  have hway : ∀ y, Relation.TransGen r' x y → Relation.TransGen r x y ∨
      (Relation.ReflTransGen r x source ∧
        ∃ b, ¬Relation.ReflTransGen r b source ∧ Relation.ReflTransGen r b y) := by
    intro y h
    induction h with
    | single hs =>
      rcases hnew _ _ hs with hs | ⟨rfl, hno⟩
      · exact .inl (.single hs)
      · exact .inr ⟨.refl, _, hno, .refl⟩
    | tail _ hs ih =>
      rcases hnew _ _ hs with hs | ⟨rfl, hno⟩
      · rcases ih with ih | ⟨hx, b, hb, hby⟩
        · exact .inl (ih.tail hs)
        · exact .inr ⟨hx, b, hb, hby.tail hs⟩
      · rcases ih with ih | ⟨-, b, hb, hby⟩
        · exact .inr ⟨ih.to_reflTransGen, _, hno, .refl⟩
        · exact absurd hby hb
  intro h
  rcases hway x h with h | ⟨hx, b, hb, hbx⟩
  · exact hac x h
  · exact hb (hbx.trans hx)

theorem acyclic_run (hac : all.Acyclic) {ops : List (TableOperation φ ε)} (h : all.Orderly ops) :
    (all.run ops).Acyclic := by
  induction ops generalizing all with
  | nil => exact hac
  | cons op ops ih =>
    obtain ⟨hop, hops⟩ := h
    refine ih ?_ hops
    cases hp : all.perform op with
    | error e => rwa [step_of_error hp]
    | ok next =>
      rw [step_of_ok hp]
      obtain ⟨source, hsource⟩ := op.exists_source_of_links
      refine not_transGen_of_new source hac fun x y hxy => ?_
      rcases asks_perform hp hxy with hold | hlink
      · exact .inl hold
      · obtain rfl := hsource x y hlink
        exact .inr ⟨rfl, hop next hp x y hlink⟩

end LinkedTables
end OpenGrammar
