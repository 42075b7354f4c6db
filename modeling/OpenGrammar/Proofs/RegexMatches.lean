import OpenGrammar.Regex.Parser

/-! What expressions match. The search follows all matches from a position at once and stops a
repetition after as many rounds as the text has characters; it finds exactly the matches that the
constructors of expressions describe. -/
namespace OpenGrammar
namespace Regex

def Apart (step : Nat → Nat → Prop) : Nat → Nat → Nat → Prop
  | 0, i, j => i = j
  | n + 1, i, j => ∃ k, step i k ∧ Apart step n k j

/-- The expression matches the part of the text between two positions. The upper limit of a
repetition does not count when it is below the lower one, which no pattern writes. -/
def Matches (t : Text) : Regex → Nat → Nat → Prop
  | .empty, i, j => i = j
  | .one set, i, j => ∃ c, t[i]? = some c ∧ set.contains c = true ∧ j = i + 1
  | .look cond, i, j => cond.holdsAt t i = true ∧ i = j
  | .seq r s, i, j => ∃ k, Matches t r i k ∧ Matches t s k j
  | .alt r s, i, j => Matches t r i j ∨ Matches t s i j
  | .times r lo hi, i, j => ∃ n, lo ≤ n ∧ (∀ most ∈ hi, n ≤ max lo most) ∧ Apart (Matches t r) n i j

variable {t : Text} {r : Regex} {i j k m n : Nat} {is : List Nat}

section Steps

variable {step : Nat → List Nat}

theorem mem_stepsOf :
    j ∈ stepsOf step n is ↔ ∃ i ∈ is, Apart (fun i j => j ∈ step i) n i j := by
  induction n generalizing is with
  | zero => simp [stepsOf, Apart]
  | succ n ih =>
    rw [stepsOf, ih]
    simp only [List.mem_eraseDups, List.mem_flatMap, Apart]
    grind

theorem mem_upTo :
    j ∈ upTo step n is ↔ ∃ m ≤ n, ∃ i ∈ is, Apart (fun i j => j ∈ step i) m i j := by
  induction n generalizing is with
  | zero => simp [upTo, Apart]
  | succ n ih =>
    rw [upTo, ih]
    simp only [List.mem_eraseDups, List.mem_append, List.mem_flatMap]
    constructor
    · rintro ⟨m, hm, i, hi | ⟨k, hk, hi⟩, hsteps⟩
      · exact ⟨m, by omega, i, hi, hsteps⟩
      · exact ⟨m + 1, by omega, k, hk, i, hi, hsteps⟩
    · rintro ⟨m, hm, i, hi, hsteps⟩
      cases m with
      | zero => exact ⟨0, by omega, i, .inl hi, hsteps⟩
      | succ m =>
        obtain ⟨k, hk, hsteps⟩ := hsteps
        exact ⟨m, by omega, k, .inr ⟨i, hi, hk⟩, hsteps⟩

end Steps

section Apart

variable {step : Nat → Nat → Prop}

theorem apart_add : Apart step (m + n) i j ↔ ∃ k, Apart step m i k ∧ Apart step n k j := by
  induction m generalizing i with
  | zero => simp [Apart]
  | succ m ih =>
    simp only [Nat.succ_add, Apart, ih]
    grind

theorem Apart.le (h : Apart step n i j) (hstep : ∀ {i j}, step i j → i ≤ j) : i ≤ j := by
  induction n generalizing i with
  | zero => exact Nat.le_of_eq h
  | succ n ih =>
    obtain ⟨k, hk, hsteps⟩ := h
    exact Nat.le_trans (hstep hk) (ih hsteps)

/-- Steps that stay where they are can be left out, and then there are no more of them than
positions in between. -/
theorem Apart.shorten (h : Apart step n i j) (hstep : ∀ {i j}, step i j → i ≤ j) :
    ∃ m ≤ n, m ≤ j - i ∧ Apart step m i j := by
  induction n generalizing i with
  | zero => exact ⟨0, Nat.le_refl 0, Nat.zero_le _, h⟩
  | succ n ih =>
    obtain ⟨k, hk, hsteps⟩ := h
    obtain ⟨m, hm, hshort, hmatch⟩ := ih hsteps
    have hik : i ≤ k := hstep hk
    have hkj : k ≤ j := hsteps.le hstep
    rcases Nat.eq_or_lt_of_le hik with rfl | hlt
    · exact ⟨m, by omega, hshort, hmatch⟩
    · exact ⟨m + 1, by omega, by omega, k, hk, hmatch⟩

end Apart

/-! Matches go forwards and end in the text -/

theorem Apart.bounded {step : Nat → Nat → Prop} (h : Apart step n i j)
    (hstep : ∀ {i j}, step i j → i ≤ j ∧ j ≤ max i t.length) : i ≤ j ∧ j ≤ max i t.length := by
  induction n generalizing i with
  | zero =>
    cases h
    omega
  | succ n ih =>
    obtain ⟨k, hk, hsteps⟩ := h
    have := hstep hk
    have := ih hsteps
    omega

theorem Matches.bounded (h : Matches t r i j) : i ≤ j ∧ j ≤ max i t.length := by
  induction r generalizing i j with
  | empty =>
    cases h
    omega
  | one set =>
    obtain ⟨c, hc, -, rfl⟩ := h
    have := (List.getElem?_eq_some_iff.1 hc).1
    omega
  | look cond =>
    obtain ⟨-, rfl⟩ := h
    omega
  | seq r s ihr ihs =>
    obtain ⟨k, hr, hs⟩ := h
    have := ihr hr
    have := ihs hs
    omega
  | alt r s ihr ihs => exact h.elim ihr ihs
  | times r lo hi ih =>
    obtain ⟨n, -, -, hsteps⟩ := h
    exact hsteps.bounded ih

/-! The search finds all matches -/

theorem mem_ends_times {lo : Nat} {hi : Option Nat}
    (ih : ∀ i j, j ∈ ends t r i ↔ Matches t r i j) :
    j ∈ ends t (.times r lo hi) i ↔ Matches t (.times r lo hi) i j := by
  have hstep : (fun i j => j ∈ ends t r i) = Matches t r := by
    funext i j
    exact propext (ih i j)
  have hforth : ∀ {i j}, Matches t r i j → i ≤ j := fun h => h.bounded.1
  simp only [ends, mem_upTo, mem_stepsOf, hstep, List.mem_singleton, exists_eq_left, Matches]
  constructor
  · rintro ⟨m, hm, k, hleast, hmore⟩
    refine ⟨lo + m, by omega, ?_, apart_add.2 ⟨k, hleast, hmore⟩⟩
    rintro most rfl
    simp only at hm
    omega
  · rintro ⟨n, hlo, hhi, hsteps⟩
    obtain ⟨m, rfl⟩ := Nat.exists_eq_add_of_le hlo
    obtain ⟨k, hleast, hmore⟩ := apart_add.1 hsteps
    obtain ⟨m', hm, hshort, hmore'⟩ := hmore.shorten hforth
    -- Past the rounds that the search makes there is no position left to reach.
    have hend : j - k ≤ t.length := by
      have := (hmore.bounded fun h => h.bounded (t := t)).2
      omega
    refine ⟨m', ?_, k, hleast, hmore'⟩
    cases hi with
    | none =>
      simp only
      omega
    | some most =>
      have := hhi most rfl
      simp only
      omega

theorem mem_ends_iff : j ∈ ends t r i ↔ Matches t r i j := by
  induction r generalizing i j with
  | empty => simp [ends, Matches, eq_comm]
  | one set =>
    cases hc : t[i]? with
    | none => simp [ends, Matches, hc]
    | some c =>
      by_cases hset : set.contains c = true <;> simp [ends, Matches, hc, hset]
  | look cond =>
    by_cases hcond : cond.holdsAt t i = true <;> simp [ends, Matches, hcond, eq_comm]
  | seq r s ihr ihs => simp [ends, Matches, List.mem_eraseDups, ihr, ihs]
  | alt r s ihr ihs => simp [ends, Matches, List.mem_eraseDups, ihr, ihs]
  | times r lo hi ih => exact mem_ends_times fun i j => ih

theorem isMatch_iff : r.isMatch t = true ↔ ∃ i ≤ t.length, ∃ j, Matches t r i j := by
  simp only [isMatch, List.any_eq_true, List.mem_range, Nat.lt_succ_iff, Bool.not_eq_true',
    List.isEmpty_eq_false_iff_exists_mem, mem_ends_iff]

/-! Whole texts -/

/-- The expression between the two ends of the text. -/
def whole (r : Regex) : Regex := .seq (.look .startText) (.seq r (.seq (.look .endText) .empty))

theorem holdsAt_startText (h : i ≤ t.length) : Look.startText.holdsAt t i = true ↔ i = 0 := by
  by_cases hi : i = 0
  · simp [Look.holdsAt, Look.holds, hi]
  · have hbefore : i - 1 < t.length := by omega
    simp [Look.holdsAt, Look.holds, hi, hbefore]

theorem holdsAt_endText : Look.endText.holdsAt t i = true ↔ t.length ≤ i := by
  simp [Look.holdsAt, Look.holds]

end Regex
end OpenGrammar
