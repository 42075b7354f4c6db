import Mathlib.Data.List.Nodup
import OpenGrammar.Naming
import OpenGrammar.Proofs.Fragment

/-! Accessors: the characters that camel case can bring into a name, and what it means
that all accessors of a grammar could be taken into use. -/
namespace OpenGrammar
namespace Text

/-! Upper case. Below U+0080 a property of one character is a matter of 128 cases. -/

theorem lt_of_isIdentPart {c : Char} (h : Token.isIdentPart c = true) : c.toNat < 128 := by
  change (((decide (c.val ≥ 'A'.val ∧ c.val ≤ 'Z'.val) ||
      (decide (c.val ≥ 'a'.val) && decide (c.val ≤ 'z'.val))) ||
      (decide (c.val ≥ '0'.val) && decide (c.val ≤ '9'.val))) || c == '_') = true at h
  simp only [Bool.or_eq_true, Bool.and_eq_true, decide_eq_true_eq, beq_iff_eq,
    UInt32.le_iff_toNat_le, ge_iff_le, Char.toNat_val] at h
  rcases h with ((⟨-, h⟩ | ⟨-, h⟩) | ⟨-, h⟩) | rfl
  · exact Nat.lt_of_le_of_lt h (by decide)
  · exact Nat.lt_of_le_of_lt h (by decide)
  · exact Nat.lt_of_le_of_lt h (by decide)
  · decide

theorem of_forall_lt {p : Char → Prop} {c : Char} (hp : ∀ n < 128, p (Char.ofNat n))
    (hc : c.toNat < 128) : p c := by
  have h := hp c.toNat hc
  rwa [Char.ofNat_toNat] at h

theorem isIdentPart_toUpper {c : Char} (h : Token.isIdentPart c = true) :
    Token.isIdentPart c.toUpper = true := by
  have hd : ∀ n < 128, Token.isIdentPart (Char.ofNat n) = true →
      Token.isIdentPart (Char.ofNat n).toUpper = true := by decide
  exact of_forall_lt (p := fun d => Token.isIdentPart d = true → Token.isIdentPart d.toUpper = true) hd
    (lt_of_isIdentPart h) h

theorem eq_of_toUpper {c d : Char} (hc : c.toNat < 128) (hd : d.isUpper = false) (h : c.toUpper = d) :
    c = d := by
  have hn : ∀ n < 128, (Char.ofNat n).toUpper = Char.ofNat n ∨
      (Char.ofNat n).toUpper.isUpper = true := by decide
  have hu := of_forall_lt (p := fun e => e.toUpper = e ∨ e.toUpper.isUpper = true) hn hc
  rw [h, hd] at hu
  rcases hu with hu | hu
  · exact hu.symm
  · cases hu

set_option maxRecDepth 4000 in
theorem uppercaseRuns_above :
    ∀ run ∈ uppercaseRuns, 65 ≤ (run.first : Int) + run.shift := by decide

theorem uppercaseSpecial_above : ∀ entry ∈ uppercaseSpecial, ∀ n ∈ entry.2, 65 ≤ n := by decide

theorem ofNat_ne_of_lt {n : Nat} {d : Char} (h : 65 ≤ n) (hd : d.toNat < 65)
    (hzero : d ≠ '\x00') : Char.ofNat n ≠ d := by
  intro he
  by_cases hv : n.isValidChar
  · have hc : Char.ofNat n = Char.ofNatAux n hv := dif_pos hv
    have hn : n = d.toNat := congrArg Char.toNat (hc.symm.trans he)
    omega
  · have hc : Char.ofNat n = ⟨0, Or.inl (by decide)⟩ := dif_neg hv
    exact hzero (he.symm.trans hc)

theorem eq_of_mem_uppercase {c d : Char} (hd : d.toNat < 65) (hzero : d ≠ '\x00')
    (h : d ∈ uppercase c) : c = d := by
  have hupper : d.isUpper = false := by
    have hall : ∀ n < 65, (Char.ofNat n).isUpper = false := by decide
    have hn := hall d.toNat hd
    rwa [Char.ofNat_toNat] at hn
  unfold uppercase at h
  split at h
  · rename_i hc
    exact eq_of_toUpper hc hupper (List.mem_singleton.1 h).symm
  · split at h
    · rename_i entry he
      obtain ⟨n, hn, hnl⟩ := List.mem_map.1 h
      have hspecial := uppercaseSpecial_above entry (List.mem_of_find?_eq_some he) n hn
      exact absurd hnl (ofNat_ne_of_lt hspecial hd hzero)
    · rw [List.mem_singleton] at h
      unfold CharTable.image at h
      split at h
      · rename_i run hr
        have hfirst : run.first ≤ c.toNat := by
          have hcov := List.find?_some hr
          simp only [CharTable.Run.covers, Bool.and_eq_true, decide_eq_true_eq] at hcov
          exact hcov.1.1
        have hrun := uppercaseRuns_above run (List.mem_of_find?_eq_some hr)
        exact absurd h.symm (ofNat_ne_of_lt (by omega) hd hzero)
      · exact h.symm

theorem isIdentPart_of_mem_uppercase {c d : Char} (hc : Token.isIdentPart c = true)
    (h : d ∈ uppercase c) : Token.isIdentPart d = true := by
  rw [uppercase, if_pos (lt_of_isIdentPart hc), List.mem_singleton] at h
  rw [h]
  exact isIdentPart_toUpper hc

theorem eq_lowLine_of_mem_uppercase {c : Char} (hc : Token.isIdentPart c = true)
    (h : '_' ∈ uppercase c) : c = '_' := by
  rw [uppercase, if_pos (lt_of_isIdentPart hc), List.mem_singleton] at h
  exact eq_of_toUpper (lt_of_isIdentPart hc) (by decide) h.symm

end Text

namespace Naming

/-! Camel case -/

/-- Camel case leaves what stands before the first low line. -/
theorem camelFrom_append {front : Text} (h : '_' ∉ front) (rest : Text) :
    camelFrom false (front ++ rest) = front ++ camelFrom false rest := by
  induction front with
  | nil => rfl
  | cons c cs ih =>
    rw [List.mem_cons, not_or] at h
    rw [List.cons_append, camelFrom, if_neg (Ne.symm h.1), ih h.2]
    rfl

/-- The characters of a camel case name come from the name, some of them in upper case,
but for a low line at its end. -/
theorem mem_camelFrom {passed : Bool} {name : Text} {d : Char} (h : d ∈ camelFrom passed name) :
    d = '_' ∨ d ∈ name ∨ ∃ c ∈ name, d ∈ Text.uppercase c := by
  fun_induction camelFrom passed name with
  | case1 => exact Or.inl (by simpa using h)
  | case2 => simp at h
  | case3 passed cs ih =>
    rcases ih h with h | h | ⟨c, hc, h⟩
    · exact Or.inl h
    · exact Or.inr (Or.inl (List.mem_cons_of_mem _ h))
    · exact Or.inr (Or.inr ⟨c, List.mem_cons_of_mem _ hc, h⟩)
  | case4 c cs hc ih =>
    rcases List.mem_append.1 h with h | h
    · exact Or.inr (Or.inr ⟨c, by simp, h⟩)
    rcases ih h with h | h | ⟨e, he, h⟩
    · exact Or.inl h
    · exact Or.inr (Or.inl (List.mem_cons_of_mem _ h))
    · exact Or.inr (Or.inr ⟨e, List.mem_cons_of_mem _ he, h⟩)
  | case5 passed c cs hc hp ih =>
    rcases List.mem_cons.1 h with rfl | h
    · exact Or.inr (Or.inl (by simp))
    rcases ih h with h | h | ⟨e, he, h⟩
    · exact Or.inl h
    · exact Or.inr (Or.inl (List.mem_cons_of_mem _ h))
    · exact Or.inr (Or.inr ⟨e, List.mem_cons_of_mem _ he, h⟩)

theorem newline_not_mem_camelCase {name : Text} (h : '\n' ∉ name) : '\n' ∉ camelCase name := by
  intro hm
  rcases mem_camelFrom hm with hm | hm | ⟨c, hc, hm⟩
  · exact absurd hm (by decide)
  · exact h hm
  · rw [Text.eq_of_mem_uppercase (by decide) (by decide) hm] at hc
    exact h hc

/-- A blank starts the camel case afresh. -/
theorem camelCase_suffix_camelFrom (passed : Bool) (r q : Text) :
    camelCase q <:+ camelFrom passed (r ++ ' ' :: q) := by
  induction r generalizing passed with
  | nil =>
    rw [List.nil_append, camelFrom, if_neg (by decide)]
    split
    · exact List.suffix_append _ _
    · exact List.suffix_cons _ _
  | cons c r ih =>
    rw [List.cons_append, camelFrom]
    split
    · exact ih true
    split
    · exact (ih false).trans (List.suffix_append _ _)
    · exact (ih false).trans (List.suffix_cons _ _)

theorem isIdentPart_of_mem_camelCase {name : Text} {d : Char}
    (h : Token.isIdentifier name = true) (hd : d ∈ camelCase name) : Token.isIdentPart d = true := by
  rcases mem_camelFrom hd with rfl | hd | ⟨c, hc, hd⟩
  · decide
  · exact Token.isIdentPart_of_mem h hd
  · exact Text.isIdentPart_of_mem_uppercase (Token.isIdentPart_of_mem h hc) hd

/-! Ends of generated names -/

theorem getLast?_realName (name : Text) : (realName name).getLast? = some 'l' := by
  rw [realName, List.getLast?_append]
  rfl

theorem getLast?_accessor (name : Text) : (accessor "Ext".toList name).getLast? = some 't' := by
  rw [accessor, List.getLast?_append]
  rfl

/-! Claims -/

/-- A claim that succeeds leaves its rule as the owner of its accessor and takes nothing
from the other owners. -/
theorem claim_eq_ok {suffix bare name : Text} {claims claims' : Claims}
    (h : claim suffix claims bare = .ok (name, claims')) :
    name = accessor suffix bare ∧ claims'.lookup name = some bare ∧
      ∀ a owner, claims.lookup a = some owner → claims'.lookup a = some owner := by
  unfold claim at h
  cases hl : claims.lookup (accessor suffix bare) with
  | none =>
    simp only [hl, Except.ok.injEq, Prod.mk.injEq] at h
    obtain ⟨rfl, rfl⟩ := h
    refine ⟨rfl, by simp, fun a owner ha => ?_⟩
    have hne : a ≠ accessor suffix bare := by
      rintro rfl
      rw [hl] at ha
      cases ha
    simp [List.lookup_cons, beq_eq_false_iff_ne.2 hne, ha]
  | some owner =>
    simp only [hl] at h
    split at h
    · rename_i ho
      obtain ⟨rfl, rfl⟩ := Prod.mk.inj (Except.ok.inj h)
      exact ⟨rfl, by rw [hl, ho], fun _ _ ha => ha⟩
    · cases h

/-- When all accessors could be taken into use, they are those of the rules in order,
each rule is the owner of its own, and no two rules share one. -/
theorem claimAll_eq_ok {suffix : Text} {claims : Claims} {bares names : List Text}
    (h : claimAll suffix claims bares = .ok names) :
    names = bares.map (accessor suffix) ∧
      (∀ bare ∈ bares, ∀ owner, claims.lookup (accessor suffix bare) = some owner → owner = bare) ∧
      ∀ a ∈ bares, ∀ b ∈ bares, accessor suffix a = accessor suffix b → a = b := by
  induction bares generalizing claims names with
  | nil => simp_all [claimAll]
  | cons bare rest ih =>
    simp only [claimAll] at h
    cases hc : claim suffix claims bare with
    | error e => simp [hc, bind, Except.bind] at h
    | ok p =>
      obtain ⟨name, claims'⟩ := p
      obtain ⟨rfl, hown, hkeep⟩ := claim_eq_ok hc
      cases hr : claimAll suffix claims' rest with
      | error e => simp [hc, hr, bind, Except.bind] at h
      | ok more =>
        simp only [hc, hr, bind, Except.bind, pure, Except.pure, Except.ok.injEq] at h
        obtain ⟨rfl, howners, hinj⟩ := ih hr
        have hhead : ∀ b ∈ rest, accessor suffix bare = accessor suffix b → bare = b := by
          intro b hb he
          rw [he] at hown
          exact howners b hb bare hown
        refine ⟨h.symm, ?_, ?_⟩
        · intro b hb owner ho
          have ho' := hkeep _ _ ho
          rcases List.mem_cons.1 hb with rfl | hb
          · rw [hown] at ho'
            exact (Option.some.inj ho').symm
          · exact howners b hb owner ho'
        · intro a ha b hb he
          rcases List.mem_cons.1 ha with hab | har <;> rcases List.mem_cons.1 hb with hbb | hbr
          · rw [hab, hbb]
          · rw [hab] at he ⊢
            exact hhead b hbr he
          · rw [hbb] at he ⊢
            exact (hhead a har he.symm).symm
          · exact hinj a har b hbr he

theorem nodup_of_claimAll {suffix : Text} {bares names : List Text}
    (h : claimAll suffix [] bares = .ok names) (hn : bares.Nodup) : names.Nodup := by
  obtain ⟨rfl, -, hinj⟩ := claimAll_eq_ok h
  exact hn.map_on hinj

end Naming
end OpenGrammar
