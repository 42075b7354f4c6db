import OpenGrammar.Proofs.AccessorCollisions
import OpenGrammar.Proofs.Segments

/-! Names in snake case. Their camel case can be read back, a low line before each letter
that stands in upper case, and so rules with such names never collide on an accessor. -/
namespace OpenGrammar
namespace Naming

def isSegment : Text → Bool
  | [] => false
  | c :: cs => c.isLower && cs.all fun d => d.isLower || d.isDigit

/-- A name in snake case: segments with one low line between each two of them. -/
def IsSnake (name : Text) : Prop :=
  ∃ first rest, (∀ segment ∈ first :: rest, isSegment segment = true) ∧
    name = Text.join ['_'] (first :: rest)

/-- The snake case of a camel case name. -/
def snakeCase (name : Text) : Text :=
  name.flatMap fun c => if c.isUpper then ['_', c.toLower] else [c]

theorem snakeCase_append (a b : Text) : snakeCase (a ++ b) = snakeCase a ++ snakeCase b :=
  List.flatMap_append

/-! Characters of segments -/

theorem lt_of_part {c : Char} (h : c.isLower = true ∨ c.isDigit = true) : c.toNat < 128 := by
  have hword : c.isAlphanum = true := by
    rw [Char.isAlphanum, Bool.or_eq_true]
    rcases h with h | h
    · exact Or.inl (Bool.or_eq_true_iff.mpr (Or.inr h))
    · exact Or.inr h
  exact Text.lt_of_isIdentPart (by simp [Token.isIdentPart, hword])

theorem isUpper_of_part {c : Char} (h : c.isLower = true ∨ c.isDigit = true) :
    c.isUpper = false := by
  have hall : ∀ n < 128, ((Char.ofNat n).isLower = true ∨ (Char.ofNat n).isDigit = true) →
      (Char.ofNat n).isUpper = false := by decide
  exact Text.of_forall_lt (p := fun d => d.isLower = true ∨ d.isDigit = true → d.isUpper = false)
    hall (lt_of_part h) h

theorem snakeCase_uppercase {c : Char} (h : c.isLower = true) :
    snakeCase (Text.uppercase c) = ['_', c] := by
  have hall : ∀ n < 128, (Char.ofNat n).isLower = true →
      snakeCase [(Char.ofNat n).toUpper] = ['_', Char.ofNat n] := by decide
  have hlt : c.toNat < 128 := lt_of_part (Or.inl h)
  have hc := Text.of_forall_lt
    (p := fun d => d.isLower = true → snakeCase [d.toUpper] = ['_', d]) hall hlt h
  rw [Text.uppercase, if_pos hlt, hc]

theorem snakeCase_of_lower {cs : Text} (h : ∀ c ∈ cs, c.isUpper = false) : snakeCase cs = cs := by
  induction cs with
  | nil => rfl
  | cons c cs ih =>
    have hrest := ih fun d hd => h d (List.mem_cons_of_mem _ hd)
    rw [snakeCase] at hrest
    simp [snakeCase, h c (by simp), hrest]

/-! Segments -/

section Segment

variable {segment : Text} (h : isSegment segment = true)
include h

theorem exists_of_isSegment :
    ∃ c cs, segment = c :: cs ∧ c.isLower = true ∧
      ∀ d ∈ cs, d.isLower = true ∨ d.isDigit = true := by
  cases segment with
  | nil => cases h
  | cons c cs =>
    simp only [isSegment, Bool.and_eq_true, List.all_eq_true, Bool.or_eq_true] at h
    exact ⟨c, cs, rfl, h.1, h.2⟩

theorem isUpper_of_mem_segment : ∀ c ∈ segment, c.isUpper = false := by
  obtain ⟨first, rest, rfl, hfirst, hrest⟩ := exists_of_isSegment h
  intro c hc
  rcases List.mem_cons.1 hc with rfl | hc
  · exact isUpper_of_part (Or.inl hfirst)
  · exact isUpper_of_part (hrest c hc)

theorem lowLine_not_mem_segment : '_' ∉ segment := by
  obtain ⟨first, rest, rfl, hfirst, hrest⟩ := exists_of_isSegment h
  intro hm
  rcases List.mem_cons.1 hm with rfl | hm
  · exact absurd hfirst (by decide)
  · exact absurd (hrest _ hm) (by decide)

theorem camelFrom_segment (rest : Text) :
    camelFrom true (segment ++ rest) = titleCase segment ++ camelFrom false rest := by
  have hline := lowLine_not_mem_segment h
  obtain ⟨c, cs, rfl, -, -⟩ := exists_of_isSegment h
  rw [List.mem_cons, not_or] at hline
  rw [List.cons_append, camelFrom, if_neg (Ne.symm hline.1), if_pos rfl, camelFrom_append hline.2,
    titleCase, List.append_assoc]

theorem snakeCase_segment : snakeCase segment = segment := snakeCase_of_lower (isUpper_of_mem_segment h)

theorem snakeCase_titleCase : snakeCase (titleCase segment) = ['_'] ++ segment := by
  have hupper := isUpper_of_mem_segment h
  obtain ⟨c, cs, rfl, hc, -⟩ := exists_of_isSegment h
  rw [titleCase, snakeCase_append, snakeCase_uppercase hc,
    snakeCase_of_lower fun d hd => hupper d (List.mem_cons_of_mem _ hd)]
  rfl

end Segment

/-! Camel case -/

theorem camelFrom_segments {segments : List Text} (h : ∀ segment ∈ segments, isSegment segment = true) :
    camelFrom false (segments.flatMap (['_'] ++ ·)) = segments.flatMap titleCase := by
  induction segments with
  | nil => rfl
  | cons segment segments ih =>
    have hrest := ih fun other ho => h other (List.mem_cons_of_mem _ ho)
    rw [List.flatMap_cons, List.append_assoc, List.singleton_append, camelFrom, if_pos rfl,
      camelFrom_segment (h segment (by simp)), hrest, List.flatMap_cons]

/-- The camel case of a snake case name is its first segment and then the others, each with
its first letter in upper case. -/
theorem camelCase_join {first : Text} {rest : List Text}
    (h : ∀ segment ∈ first :: rest, isSegment segment = true) :
    camelCase (Text.join ['_'] (first :: rest)) = first ++ rest.flatMap titleCase := by
  rw [camelCase, Text.join_cons_eq, camelFrom_append (lowLine_not_mem_segment (h first (by simp))),
    camelFrom_segments fun other ho => h other (List.mem_cons_of_mem _ ho)]

theorem snakeCase_flatMap_titleCase {segments : List Text}
    (h : ∀ segment ∈ segments, isSegment segment = true) :
    snakeCase (segments.flatMap titleCase) = segments.flatMap (['_'] ++ ·) := by
  induction segments with
  | nil => rfl
  | cons segment segments ih =>
    rw [List.flatMap_cons, snakeCase_append, snakeCase_titleCase (h segment (by simp)),
      ih fun other ho => h other (List.mem_cons_of_mem _ ho), List.flatMap_cons]

/-- A snake case name is read back from its camel case. -/
theorem snakeCase_camelCase {name : Text} (h : IsSnake name) : snakeCase (camelCase name) = name := by
  obtain ⟨first, rest, hsegments, rfl⟩ := h
  rw [camelCase_join hsegments, snakeCase_append, snakeCase_segment (hsegments first (by simp)),
    snakeCase_flatMap_titleCase fun other ho => hsegments other (List.mem_cons_of_mem _ ho),
    Text.join_cons_eq]

theorem IsSnake.eq_of_camelCase_eq {a b : Text} (ha : IsSnake a) (hb : IsSnake b)
    (h : camelCase a = camelCase b) : a = b := by
  rw [← snakeCase_camelCase ha, h, snakeCase_camelCase hb]

/-! Accessors -/

theorem Records.claim_snake {suffix bare : Text} {claims : Claims} {seen : List Text}
    (h : Records suffix claims seen) (hseen : ∀ name ∈ seen, IsSnake name) (hbare : IsSnake bare) :
    ∃ claims' seen', claim suffix claims bare = .ok (accessor suffix bare, claims') ∧
      Records suffix claims' seen' ∧ ∀ name ∈ seen', IsSnake name := by
  by_cases hfree : camelCase bare ∈ seen.map camelCase
  · obtain ⟨owner, ho, he⟩ := List.mem_map.1 hfree
    obtain rfl := (hseen owner ho).eq_of_camelCase_eq hbare he
    exact ⟨claims, seen, by simp [claim, h.lookup_eq owner ho], h, hseen⟩
  · obtain ⟨claims', hclaim, h'⟩ := h.claim_ok hfree
    refine ⟨claims', seen ++ [bare], hclaim, h', fun name hname => ?_⟩
    rcases List.mem_append.1 hname with hname | hname
    · exact hseen name hname
    · exact List.mem_singleton.1 hname ▸ hbare

theorem Records.claimAll_snake {suffix : Text} {claims : Claims} {seen names : List Text}
    (h : Records suffix claims seen) (hseen : ∀ name ∈ seen, IsSnake name)
    (hnames : ∀ name ∈ names, IsSnake name) :
    claimAll suffix claims names = .ok (names.map (accessor suffix)) := by
  induction names generalizing claims seen with
  | nil => rfl
  | cons name names ih =>
    obtain ⟨claims', seen', hclaim, h', hseen'⟩ := h.claim_snake hseen (hnames name (by simp))
    have hrest := ih h' hseen' fun other ho => hnames other (List.mem_cons_of_mem _ ho)
    rw [claimAll, hclaim]
    simp [hrest, bind, Except.bind, pure, Except.pure]

/-- Different names in snake case have different camel cases. So rules with such names, as many as
there are, take their accessors into use without a collision. -/
theorem camelCase_inj_of_snake :
    (∀ a b, IsSnake a → IsSnake b → camelCase a = camelCase b → a = b) ∧
      ∀ suffix names, (∀ name ∈ names, IsSnake name) →
        claimAll suffix [] names = .ok (names.map (accessor suffix)) := by
  constructor
  · intro a b ha hb
    exact ha.eq_of_camelCase_eq hb
  · intro suffix names hnames
    exact (records_nil suffix).claimAll_snake (by simp) hnames

def lowLines : List Text := ["a_b2_c".toList, "a_b2c".toList, "ab2_c".toList, "ab2c".toList]

theorem camelCase_inj_of_snake_lowLines :
    (∀ name ∈ lowLines, IsSnake name) ∧
      claimAll "Ext".toList [] lowLines = .ok ["aB2CExt".toList, "aB2cExt".toList,
        "ab2CExt".toList, "ab2cExt".toList] ∧
      camelCase "a_b2_c".toList ≠ camelCase "a_b2c".toList := by
  have hsnake : ∀ name ∈ lowLines, IsSnake name := by
    intro name hname
    simp only [lowLines, List.mem_cons, List.not_mem_nil, or_false] at hname
    rcases hname with rfl | rfl | rfl | rfl
    · exact ⟨"a".toList, ["b2".toList, "c".toList], by decide, rfl⟩
    · exact ⟨"a".toList, ["b2c".toList], by decide, rfl⟩
    · exact ⟨"ab2".toList, ["c".toList], by decide, rfl⟩
    · exact ⟨"ab2c".toList, [], by decide, rfl⟩
  have hne : "a_b2_c".toList ≠ "a_b2c".toList := by decide
  refine ⟨hsnake, (camelCase_inj_of_snake.2 _ _ hsnake).trans (by decide), mt ?_ hne⟩
  exact camelCase_inj_of_snake.1 _ _ (hsnake _ (by simp [lowLines])) (hsnake _ (by simp [lowLines]))

end Naming
end OpenGrammar
