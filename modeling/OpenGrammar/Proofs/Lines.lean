import Mathlib.Data.List.Infix
import OpenGrammar.Text.Basic

/-! Lines of texts and marks inside of them. A text that ends with a line feed keeps its
lines when more text follows, and no mark reaches over a character that it does not
hold. -/
namespace OpenGrammar
namespace Text

/-! Marks -/

theorem infix_append_cons_iff {mark a b : Text} {c : Char} (hc : c ∉ mark) :
    mark <:+: a ++ c :: b ↔ mark <:+: a ∨ mark <:+: b := by
  constructor
  · rintro ⟨s, t, h⟩
    rw [List.append_assoc] at h
    rcases List.append_eq_append_iff.1 h with ⟨u, ha, hu⟩ | ⟨u, hs, hu⟩
    · rcases List.append_eq_append_iff.1 hu with ⟨v, hv, -⟩ | ⟨v, hv, hb⟩
      · left
        exact ⟨s, v, by rw [ha, hv, List.append_assoc]⟩
      · cases v with
        | nil =>
          left
          exact ⟨s, [], by simp [ha, hv]⟩
        | cons d v =>
          have hd : c = d := (List.cons.inj hb).1
          exact absurd (by simp [hv, hd]) hc
    · right
      cases u with
      | nil =>
        cases mark with
        | nil => exact List.nil_infix
        | cons d mark =>
          have hd : c = d := (List.cons.inj hu).1
          exact absurd (by simp [hd]) hc
      | cons d u => exact ⟨u, t, by simpa using (List.cons.inj hu).2.symm⟩
  · rintro (h | h)
    · exact h.trans (List.prefix_append _ _).isInfix
    · exact h.trans ((List.suffix_cons c b).isInfix.trans (List.suffix_append _ _).isInfix)

theorem infix_cons_iff_of_not_mem {mark b : Text} {c : Char} (hm : mark ≠ []) (hc : c ∉ mark) :
    mark <:+: c :: b ↔ mark <:+: b := by
  have h := infix_append_cons_iff (a := []) (b := b) hc
  simpa [List.infix_nil, hm] using h

theorem infix_concat_iff_of_not_mem {mark a : Text} {c : Char} (hm : mark ≠ []) (hc : c ∉ mark) :
    mark <:+: a ++ [c] ↔ mark <:+: a := by
  have h := infix_append_cons_iff (a := a) (b := []) hc
  simpa [List.infix_nil, hm] using h

theorem infix_append_iff_of_forall {mark a b : Text} (hm : mark ≠ []) (ha : ∀ c ∈ a, c ∉ mark) :
    mark <:+: a ++ b ↔ mark <:+: b := by
  induction a with
  | nil => rfl
  | cons c a ih =>
    rw [List.cons_append, infix_cons_iff_of_not_mem hm (ha c (by simp)),
      ih fun d hd => ha d (List.mem_cons_of_mem _ hd)]

theorem isPrefixOf?_eq_none_iff {mark t : Text} : mark.isPrefixOf? t = none ↔ ¬ mark <+: t := by
  constructor
  · rintro h ⟨rest, ht⟩
    have hp : mark.isPrefixOf? t = some rest := List.isPrefixOf?_eq_some_iff_append_eq.2 ht
    rw [h] at hp
    exact absurd hp (by simp)
  · intro h
    cases hp : mark.isPrefixOf? t with
    | none => rfl
    | some rest => exact absurd ⟨rest, List.isPrefixOf?_eq_some_iff_append_eq.1 hp⟩ h

theorem cut?_eq_some {mark t before after : Text} (h : cut? mark t = some (before, after)) :
    t = before ++ mark ++ after ∧ (mark ≠ [] → ¬ mark <:+: before) := by
  induction t generalizing before after with
  | nil =>
    simp only [cut?] at h
    split at h
    · rename_i hm
      simp only [Option.some.injEq, Prod.mk.injEq] at h
      simp [← h.1, ← h.2, List.isEmpty_iff.1 hm]
    · simp at h
  | cons c cs ih =>
    simp only [cut?] at h
    split at h
    · rename_i rest hp
      simp only [Option.some.injEq, Prod.mk.injEq] at h
      rw [← List.isPrefixOf?_eq_some_iff_append_eq.1 hp, ← h.1, ← h.2]
      exact ⟨by simp, fun hm => by simpa [List.infix_nil] using hm⟩
    · rename_i hp
      obtain ⟨⟨b, a⟩, hba, he⟩ := Option.map_eq_some_iff.1 h
      simp only [Prod.mk.injEq] at he
      obtain ⟨hcs, hb⟩ := ih hba
      rw [← he.1, ← he.2]
      refine ⟨by simp [hcs], fun hm => ?_⟩
      rw [List.infix_cons_iff, not_or]
      refine ⟨fun hpre => isPrefixOf?_eq_none_iff.1 hp (hpre.trans ?_), hb hm⟩
      rw [hcs, List.append_assoc, ← List.cons_append]
      exact List.prefix_append _ _

theorem not_infix_of_cut? {mark t before after : Text} (hm : mark ≠ [])
    (h : cut? mark t = some (before, after)) : ¬ mark <:+: before ++ mark.dropLast := by
  have hlen : 0 < mark.length := List.length_pos_of_ne_nil hm
  induction t generalizing before after with
  | nil => simp [cut?, hm] at h
  | cons c cs ih =>
    simp only [cut?] at h
    split at h
    · obtain ⟨rfl, -⟩ := Prod.mk.inj (Option.some.inj h)
      intro hi
      have hle := hi.length_le
      simp only [List.nil_append, List.length_dropLast] at hle
      omega
    · rename_i hp
      obtain ⟨⟨b, a⟩, hba, he⟩ := Option.map_eq_some_iff.1 h
      obtain ⟨rfl, rfl⟩ := Prod.mk.inj he
      rw [List.cons_append, List.infix_cons_iff, not_or]
      refine ⟨fun hpre => isPrefixOf?_eq_none_iff.1 hp (hpre.trans ?_), ih hba⟩
      rw [(cut?_eq_some hba).1, List.cons_prefix_cons, List.append_assoc,
        List.prefix_append_right_inj]
      exact ⟨rfl, (List.dropLast_prefix mark).trans (List.prefix_append _ _)⟩

theorem cut?_append {mark before : Text} (after : Text) (hm : mark ≠ [])
    (h : ¬ mark <:+: before ++ mark.dropLast) :
    cut? mark (before ++ mark ++ after) = some (before, after) := by
  induction before with
  | nil =>
    cases mark with
    | nil => exact absurd rfl hm
    | cons c mark =>
      have hp : (c :: mark).isPrefixOf? (c :: (mark ++ after)) = some after :=
        List.isPrefixOf?_eq_some_iff_append_eq.2 rfl
      simp only [List.nil_append, List.cons_append, cut?, hp]
  | cons c before ih =>
    rw [List.cons_append, List.infix_cons_iff, not_or] at h
    have hp : mark.isPrefixOf? (c :: (before ++ mark ++ after)) = none := by
      rw [isPrefixOf?_eq_none_iff]
      intro hpre
      have hshort : c :: (before ++ mark.dropLast) <+: c :: (before ++ mark ++ after) := by
        rw [List.cons_prefix_cons, List.append_assoc, List.prefix_append_right_inj]
        exact ⟨rfl, (List.dropLast_prefix mark).trans (List.prefix_append _ _)⟩
      have hl : 0 < mark.length := List.length_pos_of_ne_nil hm
      refine h.1 (List.prefix_of_prefix_length_le hpre hshort ?_)
      simp only [List.length_cons, List.length_append, List.length_dropLast]
      omega
    simp only [List.cons_append, cut?, hp, ih h.2, Option.map_some]

/-! Lines -/

@[simp] theorem rawLines_eq_nil_iff {t : Text} : rawLines t = [] ↔ t = [] := by
  cases t with
  | nil => simp [rawLines]
  | cons c cs =>
    simp only [rawLines]
    split
    · simp
    · split <;> simp

@[simp] theorem flatten_rawLines (t : Text) : (rawLines t).flatten = t := by
  induction t with
  | nil => simp [rawLines]
  | cons c cs ih =>
    by_cases hc : c = '\n'
    · simp [rawLines, hc, ih]
    · cases hl : rawLines cs with
      | nil => simp [rawLines, hc, rawLines_eq_nil_iff.1 hl]
      | cons line more =>
        rw [hl, List.flatten_cons] at ih
        simp [rawLines, hc, hl, ih]

theorem rawLines_append_newline (a b : Text) :
    rawLines (a ++ '\n' :: b) = rawLines (a ++ ['\n']) ++ rawLines b := by
  induction a with
  | nil => simp [rawLines]
  | cons c cs ih =>
    by_cases hc : c = '\n'
    · simp [rawLines, hc, ih]
    · cases hl : rawLines (cs ++ ['\n']) with
      | nil => simp at hl
      | cons line more =>
        rw [hl] at ih
        simp [rawLines, hc, hl, ih]

theorem rawLines_of_not_mem {a : Text} (b : Text) (h : '\n' ∉ a) :
    rawLines (a ++ '\n' :: b) = (a ++ ['\n']) :: rawLines b := by
  induction a with
  | nil => simp [rawLines]
  | cons c cs ih =>
    rw [List.mem_cons, not_or] at h
    simp [rawLines, Ne.symm h.1, ih h.2]

theorem mem_rawLines {t line : Text} (h : line ∈ rawLines t) :
    ∃ body, '\n' ∉ body ∧ (line = body ∨ line = body ++ ['\n']) := by
  induction t generalizing line with
  | nil => simp [rawLines] at h
  | cons c cs ih =>
    by_cases hc : c = '\n'
    · simp only [rawLines, hc, ↓reduceIte, List.mem_cons] at h
      rcases h with rfl | h
      · exact ⟨[], by simp, Or.inr rfl⟩
      · exact ih h
    · cases hl : rawLines cs with
      | nil =>
        simp only [rawLines, hc, ↓reduceIte, hl, List.mem_singleton] at h
        exact ⟨[c], by simp [Ne.symm hc], Or.inl h⟩
      | cons first more =>
        simp only [rawLines, hc, ↓reduceIte, hl, List.mem_cons] at h
        rcases h with rfl | h
        · obtain ⟨body, hb, he⟩ := @ih first (by simp [hl])
          refine ⟨c :: body, by simp [Ne.symm hc, hb], ?_⟩
          rcases he with rfl | rfl
          · exact Or.inl rfl
          · exact Or.inr rfl
        · exact ih (by simp [hl, h])

theorem chopLineEnd_of_not_mem {body : Text} (h : '\n' ∉ body) : chopLineEnd body = body := by
  unfold chopLineEnd
  split
  · rename_i rest hr
    exact absurd (by rw [← List.mem_reverse, hr]; simp) h
  · rename_i rest hr
    exact absurd (by rw [← List.mem_reverse, hr]; simp) h
  · rfl

theorem chopLineEnd_append_newline (body : Text) :
    chopLineEnd (body ++ ['\n']) = body ∨ body = chopLineEnd (body ++ ['\n']) ++ ['\r'] := by
  unfold chopLineEnd
  simp only [List.reverse_append, List.reverse_singleton, List.singleton_append]
  split
  · rename_i rest hr
    right
    have hb := (List.cons.inj hr).2
    rw [← List.reverse_reverse body, hb, List.reverse_cons]
  · rename_i rest _ hr
    left
    rw [← (List.cons.inj hr).2, List.reverse_reverse]
  · rename_i hr
    exact absurd rfl (hr _)

theorem chopLineEnd_prefix_self (body : Text) : chopLineEnd (body ++ ['\n']) <+: body := by
  rcases chopLineEnd_append_newline body with h | h
  · rw [h]
  · exact ⟨['\r'], h.symm⟩

theorem lines_append_newline (a b : Text) :
    lines (a ++ '\n' :: b) = lines (a ++ ['\n']) ++ lines b := by
  simp only [lines, rawLines_append_newline a b, List.map_append]

theorem lines_of_not_mem {a : Text} (b : Text) (h : '\n' ∉ a) :
    lines (a ++ '\n' :: b) = chopLineEnd (a ++ ['\n']) :: lines b := by
  simp only [lines, rawLines_of_not_mem b h, List.map_cons]

theorem newline_not_mem_of_mem_lines {t line : Text} (h : line ∈ lines t) : '\n' ∉ line := by
  obtain ⟨raw, hr, rfl⟩ := List.mem_map.1 h
  obtain ⟨body, hb, rfl | rfl⟩ := mem_rawLines hr
  · rw [chopLineEnd_of_not_mem hb]
    exact hb
  · exact fun hm => hb ((chopLineEnd_prefix_self body).subset hm)

theorem infix_of_mem_lines {t line : Text} (h : line ∈ lines t) : line <:+: t := by
  obtain ⟨raw, hr, rfl⟩ := List.mem_map.1 h
  have ht : raw <:+: t := by
    have hf := List.infix_of_mem_flatten hr
    rwa [flatten_rawLines] at hf
  obtain ⟨body, hb, rfl | rfl⟩ := mem_rawLines hr
  · rwa [chopLineEnd_of_not_mem hb]
  · exact (chopLineEnd_prefix_self body).isInfix.trans ((List.prefix_append _ _).isInfix.trans ht)

theorem exists_newline_split (t : Text) :
    '\n' ∉ t ∨ ∃ first rest, '\n' ∉ first ∧ t = first ++ '\n' :: rest := by
  induction t with
  | nil => simp
  | cons c cs ih =>
    by_cases hc : c = '\n'
    · exact Or.inr ⟨[], cs, by simp, by simp [hc]⟩
    · rcases ih with h | ⟨first, rest, hf, rfl⟩
      · exact Or.inl (by simp [h, Ne.symm hc])
      · exact Or.inr ⟨c :: first, rest, by simp [hf, Ne.symm hc], rfl⟩

theorem rawLines_of_one {t : Text} (hne : t ≠ []) (h : '\n' ∉ t) : rawLines t = [t] := by
  induction t with
  | nil => exact absurd rfl hne
  | cons c cs ih =>
    rw [List.mem_cons, not_or] at h
    cases cs with
    | nil => simp [rawLines, Ne.symm h.1]
    | cons d ds => rw [rawLines, if_neg (Ne.symm h.1), ih (by simp) h.2]

theorem lines_of_one {t : Text} (hne : t ≠ []) (h : '\n' ∉ t) : lines t = [t] := by
  simp [lines, rawLines_of_one hne h, chopLineEnd_of_not_mem h]

theorem prefix_chopLineEnd_of_space (head tail : Text) :
    (head ++ [' ']) <+: chopLineEnd ((head ++ ' ' :: tail) ++ ['\n']) := by
  rcases chopLineEnd_append_newline (head ++ ' ' :: tail) with hc | hc
  · rw [hc]
    simp
  · have hp : (head ++ [' ']) <+: chopLineEnd ((head ++ ' ' :: tail) ++ ['\n']) ++ ['\r'] := by
      rw [← hc]
      simp
    rcases List.prefix_concat_iff.1 hp with he | hp
    · have hl := congrArg List.getLast? he
      simp at hl
    · exact hp

theorem lines_head {head : Text} (tail : Text) (h : '\n' ∉ head) :
    ∃ line rest, lines (head ++ ' ' :: tail) = line :: lines rest ∧ (head ++ [' ']) <+: line ∧
      rest <:+ tail := by
  rcases exists_newline_split tail with ht | ⟨first, rest, hf, rfl⟩
  · refine ⟨head ++ ' ' :: tail, [], ?_, by simp, List.nil_suffix⟩
    rw [lines_of_one (by simp) (by simp [h, ht])]
    rfl
  · refine ⟨chopLineEnd ((head ++ ' ' :: first) ++ ['\n']), rest, ?_,
      prefix_chopLineEnd_of_space head first, ?_⟩
    · rw [← lines_of_not_mem rest (by simp [h, hf])]
      simp
    · exact (List.suffix_cons _ _).trans (List.suffix_append _ _)

theorem lines_flatten {ts : List Text} (h : ∀ t ∈ ts, ∃ u, t = u ++ ['\n']) :
    lines ts.flatten = ts.flatMap lines := by
  induction ts with
  | nil => rfl
  | cons t ts ih =>
    obtain ⟨u, rfl⟩ := h t (by simp)
    rw [List.flatten_cons, List.flatMap_cons, List.append_assoc, List.singleton_append,
      lines_append_newline, ih fun t ht => h t (List.mem_cons_of_mem _ ht)]

end Text
end OpenGrammar
