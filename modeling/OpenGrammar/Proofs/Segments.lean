import OpenGrammar.Text.Basic

/-! Texts that are cut at a mark, and parts that are joined with one. -/
namespace OpenGrammar
namespace Text

theorem join_append {mark : Text} {parts others : List Text} (hp : parts ≠ []) (ho : others ≠ []) :
    join mark (parts ++ others) = join mark parts ++ mark ++ join mark others := by
  induction parts with
  | nil => exact absurd rfl hp
  | cons part parts ih =>
    by_cases hnil : parts = []
    · simp [join, hnil, List.intercalate_cons_of_ne_nil ho]
    · have hrest := ih hnil
      simp only [join] at hrest ⊢
      rw [List.cons_append, List.intercalate_cons_of_ne_nil (by simp [hnil]), hrest,
        List.intercalate_cons_of_ne_nil hnil]
      simp only [List.append_assoc]

@[simp] theorem join_singleton (mark part : Text) : join mark [part] = part := by simp [join]

theorem join_concat {mark : Text} {parts : List Text} (h : parts ≠ []) (last : Text) :
    join mark (parts ++ [last]) = join mark parts ++ mark ++ last := by
  rw [join_append h (by simp), join_singleton]

theorem join_concat_append (mark : Text) (parts : List Text) (last more : Text) :
    join mark (parts ++ [last ++ more]) = join mark (parts ++ [last]) ++ more := by
  by_cases h : parts = []
  · simp [h]
  · simp only [join_concat h, List.append_assoc]

theorem join_cons_eq (mark first : Text) (rest : List Text) :
    join mark (first :: rest) = first ++ rest.flatMap (mark ++ ·) := by
  induction rest generalizing first with
  | nil => simp
  | cons next rest ih =>
    have hnext := ih next
    rw [join] at hnext ⊢
    rw [List.intercalate_cons_of_ne_nil (List.cons_ne_nil _ _), hnext, List.append_assoc]
    simp

theorem mem_join {mark : Text} {parts : List Text} {c : Char} (h : c ∈ join mark parts) :
    c ∈ mark ∨ ∃ part ∈ parts, c ∈ part := by
  induction parts with
  | nil => cases h
  | cons part parts ih =>
    by_cases hnil : parts = []
    · right
      exact ⟨part, by simp, by simpa [join, hnil] using h⟩
    · rw [join, List.intercalate_cons_of_ne_nil hnil, List.mem_append, List.mem_append] at h
      rcases h with (h | h) | h
      · exact Or.inr ⟨part, by simp, h⟩
      · exact Or.inl h
      · rcases ih h with h | ⟨other, hmem, h⟩
        · exact Or.inl h
        · exact Or.inr ⟨other, List.mem_cons_of_mem _ hmem, h⟩

theorem of_mem_splitOn {mark : Char} {t segment : Text} (h : segment ∈ t.splitOn mark) :
    mark ∉ segment ∧ segment ⊆ t := by
  induction t generalizing segment with
  | nil =>
    have hnil : segment = [] := by simpa using h
    simp [hnil]
  | cons c t ih =>
    rw [List.splitOn_cons_eq_if_modifyHead] at h
    split at h
    · rcases List.mem_cons.mp h with rfl | hmem
      · simp
      · exact ⟨(ih hmem).1, List.subset_cons_of_subset c (ih hmem).2⟩
    · rename_i hc
      cases hsplit : t.splitOn mark with
      | nil => simp [hsplit] at h
      | cons first rest =>
        rw [hsplit, List.modifyHead_cons] at h
        rcases List.mem_cons.mp h with rfl | hmem
        · have hfirst := ih (hsplit ▸ List.mem_cons_self : first ∈ t.splitOn mark)
          have hmark : mark ≠ c := fun heq => hc (beq_iff_eq.mpr heq.symm)
          exact ⟨by simp [hmark, hfirst.1], List.cons_subset_cons c hfirst.2⟩
        · have hother := ih (hsplit ▸ List.mem_cons_of_mem first hmem)
          exact ⟨hother.1, List.subset_cons_of_subset c hother.2⟩

/-! Dotted names -/

theorem of_mem_dotSegments {t segment : Text} (h : segment ∈ dotSegments t) :
    segment ≠ [] ∧ '.' ∉ segment := by
  obtain ⟨hmem, hne⟩ := List.mem_filter.1 h
  exact ⟨by simpa using hne, (of_mem_splitOn hmem).1⟩

theorem dotSegments_join {segments : List Text} (h : ∀ s ∈ segments, s ≠ [] ∧ '.' ∉ s) :
    dotSegments (join ['.'] segments) = segments := by
  by_cases hnil : segments = []
  · rw [hnil]
    rfl
  · rw [dotSegments, join, List.splitOn_intercalate '.' (fun s hs => (h s hs).2) hnil,
      List.filter_eq_self]
    intro s hs
    simpa using (h s hs).1

end Text
end OpenGrammar
