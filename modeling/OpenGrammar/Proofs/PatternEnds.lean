import OpenGrammar.Proofs.ClassEnds

/-! Parts of patterns in front of a closing parenthesis. A part that does not reach the end of its
pattern is read as it is when the pattern stands in a group. A part that does is read in the same way
or not at all without the parenthesis, and with it there is no way on to the end of the group. -/
namespace OpenGrammar
namespace Regex

open Text

variable {t tail : Text} {f : Flags} {c : Char}

/-! Repetitions -/

theorem dropLazy_append (hc : Closing tail) (t : Text) :
    dropLazy (t ++ tail) = dropLazy t ++ tail := by
  cases t with
  | nil => rcases hc with rfl | rfl <;> rfl
  | cons c cs =>
    by_cases h : c = '?'
    · subst h
      rfl
    · simp [dropLazy, h]

theorem count_append (hc : Closing tail) (t : Text) : count (t ++ tail) = carry tail (count t) := by
  have hblank : Text.isBlank ')' = false := by decide
  have hdigit : ')'.isDigit = false := by decide
  unfold count Text.trimStart
  simp only [hc.dropWhile_append hblank, hc.dropWhile_append hdigit, hc.takeWhile_append hdigit, carry]

theorem count_fst_nil (hc : Closing tail) : (count tail).1 = none := by
  rcases hc with rfl | rfl <;> decide

theorem upperCount?_append (hc : Closing tail) {lo : Nat} (t : Text) :
    upperCount? lo (t ++ tail) = (upperCount? lo t).map (Prod.map id (carry tail)) := by
  by_cases hbrace : t.head? = some '}'
  · obtain ⟨cs, rfl⟩ := List.head?_eq_some_iff.1 hbrace
    rfl
  · have hhead : (t ++ tail).head? ≠ some '}' := by
      cases t with
      | nil => simp [hc.head?]
      | cons c cs => exact hbrace
    rw [upperCount?_of_ne hhead, upperCount?_of_ne hbrace, count_append hc]
    obtain ⟨hi?, rest⟩ := count t
    cases hi? with
    | none => rfl
    | some hi =>
      simp only [carry, Option.bind_some]
      obtain ⟨more, rfl, -⟩ := hc.exists_eq
      cases rest with
      | nil => rfl
      | cons c cs =>
        by_cases hclose : c = '}'
        · subst hclose
          simp only [List.cons_append]
          split <;> rfl
        · simp [hclose]

theorem counts_append (hc : Closing tail) (t : Text) :
    counts f (t ++ tail) = (counts f t).map (Prod.map id (carry tail)) := by
  rw [counts_eq, counts_eq]
  rcases f.skip_apart t with ⟨hnil, hskip⟩ | hskip
  · rw [hnil, hskip hc]
    rfl
  · rw [hskip hc, count_append hc]
    obtain ⟨lo?, rest⟩ := count (f.skip t)
    cases lo? with
    | none => rfl
    | some lo =>
      simp only [carry, Option.bind_some]
      cases rest with
      | nil =>
        obtain ⟨more, rfl, -⟩ := hc.exists_eq
        rfl
      | cons c cs =>
        by_cases hclose : c = '}'
        · subst hclose
          rfl
        by_cases hcomma : c = ','
        · subst hcomma
          simp only [List.cons_append]
          rcases f.skip_apart cs with ⟨hnil, hskip⟩ | hskip
          · rw [hnil, hskip hc]
            rfl
          · rw [hskip hc]
            exact upperCount?_append hc _
        · simp [hclose, hcomma]

/-! Groups -/

variable {st : ParseState}

/-- A state from which no group can be closed any more: there is no parenthesis left, or the next
part is none. -/
def Stuck (st : ParseState) (rest : Text) : Prop :=
  ')' ∉ rest ∨ ∃ w, rest = '{' :: w ∧ counts st.flags w = none

/-- What a reader of parts makes of a text in front of a parenthesis. Where the parenthesis is not
left as it is, the text is read in the same way without it or not at all. -/
def PartApart (read : Text → Option (ParseState × Text)) (t : Text) : Prop :=
  (∀ tail, Closing tail → read (t ++ tail) = (read t).map (carry tail)) ∨
    ((∀ hit, read t = some hit → ∀ tail, Closing tail → read (t ++ tail) = some hit) ∧
      ∀ tail, Closing tail → ∀ hit, read (t ++ tail) = some hit → Stuck hit.1 hit.2)

theorem groupName_append (hc : Closing tail) (t : Text) :
    groupName (t ++ tail) = (groupName t).map (carry tail) := by
  have hparen : isGroupNamePart ')' = false := by decide
  unfold groupName
  rw [hc.dropWhile_append hparen, hc.takeWhile_append hparen]
  cases t.dropWhile isGroupNamePart with
  | nil =>
    obtain ⟨more, rfl, -⟩ := hc.exists_eq
    rfl
  | cons c cs =>
    by_cases hclose : c = '>'
    · subst hclose
      simp only [List.cons_append, Option.bind_eq_bind]
      cases (t.takeWhile isGroupNamePart).head? with
      | none => rfl
      | some first =>
        simp only [Option.bind_some]
        split <;> rfl
    · simp [hclose]

theorem namedGroup_append (hc : Closing tail) (t : Text) :
    namedGroup st (t ++ tail) = (namedGroup st t).map (carry tail) := by
  unfold namedGroup
  rw [groupName_append hc]
  cases groupName t with
  | none => rfl
  | some hit =>
    simp only [Option.map_some, Option.bind_some, carry]
    split <;> rfl

theorem inlineFlags_apart (f : Flags) (seen : List Char) (last : Option Char) (t : Text) :
    (∀ tail, Closing tail → inlineFlags f seen last (t ++ tail) =
      (inlineFlags f seen last t).map (Prod.map id (Prod.map id (carry tail)))) ∨
    (inlineFlags f seen last t = none ∧ ∀ tail, Closing tail → ∀ hit,
      inlineFlags f seen last (t ++ tail) = some hit → ')' ∉ hit.2.2.2) := by
  induction t generalizing f seen last with
  | nil =>
    right
    refine ⟨rfl, fun tail hc hit hhit => ?_⟩
    obtain ⟨more, rfl, hmore⟩ := hc.exists_eq
    rw [List.nil_append, inlineFlags, if_pos (.inr rfl)] at hhit
    split at hhit <;> cases hhit
    exact hmore
  | cons c cs ih =>
    simp only [List.cons_append, inlineFlags]
    by_cases hstop : c = ':' ∨ c = ')'
    · left
      intro tail _
      rw [if_pos hstop, if_pos hstop]
      split <;> rfl
    by_cases hseen : c ∈ seen
    · simp [hstop, hseen]
    simp only [if_neg hstop, if_neg hseen]
    by_cases hminus : c = '-'
    · simp only [if_pos hminus]
      exact ih f (c :: seen) (some c)
    · simp only [if_neg hminus]
      cases f.set? c (!seen.contains '-') with
      | none => simp
      | some g => exact ih g (c :: seen) (some c)

theorem flagGroup_apart (st : ParseState) (t : Text) : PartApart (flagGroup st) t := by
  unfold PartApart flagGroup
  rcases inlineFlags_apart st.flags [] none t with h | ⟨hnone, h⟩
  · left
    intro tail hc
    rw [h tail hc]
    cases inlineFlags st.flags [] none t with
    | none => rfl
    | some hit =>
      obtain ⟨inner, seen, close, rest⟩ := hit
      simp only [Option.map_some, Option.bind_some, Prod.map, carry, id]
      split
      · rfl
      split <;> rfl
  · right
    rw [hnone]
    refine ⟨fun hit hhit => (by cases hhit), fun tail hc hit hhit => .inl ?_⟩
    obtain ⟨hit', hflags, hhit⟩ := Option.bind_eq_some_iff.1 hhit
    have hrest := h tail hc hit' hflags
    split at hhit
    · cases hhit
      exact hrest
    split at hhit <;> cases hhit
    exact hrest

theorem markedGroup_of_angle (cs : Text) : markedGroup st ('<' :: cs) =
    if cs.head? = some '=' ∨ cs.head? = some '!' then none else namedGroup st cs := rfl

theorem markedGroup_of_ne (hname : ∀ cs, t ≠ 'P' :: '<' :: cs) (hangle : ∀ cs, t ≠ '<' :: cs) :
    markedGroup st t = flagGroup st t := by
  unfold markedGroup
  split
  · exact absurd rfl (hname _)
  · exact absurd rfl (hangle _)
  · rfl

theorem markedGroup_apart (st : ParseState) (t : Text) : PartApart (markedGroup st) t := by
  by_cases hname : ∃ cs, t = 'P' :: '<' :: cs
  · obtain ⟨cs, rfl⟩ := hname
    exact .inl fun tail hc => namedGroup_append hc cs
  by_cases hangle : ∃ cs, t = '<' :: cs
  · obtain ⟨cs, rfl⟩ := hangle
    left
    intro tail hc
    have hhead : (cs ++ tail).head? = some '=' ∨ (cs ++ tail).head? = some '!' ↔
        cs.head? = some '=' ∨ cs.head? = some '!' := by
      cases cs with
      | nil => simp [hc.head?]
      | cons c cs => rfl
    rw [List.cons_append, markedGroup_of_angle, markedGroup_of_angle]
    simp only [hhead]
    split
    · rfl
    · exact namedGroup_append hc cs
  · have heq : markedGroup st t = flagGroup st t :=
      markedGroup_of_ne (fun cs h => hname ⟨cs, h⟩) fun cs h => hangle ⟨cs, h⟩
    have heq' : ∀ tail, Closing tail → markedGroup st (t ++ tail) = flagGroup st (t ++ tail) := by
      intro tail hc
      refine markedGroup_of_ne (fun cs h => hname ?_) fun cs h => hangle ?_
      · obtain ⟨ds, rfl, -⟩ := hc.exists_of_append_pair (by decide) (by decide) h
        exact ⟨ds, rfl⟩
      · obtain ⟨ds, rfl, -⟩ := hc.exists_of_append (by decide) h
        exact ⟨ds, rfl⟩
    rcases flagGroup_apart st t with h | ⟨h, h'⟩
    · left
      intro tail hc
      rw [heq, heq' tail hc, h tail hc]
    · right
      refine ⟨fun hit hhit tail hc => ?_, fun tail hc hit hhit => ?_⟩
      · rw [heq' tail hc]
        exact h hit (heq ▸ hhit) tail hc
      · exact h' tail hc hit (heq' tail hc ▸ hhit)

theorem group_apart (st : ParseState) (t : Text) : PartApart (group st) t := by
  unfold PartApart
  simp only [group_eq]
  rcases st.flags.skip_apart t with ⟨hnil, hskip⟩ | hskip
  · right
    rw [hnil]
    refine ⟨fun hit hhit tail hc => ?_, fun tail hc hit hhit => .inl ?_⟩
    · rwa [hskip hc]
    · rw [hskip hc] at hhit
      cases hhit
      simp
  · by_cases hmark : ∃ cs, st.flags.skip t = '?' :: cs
    · obtain ⟨cs, hcs⟩ := hmark
      rw [hcs] at hskip ⊢
      rcases markedGroup_apart st cs with h | ⟨h, h'⟩
      · left
        intro tail hc
        rw [hskip hc]
        exact h tail hc
      · right
        refine ⟨fun hit hhit tail hc => ?_, fun tail hc hit hhit => ?_⟩
        · rw [hskip hc]
          exact h hit hhit tail hc
        · rw [hskip hc] at hhit
          exact h' tail hc hit hhit
    · left
      intro tail hc
      have hmark' : ∀ cs, st.flags.skip t ++ tail = '?' :: cs → False := by
        intro cs h
        obtain ⟨ds, hds, -⟩ := hc.exists_of_append (by decide) h
        exact hmark ⟨ds, hds⟩
      rw [hskip hc]
      split
      · rename_i h
        exact (hmark' _ h).elim
      · split
        · rename_i h
          exact absurd ⟨_, h⟩ hmark
        · rfl

/-! Parts -/

theorem counts_closing (hc : Closing tail) {w : Text} (h : f.skip w = tail) : counts f w = none := by
  rw [counts_eq, h, count_fst_nil hc]
  rfl

theorem repetition_apart (cs : Text) : PartApart (readPart st '{') cs := by
  unfold PartApart
  simp only [readPart_brace]
  cases hcounts : counts st.flags cs with
  | none =>
    left
    intro tail hc
    rw [counts_append hc, hcounts]
    rfl
  | some hit =>
    obtain ⟨lo, hi, rest⟩ := hit
    have heq : ∀ {tail}, Closing tail → counts st.flags (cs ++ tail) = some (lo, hi, rest ++ tail) := by
      intro tail hc
      rw [counts_append hc, hcounts]
      rfl
    cases hrepeat : st.repeatLast lo hi with
    | none =>
      left
      intro tail hc
      simp only [heq hc, Option.bind_some, hrepeat, Option.map_none]
    | some st' =>
      simp only [Option.bind_some, hrepeat, Option.map_some]
      rcases st.flags.skip_apart rest with ⟨hnil, hskip⟩ | hskip
      · right
        rw [hnil]
        refine ⟨fun hit hhit tail hc => ?_, fun tail hc hit hhit => .inl ?_⟩
        · simpa only [heq hc, Option.bind_some, hrepeat, Option.map_some, hskip hc] using hhit
        · simp only [heq hc, Option.bind_some, hrepeat, Option.map_some, hskip hc] at hhit
          cases hhit
          simp [dropLazy]
      · left
        intro tail hc
        simp only [heq hc, Option.bind_some, hrepeat, Option.map_some, hskip hc, dropLazy_append hc,
          carry]

theorem escaped_apart (cs : Text) : PartApart (readPart st '\\') cs := by
  unfold PartApart
  simp only [readPart_backslash]
  rcases escape_apart st.flags cs with h | ⟨hnone, h⟩
  · left
    intro tail hc
    rw [h tail hc]
    cases escape st.flags cs <;> rfl
  · right
    rw [hnone]
    refine ⟨fun hit hhit => (by cases hhit), fun tail hc hit hhit => ?_⟩
    obtain ⟨hit', hescape, rfl⟩ := Option.map_eq_some_iff.1 hhit
    rcases h tail hc hit' hescape with rfl | ⟨w, rfl, hw⟩
    · obtain ⟨more, rfl, hmore⟩ := hc.exists_eq
      exact .inl hmore
    · exact .inr ⟨w, rfl, counts_closing hc hw⟩

theorem readPart_apart (st : ParseState) (c : Char) (cs : Text) : PartApart (readPart st c) cs := by
  have hlazy : ∀ st? : Option ParseState, ∀ tail, Closing tail →
      st?.map (·, dropLazy (cs ++ tail)) = (st?.map (·, dropLazy cs)).map (carry tail) := by
    intro st? tail hc
    rw [dropLazy_append hc]
    cases st? <;> rfl
  cases hlong : isLongPart c with
  | false =>
    left
    intro tail _
    rw [readPart_of_short hlong, readPart_of_short hlong cs, Option.map_map]
    rfl
  | true =>
    simp only [isLongPart, Bool.or_eq_true, beq_iff_eq] at hlong
    rcases hlong with (((((rfl | rfl) | rfl) | rfl) | rfl) | rfl) | rfl
    · exact group_apart st cs
    · left
      intro tail hc
      simp only [readPart, bracketed_append hc]
      cases bracketed st.flags cs <;> rfl
    · exact .inl (hlazy _)
    · exact .inl (hlazy _)
    · exact .inl (hlazy _)
    · exact repetition_apart cs
    · exact escaped_apart cs

end Regex
end OpenGrammar
