import OpenGrammar.Proofs.PatternEnds
import OpenGrammar.Proofs.RegexMatches

/-! Patterns in groups. A pattern that is written into a group is read with one group more around it,
with or without the marks of the two ends of a text around the group. As long as the pattern does
not close that group itself, and does not end in a comment that hides its end, the reading of the
whole goes on as that of the pattern alone. -/
namespace OpenGrammar

def PatternEngine.grouped (pattern : Text) : Text := "(?:".toList ++ pattern ++ [')']

namespace Regex

/-! States in an outer group -/

/-- The state of the same reading in a group that follows some items. -/
def ParseState.within (items : List Item) (st : ParseState) : ParseState :=
  { st with groups := st.groups ++ [⟨{}, [], items⟩] }

section Within

variable {st : ParseState} {items : List Item} {t cs rest more : Text} {c : Char} {n : Nat}
  {finish : Regex → Regex}

@[simp] theorem flags_within : (st.within items).flags = st.flags := rfl

@[simp] theorem value_within : (st.within items).value = st.value := rfl

@[simp] theorem names_within : (st.within items).names = st.names := rfl

theorem groups_within_ne_nil : (st.within items).groups ≠ [] := by simp [ParseState.within]

theorem repeatLast_within (lo : Nat) (hi : Option Nat) :
    (st.within items).repeatLast lo hi = (st.repeatLast lo hi).map (·.within items) := by
  obtain ⟨flags, alts, items, groups, names⟩ := st
  rcases items with _ | ⟨⟨r⟩ | _, items⟩ <;> rfl

theorem closeGroup_within (h : st.groups ≠ []) :
    (st.within items).closeGroup = st.closeGroup.map (·.within items) := by
  obtain ⟨flags, alts, items, groups, names⟩ := st
  cases groups with
  | nil => exact absurd rfl h
  | cons g groups => rfl

theorem namedGroup_within : namedGroup (st.within items) t =
    (namedGroup st t).map fun hit => (hit.1.within items, hit.2) := by
  unfold namedGroup
  cases groupName t with
  | none => rfl
  | some hit =>
    simp only [Option.bind_some, names_within, apply_ite (Option.map _)]
    rfl

theorem flagGroup_within : flagGroup (st.within items) t =
    (flagGroup st t).map fun hit => (hit.1.within items, hit.2) := by
  unfold flagGroup
  rw [flags_within]
  cases inlineFlags st.flags [] none t with
  | none => rfl
  | some hit =>
    simp only [Option.bind_some]
    split
    · rfl
    split <;> rfl

theorem group_within : group (st.within items) t =
    (group st t).map fun hit => (hit.1.within items, hit.2) := by
  rw [group_eq, group_eq, flags_within]
  split
  · rename_i cs _
    unfold markedGroup
    split
    · exact namedGroup_within
    · split
      · rfl
      · exact namedGroup_within
    · exact flagGroup_within
  · rfl

/-- One part is read in the same way in an outer group, unless it closes that group. -/
theorem readPart_within (h : c = ')' → st.groups ≠ []) : readPart (st.within items) c cs =
    (readPart st c cs).map fun hit => (hit.1.within items, hit.2) := by
  by_cases hbrace : c = '{'
  · subst hbrace
    rw [readPart_brace, readPart_brace, flags_within]
    cases counts st.flags cs with
    | none => rfl
    | some hit =>
      simp only [Option.bind_some, repeatLast_within]
      cases st.repeatLast hit.1 hit.2.1 <;> rfl
  by_cases hbackslash : c = '\\'
  · subst hbackslash
    rw [readPart_backslash, readPart_backslash, flags_within]
    cases escape st.flags cs <;> rfl
  unfold readPart
  dsimp only
  split
  · exact group_within
  · rw [closeGroup_within (h rfl)]
    cases st.closeGroup <;> rfl
  · rfl
  · rw [flags_within]
    cases bracketed st.flags cs <;> rfl
  · rw [repeatLast_within]
    cases st.repeatLast 0 (some 1) <;> rfl
  · rw [repeatLast_within]
    cases st.repeatLast 0 none <;> rfl
  · rw [repeatLast_within]
    cases st.repeatLast 1 none <;> rfl
  · exact absurd rfl hbrace
  · rw [flags_within]
    cases anyChar st.flags <;> rfl
  · rfl
  · rfl
  · exact absurd rfl hbackslash
  · rfl

theorem readAll_succ : readAll (n + 1) st t =
    match st.flags.skip t with
    | [] => if st.groups.isEmpty then some st.value else none
    | c :: cs => (readPart st c cs).bind fun hit => readAll n hit.1 hit.2 := rfl

theorem readAll_of_skip (h : st.flags.skip t = c :: cs) :
    readAll (n + 1) st t = (readPart st c cs).bind fun hit => readAll n hit.1 hit.2 := by
  rw [readAll_succ, h]

theorem readAll_within_of_not_mem (h : ')' ∉ t) : readAll n (st.within items) t = none := by
  induction n generalizing st t with
  | zero => rfl
  | succ n ih =>
    rw [readAll_succ, flags_within]
    cases hcs : st.flags.skip t with
    | nil =>
      simp only [List.isEmpty_iff, groups_within_ne_nil, if_false]
    | cons c cs =>
      have hmem : ∀ d ∈ c :: cs, d ≠ ')' := fun d hd heq =>
        h (heq ▸ (st.flags.skip_suffix t).subset (hcs ▸ hd))
      simp only
      rw [readPart_within fun heq => absurd heq (hmem c List.mem_cons_self)]
      cases hread : readPart st c cs with
      | none => rfl
      | some hit =>
        refine ih fun hparen => ?_
        exact hmem _ (List.mem_cons_of_mem c ((readPart_suffix hread).subset hparen)) rfl

theorem readAll_within_of_stuck (h : Stuck st t) : readAll n (st.within items) t = none := by
  rcases h with h | ⟨w, rfl, hcounts⟩
  · exact readAll_within_of_not_mem h
  · cases n with
    | zero => rfl
    | succ n =>
      have hskip : (st.within items).flags.skip ('{' :: w) = '{' :: w := by
        unfold Flags.skip
        split <;> rfl
      rw [readAll_of_skip hskip, readPart_brace, flags_within, hcounts]
      rfl

/-- A pattern that closes a group too much is none. -/
theorem readAll_of_closesNone (h : closesNone n st t = true) : readAll n st t = none := by
  induction n generalizing st t with
  | zero => rfl
  | succ n ih =>
    rw [readAll_succ]
    rw [closesNone] at h
    cases hcs : st.flags.skip t with
    | nil =>
      rw [hcs] at h
      cases h
    | cons c cs =>
      simp only [hcs] at h ⊢
      split at h
      · rename_i hstray
        obtain ⟨rfl, hgroups⟩ := hstray
        have hnone : st.closeGroup = none := by
          rw [ParseState.closeGroup, List.isEmpty_iff.1 hgroups]
        show (st.closeGroup.map fun st => (st, cs)).bind _ = none
        rw [hnone]
        rfl
      · split at h
        · rename_i hread
          rw [hread]
          exact ih h
        · cases h

/-- Rounds past the length of the text make no difference. -/
theorem readAll_fuel {m : Nat} (hn : t.length < n) (hm : t.length < m) :
    readAll n st t = readAll m st t := by
  induction n generalizing m st t with
  | zero => omega
  | succ n ih =>
    obtain ⟨m, rfl⟩ : ∃ l, m = l + 1 := ⟨m - 1, by omega⟩
    rw [readAll_succ, readAll_succ]
    cases hcs : st.flags.skip t with
    | nil => rfl
    | cons c cs =>
      have hle := (st.flags.skip_suffix t).length_le
      rw [hcs, List.length_cons] at hle
      simp only
      cases hread : readPart st c cs with
      | none => rfl
      | some hit =>
        have hrest := (readPart_suffix hread).length_le
        exact ih (by omega) (by omega)

/-- Behind the group, what follows it is read, and the whole is made of the content of the group. -/
def Finishes (items : List Item) (more : Text) (finish : Regex → Regex) : Prop :=
  ∀ n names r, readAll (n + 2) { items := .regex r :: items, names } more = some (finish r)

/-- At its end a pattern closes the group that it was put in. -/
theorem readAll_within_end (hfinish : Finishes items more finish) (hmore : ')' ∉ more)
    (hskip : st.flags.skip t = ')' :: more) :
    readAll (n + 3) (st.within items) t =
      if st.groups.isEmpty then some (finish st.value) else none := by
  have hskip' : (st.within items).flags.skip t = ')' :: more := hskip
  rw [readAll_of_skip hskip']
  by_cases hgroups : st.groups = []
  · obtain ⟨flags, alts, inner, groups, names⟩ := st
    subst hgroups
    exact hfinish n names _
  · rw [readPart_within fun _ => hgroups]
    simp only [List.isEmpty_iff, hgroups, if_false]
    cases hread : readPart st ')' more with
    | none => rfl
    | some hit =>
      exact readAll_within_of_not_mem fun hmem => hmore ((readPart_suffix hread).subset hmem)

/-- The reading of a pattern in an outer group, up to the end of that group. The reading with a
parenthesis alone tells whether the end of the group is hidden. -/
theorem readAll_within {m k : Nat} (hfinish : Finishes items more finish) (hend : Closing (')' :: more))
    (hstray : closesNone n st t = false) (hn : t.length < n) (hm : t.length + 2 < m)
    (hk : t.length + 1 < k) :
    readAll m (st.within items) (t ++ ')' :: more) =
      if (readAll k st (t ++ [')'])).isSome then none else (readAll n st t).map finish := by
  induction n generalizing m k st t with
  | zero => omega
  | succ n ih =>
    obtain ⟨m, rfl⟩ : ∃ l, m = l + 3 := ⟨m - 3, by omega⟩
    obtain ⟨k, rfl⟩ : ∃ l, k = l + 1 := ⟨k - 1, by omega⟩
    have hparen : Closing [')'] := .inl rfl
    have hmore : ')' ∉ more := by
      obtain ⟨more', heq, hmore'⟩ := hend.exists_eq
      rwa [← (List.cons.inj heq).2] at hmore'
    have hle := (st.flags.skip_suffix t).length_le
    rw [closesNone] at hstray
    rcases st.flags.skip_apart t with ⟨hnil, hskip⟩ | hskip
    · -- The parenthesis is in the last comment of the pattern.
      rw [readAll_succ, flags_within, hskip hend, readAll_succ, hskip hparen, readAll_succ, hnil]
      simp only [List.isEmpty_iff, groups_within_ne_nil, if_false]
      split <;> simp_all
    cases hcs : st.flags.skip t with
    | nil =>
      simp only [hcs, List.nil_append] at hskip
      have halone : readAll (n + 1) st t = if st.groups.isEmpty then some st.value else none := by
        rw [readAll_succ, hcs]
      rw [readAll_within_end hfinish hmore (hskip hend), halone]
      by_cases hgroups : st.groups = []
      · have hnone : readPart st ')' [] = none := by
          show st.closeGroup.map _ = none
          rw [ParseState.closeGroup, hgroups]
          rfl
        rw [readAll_of_skip (hskip hparen), hnone, hgroups]
        rfl
      · simp [hgroups]
    | cons c cs =>
      rw [hcs, List.length_cons] at hle
      simp only [hcs] at hstray
      simp only [hcs, List.cons_append] at hskip
      have hinner : ¬ (c = ')' ∧ st.groups.isEmpty = true) := fun h => by simp [h] at hstray
      rw [if_neg hinner] at hstray
      have hgroup : c = ')' → st.groups ≠ [] := fun hc hgroups => hinner ⟨hc, by rw [hgroups]; rfl⟩
      have hwithin : readPart (st.within items) c (cs ++ ')' :: more) =
          (readPart st c (cs ++ ')' :: more)).map fun hit => (hit.1.within items, hit.2) :=
        readPart_within hgroup
      have hskip' : (st.within items).flags.skip (t ++ ')' :: more) = c :: (cs ++ ')' :: more) :=
        hskip hend
      rw [readAll_of_skip hskip', hwithin, readAll_of_skip (hskip hparen), readAll_of_skip hcs]
      rcases readPart_apart st c cs with hcarry | ⟨hsame, hstuck⟩
      · rw [hcarry _ hend, hcarry _ hparen]
        cases hread : readPart st c cs with
        | none => rfl
        | some hit =>
          have hrest := (readPart_suffix hread).length_le
          rw [hread] at hstray
          exact ih hstray (by omega) (by omega) (by omega)
      · -- This round reads the end of the group as a part of what it began.
        have hlost : ((readPart st c (cs ++ ')' :: more)).map fun hit => (hit.1.within items, hit.2)).bind
            (fun hit => readAll (m + 2) hit.1 hit.2) = none := by
          cases hread : readPart st c (cs ++ ')' :: more) with
          | none => rfl
          | some hit => exact readAll_within_of_stuck (hstuck _ hend hit hread)
        rw [hlost]
        cases hread : readPart st c cs with
        | none => simp
        | some hit =>
          have hrest := (readPart_suffix hread).length_le
          rw [hsame hit hread _ hparen]
          simp only [Option.bind_some]
          rw [readAll_fuel (n := k) (m := n) (by omega) (by omega)]
          cases readAll n hit.1 hit.2 <;> rfl

end Within

/-! Patterns in a group of their own -/

variable {pattern : Text}

theorem parse?_of_straysOut (h : straysOut pattern = true) : parse? pattern = none :=
  readAll_of_closesNone h

/-- A pattern in a group is read as the pattern, if that does not close the group itself and a
parenthesis behind it is read. -/
theorem parse?_grouped (h : straysOut pattern = false) : parse? (PatternEngine.grouped pattern) =
    if (parse? (pattern ++ [')'])).isSome then none
    else (parse? pattern).map fun r => .seq r .empty := by
  have hsplit : PatternEngine.grouped pattern = '(' :: '?' :: ':' :: (pattern ++ [')']) := rfl
  have hopen : parse? (PatternEngine.grouped pattern) =
      readAll (pattern.length + 4) (ParseState.within [] {}) (pattern ++ [')']) := by
    rw [hsplit, parse?]
    simp only [List.length_cons, List.length_append, List.length_nil]
    rfl
  rw [hopen]
  exact readAll_within (fun _ _ _ => rfl) (.inl rfl) h (Nat.lt_succ_self _) (by omega) (by simp)

theorem parse?_anchored (h : straysOut pattern = false) : parse? (PatternEngine.anchored pattern) =
    if (parse? (pattern ++ [')'])).isSome then none else (parse? pattern).map whole := by
  have hsplit : PatternEngine.anchored pattern = '^' :: '(' :: '?' :: ':' :: (pattern ++ [')', '$']) := rfl
  have hopen : parse? (PatternEngine.anchored pattern) =
      readAll (pattern.length + 5) (ParseState.within [.regex (.look .startText)] {})
        (pattern ++ [')', '$']) := by
    rw [hsplit, parse?]
    simp only [List.length_cons, List.length_append, List.length_nil]
    rfl
  rw [hopen]
  exact readAll_within (fun _ _ _ => rfl) (.inr rfl) h (Nat.lt_succ_self _) (by omega) (by simp)

end Regex
end OpenGrammar
