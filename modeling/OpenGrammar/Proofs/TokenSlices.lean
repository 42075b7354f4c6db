import OpenGrammar.Proofs.ByteTokens

/-! Slices of a text from the start of one token to the end of another. Their tokens are
those of the text between the two ends, with their offsets counted from the start of the
slice. -/
namespace OpenGrammar
namespace Token

open Text (slice? utf8Size utf8Size_append)

def moved (n : Nat) (s : Token × Nat × Nat) : Token × Nat × Nat := (s.1, n + s.2.1, n + s.2.2)

theorem map_moved_spans (n start : Nat) (toks : List Token) :
    (spans start toks).map (moved n) = spans (n + start) toks := by
  induction toks generalizing start with
  | nil => rfl
  | cons tok toks ih =>
    simp only [spans, List.map_cons, ih, moved, Nat.add_assoc]

theorem getElem?_spans (start : Nat) (toks : List Token) (j : Nat) :
    (spans start toks)[j]? = toks[j]?.map fun tok =>
      (tok, start + utf8Size (spell (toks.take j)), start + utf8Size (spell (toks.take (j + 1)))) := by
  induction toks generalizing start j with
  | nil => simp [spans]
  | cons tok toks ih =>
    cases j with
    | zero => simp [spans]
    | succ j =>
      rw [spans, List.getElem?_cons_succ, ih, List.getElem?_cons_succ]
      simp only [List.take_succ_cons, spell_cons, utf8Size_append, Nat.add_assoc]

theorem drop_take_spans (start j k : Nat) (toks : List Token) :
    ((spans start toks).take k).drop j =
      spans (start + utf8Size (spell (toks.take j))) ((toks.take k).drop j) := by
  induction toks generalizing start j k with
  | nil => simp [spans]
  | cons tok toks ih =>
    cases k with
    | zero => simp [spans]
    | succ k =>
      cases j with
      | zero =>
        have hrest := ih (start + utf8Size tok.text) 0 k
        simp only [List.drop_zero, List.take_zero, spell_nil, Text.utf8Size_nil, Nat.add_zero] at hrest
        simp [spans, hrest]
      | succ j =>
        rw [spans, List.take_succ_cons, List.drop_succ_cons, ih, List.take_succ_cons,
          List.take_succ_cons, List.drop_succ_cons, spell_cons, utf8Size_append, Nat.add_assoc]

theorem slice?_of_tokens {t : Text} {j k : Nat} (hjk : j ≤ k) :
    slice? t (utf8Size (spell ((tokenize t).take j))) (utf8Size (spell ((tokenize t).take k))) =
      some (spell (((tokenize t).take k).drop j)) := by
  have hfront : ((tokenize t).take k).take j = (tokenize t).take j := by
    rw [List.take_take, Nat.min_eq_left hjk]
  have htake : (tokenize t).take k = (tokenize t).take j ++ ((tokenize t).take k).drop j := by
    conv_lhs => rw [← List.take_append_drop j ((tokenize t).take k), hfront]
  have ht : t = spell ((tokenize t).take j) ++
      (spell (((tokenize t).take k).drop j) ++ spell ((tokenize t).drop k)) := by
    rw [← List.append_assoc, ← spell_append, ← htake, ← spell_append, List.take_append_drop,
      spell_tokenize]
  have hstop : utf8Size (spell ((tokenize t).take k)) = utf8Size (spell ((tokenize t).take j)) +
      utf8Size (spell (((tokenize t).take k).drop j)) := by
    rw [← utf8Size_append, ← spell_append, ← htake]
  have hslice := Text.slice?_append (spell ((tokenize t).take j))
    (spell (((tokenize t).take k).drop j)) (spell ((tokenize t).drop k))
  rw [← ht, ← hstop] at hslice
  exact hslice

theorem tokenize_between (t : Text) (j k : Nat) :
    tokenize (spell (((tokenize t).take k).drop j)) = ((tokenize t).take k).drop j := by
  refine tokenize_spell_of_tokenize (t := t) (a := ((tokenize t).take k).take j)
    (c := (tokenize t).drop k) ?_
  rw [← List.append_assoc, List.take_append_drop, List.take_append_drop]

/-- A slice that begins and ends with tokens of a text has the tokens of the text between its ends,
each as far behind its start as in the text. So each token alone is read as itself. -/
theorem tokenize_slice (t : Text) :
    (∀ j k first last, j ≤ k → (spans 0 (tokenize t))[j]? = some first →
      (spans 0 (tokenize t))[k]? = some last →
        ∃ part, slice? t first.2.1 last.2.2 = some part ∧
          (spans 0 (tokenize part)).map (moved first.2.1) =
            ((spans 0 (tokenize t)).take (k + 1)).drop j) ∧
      ∀ tok ∈ tokenize t, tokenize tok.text = [tok] := by
  constructor
  · intro j k first last hjk hfirst hlast
    have hstart : first.2.1 = utf8Size (spell ((tokenize t).take j)) := by
      rw [getElem?_spans, Option.map_eq_some_iff] at hfirst
      obtain ⟨tok, -, rfl⟩ := hfirst
      exact Nat.zero_add _
    have hstop : last.2.2 = utf8Size (spell ((tokenize t).take (k + 1))) := by
      rw [getElem?_spans, Option.map_eq_some_iff] at hlast
      obtain ⟨tok, -, rfl⟩ := hlast
      exact Nat.zero_add _
    refine ⟨spell (((tokenize t).take (k + 1)).drop j), ?_, ?_⟩
    · rw [hstart, hstop]
      exact slice?_of_tokens (Nat.le_succ_of_le hjk)
    · rw [tokenize_between, map_moved_spans, hstart, drop_take_spans, Nat.add_comm]
  · intro tok htok
    obtain ⟨a, b, he⟩ := List.append_of_mem htok
    have hself := tokenize_spell_of_tokenize (t := t) (a := a) (b := [tok]) (c := b) he
    rwa [spell_cons, spell_nil, List.append_nil] at hself

def mixed : Text := "é 'a\\'b'/* x */// c".toList

theorem tokenize_slice_mixed :
    (spans 0 (tokenize mixed))[2]? = some (⟨.literal, "'a\\'b'".toList⟩, 3, 9) ∧
      (spans 0 (tokenize mixed))[3]? = some (⟨.blockComment, "/* x */".toList⟩, 9, 16) ∧
      ∃ part, slice? mixed 3 16 = some part ∧
        (spans 0 (tokenize part)).map (moved 3) = ((spans 0 (tokenize mixed)).take 4).drop 2 := by
  have hfirst : (spans 0 (tokenize mixed))[2]? = some (⟨.literal, "'a\\'b'".toList⟩, 3, 9) := by
    decide +kernel
  have hlast : (spans 0 (tokenize mixed))[3]? =
      some (⟨.blockComment, "/* x */".toList⟩, 9, 16) := by decide +kernel
  exact ⟨hfirst, hlast, (tokenize_slice mixed).1 2 3 _ _ (by decide) hfirst hlast⟩

end Token
end OpenGrammar
