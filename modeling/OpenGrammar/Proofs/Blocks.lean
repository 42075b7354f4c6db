import Mathlib.Data.List.Infix
import OpenGrammar.AttributeBlock
import OpenGrammar.Proofs.Scanning

/-! Attribute blocks as parts of the body they end. Production, block and entries are cut
out of the body and nothing is put in, so that a mark in one of them is in the body. -/
namespace OpenGrammar

theorem Token.spell_append (a b : List Token) : Token.spell (a ++ b) = Token.spell a ++ Token.spell b :=
  List.flatMap_append

theorem Token.spell_infix {a b : List Token} (h : a <:+: b) : Token.spell a <:+: Token.spell b := by
  obtain ⟨s, t, rfl⟩ := h
  exact ⟨Token.spell s, Token.spell t, by simp only [Token.spell_append]⟩

namespace AttributeBlock

open Token (spell tokenize)

theorem openingBrace?_append {depth : Nat} {behind toks inside before : List Token}
    (h : openingBrace? depth behind toks = some (inside, before)) :
    ∃ brace, before.reverse ++ brace :: inside = toks.reverse ++ behind := by
  induction toks generalizing depth behind with
  | nil => simp [openingBrace?] at h
  | cons tok toks ih =>
    have hstep : ∀ {d}, openingBrace? d (tok :: behind) toks = some (inside, before) →
        ∃ brace, before.reverse ++ brace :: inside = (tok :: toks).reverse ++ behind := by
      intro d hd
      simpa using ih hd
    rw [openingBrace?.eq_def] at h
    simp only at h
    split at h
    · exact hstep h
    · split at h
      · cases depth with
        | zero => cases h
        | succ d =>
          cases d with
          | zero =>
            obtain ⟨rfl, rfl⟩ := Prod.mk.inj (Option.some.inj h)
            exact ⟨tok, by simp⟩
          | succ d => exact hstep h
      · exact hstep h

theorem splitBody_cases (body : Text) :
    splitBody body = (Text.trimEnd body, none) ∨
      ∃ (before : List Token) (brace : Token) (inside : List Token),
        spell before ++ (brace.text ++ spell inside) = Text.trimEnd body ∧
          splitBody body = (Text.trimEnd (spell before), some (spell inside).dropLast) := by
  unfold splitBody
  simp only
  split
  · split
    · rename_i inside before hb
      right
      obtain ⟨brace, he⟩ := openingBrace?_append hb
      refine ⟨before.reverse, brace, inside, ?_, rfl⟩
      rw [List.reverse_reverse, List.append_nil] at he
      have hs := congrArg spell he
      rw [Token.spell_append, Token.spell_tokenize] at hs
      exact hs
    · exact Or.inl rfl
  · exact Or.inl rfl

theorem production_infix (body : Text) : (splitBody body).1 <:+: body := by
  have hb : Text.trimEnd body <:+: body := (Text.trimEnd_prefix_self body).isInfix
  rcases splitBody_cases body with h | ⟨before, brace, inside, he, h⟩
  · rw [h]
    exact hb
  · rw [h]
    refine (Text.trimEnd_prefix_self _).isInfix.trans (List.IsInfix.trans ?_ hb)
    rw [← he]
    exact (List.prefix_append _ _).isInfix

theorem block_infix {body inner : Text} (h : (splitBody body).2 = some inner) : inner <:+: body := by
  have hb : Text.trimEnd body <:+: body := (Text.trimEnd_prefix_self body).isInfix
  rcases splitBody_cases body with hs | ⟨before, brace, inside, he, hs⟩
  · rw [hs] at h
    cases h
  · rw [hs] at h
    rw [← Option.some.inj h]
    refine (List.dropLast_prefix _).isInfix.trans (List.IsInfix.trans ?_ hb)
    rw [← he]
    exact (List.suffix_append _ _).isInfix.trans (List.suffix_append _ _).isInfix

theorem split_entry {tok : Token} {toks key sign rest : List Token} (hk : tok.kind = .identifier)
    (he : entryKey? toks = some (key, sign, rest)) :
    split 0 (tok :: toks) = ([], ⟨tok, key, sign, (split 0 rest).1⟩ :: (split 0 rest).2) := by
  rw [split, if_pos ⟨rfl, hk⟩]
  split
  · rename_i he'
    rw [he] at he'
    simp only [Option.some.injEq, Prod.mk.injEq] at he'
    obtain ⟨rfl, rfl, rfl⟩ := he'
    rfl
  · rename_i he'
    rw [he] at he'
    cases he'

theorem split_word {tok : Token} {toks : List Token} (hk : tok.kind = .identifier)
    (he : entryKey? toks = none) :
    split 0 (tok :: toks) = (split 0 toks).map (tok :: ·) id := by
  rw [split, if_pos ⟨rfl, hk⟩]
  split
  · rename_i he'
    rw [he] at he'
    cases he'
  · rfl

theorem split_other {depth : Nat} {tok : Token} {toks : List Token}
    (h : ¬ (depth = 0 ∧ tok.kind = .identifier)) :
    split depth (tok :: toks) = (split (depthAfter depth tok) toks).map (tok :: ·) id := by
  rw [split, if_neg h]

theorem split_append (depth : Nat) (toks : List Token) :
    (split depth toks).1 ++ (split depth toks).2.flatMap Entry.tokens = toks := by
  induction depth, toks using split.induct with
  | case1 depth => simp [split]
  | case2 depth tok toks hd key sign rest he ih =>
    obtain ⟨rfl, hk⟩ := hd
    rw [split_entry hk he]
    simp [Entry.tokens, ih, entryKey?_append he]
  | case3 depth tok toks hd he ih =>
    obtain ⟨rfl, hk⟩ := hd
    rw [split_word hk he]
    simp [ih]
  | case4 depth tok toks hd ih =>
    rw [split_other hd]
    simp [ih]

theorem tokens_infix_of_mem_split {depth : Nat} {toks : List Token} {e : Entry}
    (h : e ∈ (split depth toks).2) : e.tokens <:+: toks := by
  obtain ⟨s, t, hst⟩ := List.append_of_mem h
  refine ⟨(split depth toks).1 ++ s.flatMap Entry.tokens, t.flatMap Entry.tokens, ?_⟩
  have hs := split_append depth toks
  rw [hst] at hs
  simpa using hs

theorem name_kind_of_mem_split {depth : Nat} {toks : List Token} {e : Entry}
    (h : e ∈ (split depth toks).2) : e.name.kind = .identifier := by
  induction depth, toks using split.induct with
  | case1 depth => simp [split] at h
  | case2 depth tok toks hd key sign rest he ih =>
    obtain ⟨rfl, hk⟩ := hd
    rw [split_entry hk he] at h
    rcases List.mem_cons.1 h with rfl | h
    · exact hk
    · exact ih h
  | case3 depth tok toks hd he ih =>
    obtain ⟨rfl, hk⟩ := hd
    rw [split_word hk he] at h
    exact ih h
  | case4 depth tok toks hd ih =>
    rw [split_other hd] at h
    exact ih h

theorem entry_infix {inner : Text} {a : Attribute} (h : a ∈ (parse inner).entries) :
    a.text <:+: inner ∧ a.value <:+: inner := by
  obtain ⟨e, he, rfl⟩ := List.mem_map.1 h
  have hinner : spell e.tokens <:+: inner := by
    have hs := Token.spell_infix (tokens_infix_of_mem_split he)
    rwa [Token.spell_tokenize] at hs
  refine ⟨(Text.trim_infix _).trans hinner, (Text.trim_infix _).trans (List.IsInfix.trans ?_ hinner)⟩
  apply Token.spell_infix
  exact ⟨e.name :: (e.key ++ e.sign), [], by simp [Entry.tokens]⟩

end AttributeBlock
end OpenGrammar
