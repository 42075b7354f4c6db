import OpenGrammar.Proofs.Lines
import OpenGrammar.Token

/-! Fragments: a text together with what was put in the place of its parts. Both ways in
which names of a body are replaced are read as lists of fragments, so that what a
replacement can and cannot bring into a text is shown once. -/
namespace OpenGrammar

/-- A part of a text that stays as it is, or one in whose place another text stands. -/
inductive Fragment
  | copied (t : Text)
  | linked (given target : Text)
  deriving DecidableEq, Repr

namespace Token

def isIdentifier : Text → Bool
  | [] => false
  | c :: cs => isIdentStart c && cs.all isIdentPart

theorem isIdentPart_of_isIdentStart {c : Char} (h : isIdentStart c = true) : isIdentPart c = true := by
  simp only [isIdentStart, isIdentPart, Char.isAlphanum, Bool.or_eq_true] at h ⊢
  rcases h with h | h
  · exact Or.inl (Or.inl h)
  · exact Or.inr h

theorem isIdentPart_of_mem {name : Text} {c : Char} (h : isIdentifier name = true) (hc : c ∈ name) :
    isIdentPart c = true := by
  cases name with
  | nil => simp at hc
  | cons d ds =>
    simp only [isIdentifier, Bool.and_eq_true, List.all_eq_true] at h
    rcases List.mem_cons.1 hc with rfl | hc
    · exact isIdentPart_of_isIdentStart h.1
    · exact h.2 c hc

theorem isIdentifier_first {c : Char} {cs : Text} (h : (first c cs).1 = .identifier) :
    isIdentifier (c :: (first c cs).2.1) = true := by
  by_cases hc : isIdentStart c = true
  · have hf : (first c cs).2.1 = cs.takeWhile isIdentPart := by simp [first, hc]
    rw [hf, isIdentifier, hc, Bool.true_and, List.all_takeWhile]
  · -- every other branch yields a token of another kind
    exfalso
    simp only [first, hc, Bool.false_eq_true, ↓reduceIte] at h
    split at h
    · cases h
    split at h
    · cases h
    split at h
    · cases h
    split at h
    · cases h
    split at h
    · cases h
    · cases h

theorem isIdentifier_of_mem_tokenize {t : Text} {tok : Token} (h : tok ∈ tokenize t)
    (hk : tok.kind = .identifier) : isIdentifier tok.text = true := by
  induction t using tokenize.induct with
  | case1 => simp [tokenize] at h
  | case2 c cs ih =>
    rw [tokenize, List.mem_cons] at h
    rcases h with rfl | h
    · exact isIdentifier_first hk
    · exact ih h

def Piece.given : Piece → Text
  | .plain tok => tok.text
  | .external name => '{' :: name ++ ['}']

theorem given_pieces (toks : List Token) : (pieces toks).flatMap Piece.given = spell toks := by
  fun_induction pieces toks with
  | case1 op name cl toks h ih => simp_all [spell, Piece.given]
  | case2 op name cl toks h ih => simp_all [spell, Piece.given]
  | case3 op toks h ih => simp_all [spell, Piece.given]
  | case4 => simp [spell]

theorem mem_of_external_mem_pieces {toks : List Token} {name : Text}
    (h : Piece.external name ∈ pieces toks) :
    ∃ tok ∈ toks, tok.kind = .identifier ∧ tok.text = name := by
  fun_induction pieces toks with
  | case1 op ident cl toks hop ih =>
    rcases List.mem_cons.1 h with he | h
    · exact ⟨ident, by simp, hop.2.1, (Piece.external.inj he).symm⟩
    · obtain ⟨tok, htok, hk⟩ := ih h
      exact ⟨tok, by simp [htok], hk⟩
  | case2 op ident cl toks hop ih =>
    obtain ⟨tok, htok, hk⟩ := ih (by simpa using h)
    exact ⟨tok, List.mem_cons_of_mem _ htok, hk⟩
  | case3 op toks hop ih =>
    obtain ⟨tok, htok, hk⟩ := ih (by simpa using h)
    exact ⟨tok, List.mem_cons_of_mem _ htok, hk⟩
  | case4 => simp at h

end Token

namespace Fragment

open Token (tokenize pieces)

def given : Fragment → Text
  | copied t => t
  | linked given _ => given

def text : Fragment → Text
  | copied t => t
  | linked _ target => target

def spell (fs : List Fragment) : Text := fs.flatMap text

@[simp] theorem spell_nil : spell [] = [] := rfl

@[simp] theorem spell_cons (f : Fragment) (fs : List Fragment) : spell (f :: fs) = f.text ++ spell fs :=
  rfl

@[simp] theorem spell_append (fs gs : List Fragment) : spell (fs ++ gs) = spell fs ++ spell gs :=
  List.flatMap_append

theorem spell_flatMap {α : Type} (l : List α) (f : α → List Fragment) :
    spell (l.flatMap f) = l.flatMap fun a => spell (f a) := by
  simp only [spell, List.flatMap_assoc]

def ofToken (f : Text → Option Text) (tok : Token) : Fragment :=
  if tok.kind = .identifier then
    match f tok.text with
    | some target => .linked tok.text target
    | none => .copied tok.text
  else .copied tok.text

def ofIdentifiers (f : Text → Option Text) (t : Text) : List Fragment := (tokenize t).map (ofToken f)

def ofExternals (f : Text → Text) (t : Text) : List Fragment :=
  (pieces (tokenize t)).map fun
    | .plain tok => .copied tok.text
    | .external name => .linked ('{' :: name ++ ['}']) (f name)

theorem given_ofToken (f : Text → Option Text) (tok : Token) : (ofToken f tok).given = tok.text := by
  unfold ofToken
  split
  · split <;> rfl
  · rfl

theorem text_ofToken (f : Text → Option Text) (tok : Token) :
    (ofToken f tok).text =
      if tok.kind = .identifier then (f tok.text).getD tok.text else tok.text := by
  unfold ofToken
  split
  · split <;> simp_all [text]
  · rfl

@[simp] theorem spell_ofIdentifiers (f : Text → Option Text) (t : Text) :
    spell (ofIdentifiers f t) = Token.mapIdentifiers f t := by
  simp only [spell, ofIdentifiers, Token.mapIdentifiers, List.flatMap_map, text_ofToken]

@[simp] theorem given_ofIdentifiers (f : Text → Option Text) (t : Text) :
    (ofIdentifiers f t).flatMap given = t := by
  simp only [ofIdentifiers, List.flatMap_map, given_ofToken]
  exact Token.spell_tokenize t

theorem linked_mem_ofIdentifiers {f : Text → Option Text} {t name target : Text}
    (h : linked name target ∈ ofIdentifiers f t) :
    Token.isIdentifier name = true ∧ f name = some target := by
  obtain ⟨tok, htok, he⟩ := List.mem_map.1 h
  unfold ofToken at he
  split at he
  · rename_i hk
    split at he
    · rename_i r hr
      obtain ⟨rfl, rfl⟩ := Fragment.linked.inj he
      exact ⟨Token.isIdentifier_of_mem_tokenize htok hk, hr⟩
    · cases he
  · cases he

@[simp] theorem spell_ofExternals (f : Text → Text) (t : Text) :
    spell (ofExternals f t) = Token.mapExternals f t := by
  simp only [spell, ofExternals, Token.mapExternals, List.flatMap_map]
  congr 1
  funext piece
  cases piece <;> rfl

@[simp] theorem given_ofExternals (f : Text → Text) (t : Text) :
    (ofExternals f t).flatMap given = t := by
  have h := Token.given_pieces (tokenize t)
  rw [Token.spell_tokenize] at h
  rw [ofExternals, List.flatMap_map]
  refine Eq.trans ?_ h
  congr 1
  funext piece
  cases piece <;> rfl

theorem linked_mem_ofExternals {f : Text → Text} {t given target : Text}
    (h : linked given target ∈ ofExternals f t) :
    ∃ name, Token.isIdentifier name = true ∧ target = f name := by
  obtain ⟨piece, hp, he⟩ := List.mem_map.1 h
  cases piece with
  | plain tok => cases he
  | external name =>
    obtain ⟨tok, htok, hk, rfl⟩ := Token.mem_of_external_mem_pieces hp
    exact ⟨tok.text, Token.isIdentifier_of_mem_tokenize htok hk, (Fragment.linked.inj he).2.symm⟩

/-! Marks -/

/-- A text that keeps the mark out, whatever stands around it. -/
def Bars (mark t : Text) : Prop :=
  ∀ before after, mark <:+: before ++ (t ++ after) → mark <:+: before ∨ mark <:+: after

theorem bars_of_ends {mark inner : Text} {c d : Char} (hc : c ∉ mark) (hd : d ∉ mark)
    (hi : ¬ mark <:+: inner) : Bars mark (c :: inner ++ [d]) := by
  intro before after h
  rw [List.cons_append, List.cons_append, Text.infix_append_cons_iff hc, List.append_assoc,
    List.singleton_append, Text.infix_append_cons_iff hd] at h
  rcases h with h | h | h
  · exact Or.inl h
  · exact absurd h hi
  · exact Or.inr h

/-- Where only barring texts are put in, no mark comes up. The text before the fragments
is there for the induction: a mark may begin in a copied part. -/
theorem not_infix_append_spell {mark : Text} {fs : List Fragment}
    (hb : ∀ given target, linked given target ∈ fs → Bars mark target) (lead : Text)
    (h : ¬ mark <:+: lead ++ fs.flatMap given) : ¬ mark <:+: lead ++ spell fs := by
  induction fs generalizing lead with
  | nil => exact h
  | cons f fs ih =>
    have hb' : ∀ given target, linked given target ∈ fs → Bars mark target :=
      fun given target hm => hb given target (List.mem_cons_of_mem _ hm)
    rw [List.flatMap_cons] at h
    rw [spell_cons]
    cases f with
    | copied t =>
      have hlead := ih hb' (lead ++ t) (by rwa [List.append_assoc])
      rwa [List.append_assoc] at hlead
    | linked name target =>
      intro hm
      rcases hb name target (by simp) _ _ hm with hm | hm
      · exact h (hm.trans (List.prefix_append _ _).isInfix)
      · refine ih hb' [] (fun hs => h ?_) hm
        exact hs.trans ((List.suffix_append _ _).isInfix.trans (List.suffix_append _ _).isInfix)

theorem not_infix_mapIdentifiers {mark t : Text} {f : Text → Option Text}
    (hf : ∀ name target, Token.isIdentifier name = true → f name = some target → Bars mark target)
    (h : ¬ mark <:+: t) : ¬ mark <:+: Token.mapIdentifiers f t := by
  rw [← spell_ofIdentifiers, ← List.nil_append (spell _)]
  apply not_infix_append_spell
  · intro name target hm
    obtain ⟨hn, ht⟩ := linked_mem_ofIdentifiers hm
    exact hf name target hn ht
  · rwa [given_ofIdentifiers]

theorem not_infix_mapExternals {mark t : Text} {f : Text → Text}
    (hf : ∀ name, Token.isIdentifier name = true → Bars mark (f name)) (h : ¬ mark <:+: t) :
    ¬ mark <:+: Token.mapExternals f t := by
  rw [← spell_ofExternals, ← List.nil_append (spell _)]
  apply not_infix_append_spell
  · intro given target hm
    obtain ⟨name, hn, rfl⟩ := linked_mem_ofExternals hm
    exact hf name hn
  · rwa [given_ofExternals]

end Fragment
end OpenGrammar
