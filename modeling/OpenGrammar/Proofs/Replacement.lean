import OpenGrammar.Proofs.RuleHeads
import OpenGrammar.Proofs.TokenBoundaries

/-! Tokens in the place of others. A name is replaced by a name or by a call, and neither runs
into what stands beside it: the tokens of a text in which names were replaced are its own
tokens with those of the replacements among them. -/
namespace OpenGrammar
namespace Token

/-- Every token that stops before the first text stops before the second. -/
def Admits (a b : Text) : Prop := ∀ tok : Token, tok.Stops a → tok.Stops b

theorem Admits.refl (a : Text) : Admits a a := fun _ h => h

/-- Tokens that may stand in the place of others, whatever is around them. -/
structure StandsFor (given target : List Token) : Prop where
  admits : ∀ {a b}, Admits a b → Admits (spell given ++ a) (spell target ++ b)
  parted : ∀ {a b}, Admits a b → Parted given a → Parted target b

namespace StandsFor

theorem nil : StandsFor [] [] where
  admits h := h
  parted _ _ := parted_nil _

theorem single (tok : Token) : StandsFor [tok] [tok] where
  admits := by
    intro a b h
    by_cases ht : tok.text = []
    · simpa [ht] using h
    · intro other hs
      simp only [spell_cons, spell_nil, List.append_nil] at hs ⊢
      rw [stops_append_iff ht] at hs ⊢
      exact hs
  parted := by
    rintro a b h ⟨hl, -⟩
    rw [spell_nil, List.nil_append, leads_iff] at hl
    refine ⟨?_, parted_nil _⟩
    rw [spell_nil, List.nil_append, leads_iff]
    exact ⟨hl.1, h tok hl.2⟩

theorem append {given target given' target' : List Token} (h : StandsFor given target)
    (h' : StandsFor given' target') : StandsFor (given ++ given') (target ++ target') where
  admits := by
    intro a b hab
    rw [spell_append, spell_append, List.append_assoc, List.append_assoc]
    exact h.admits (h'.admits hab)
  parted := by
    intro a b hab hp
    rw [parted_append] at hp ⊢
    exact ⟨h.parted (h'.admits hab) hp.1, h'.parted hab hp.2⟩

theorem flatMap {α : Type} {l : List α} {f g : α → List Token}
    (h : ∀ x ∈ l, StandsFor (f x) (g x)) : StandsFor (l.flatMap f) (l.flatMap g) := by
  induction l with
  | nil => exact nil
  | cons x l ih =>
    simp only [List.flatMap_cons]
    exact (h x (by simp)).append (ih fun y hy => h y (List.mem_cons_of_mem _ hy))

theorem tokenize_spell {given target : List Token} {t : Text} (h : StandsFor given target)
    (ht : tokenize t = given) : tokenize (spell target) = target := by
  apply Token.tokenize_spell
  refine h.parted (Admits.refl []) ?_
  rw [← ht]
  exact parted_tokenize t

end StandsFor

/-! Words and calls -/

theorem tokenize_word {c : Char} {cs : Text} (h : ∀ d ∈ c :: cs, isIdentPart d = true) :
    (isIdentStart c = true ∧ tokenize (c :: cs) = [⟨.identifier, c :: cs⟩]) ∨
      (isIdentStart c = false ∧ tokenize (c :: cs) = [⟨.number, c :: cs⟩]) := by
  have hcs : ∀ d ∈ cs, isIdentPart d = true := fun d hd => h d (List.mem_cons_of_mem _ hd)
  have hspan := (@span_append_iff isIdentPart cs []).2 ⟨hcs, by simp⟩
  rw [List.append_nil] at hspan
  cases hc : isIdentStart c with
  | true => exact Or.inl ⟨rfl, by simp [tokenize, first_of_identStart hc, hspan]⟩
  | false =>
    have hdigit : c.isDigit = true := by
      have hp := h c (by simp)
      simp only [isIdentStart, isIdentPart, Char.isAlphanum, Bool.or_eq_true,
        Bool.or_eq_false_iff] at hp hc
      simpa [hc] using hp
    exact Or.inr ⟨rfl, by simp [tokenize, first_of_digit hc hdigit, hspan]⟩

theorem tokenize_identifier {name : Text} (h : isIdentifier name = true) :
    tokenize name = [⟨.identifier, name⟩] := by
  cases name with
  | nil => cases h
  | cons c cs =>
    rcases tokenize_word (fun d hd => isIdentPart_of_mem h hd) with ⟨-, ht⟩ | ⟨hc, -⟩
    · exact ht
    · simp [isIdentifier, hc] at h

/-- A text that runs neither into what stands before it nor into what comes behind it. -/
structure IsLink (t : Text) : Prop where
  head : ∃ c cs, t = c :: cs ∧ (c = '<' ∨ isIdentStart c = true)
  last : ∀ tok ∈ (tokenize t).getLast?, ∀ d, isIdentPart d = false → tok.EndsBefore d

/-- A text that may stand between any two others. -/
structure IsCall (t : Text) : Prop where
  head : ∃ cs, t = '<' :: cs
  last : ∀ tok ∈ (tokenize t).getLast?, ∀ d, tok.EndsBefore d

theorem IsCall.isLink {t : Text} (h : IsCall t) : IsLink t where
  head := by
    obtain ⟨cs, he⟩ := h.head
    exact ⟨'<', cs, he, Or.inl rfl⟩
  last tok ht d _ := h.last tok ht d

theorem EndsBefore.of_char {tok : Token} {c d : Char} (h : tok.EndsBefore c) (hc : c ≠ '\n')
    (hd : d ≠ '/' ∧ d ≠ '*') (hgap : isGap d = false)
    (hpart : isIdentPart d = true → isIdentPart c = true) : tok.EndsBefore d := by
  have hword : isIdentPart c = false → isIdentPart d = false := fun hf => by
    by_contra hne
    rw [hpart (by simpa using hne)] at hf
    cases hf
  unfold EndsBefore at h ⊢
  cases hk : tok.kind <;> simp only [hk] at h ⊢
  · exact hword h
  · exact h
  · exact absurd h hc
  · exact h
  · exact hgap
  · exact hword h
  · exact fun _ => hd

theorem isIdentStart_cases {c : Char} (h : isIdentStart c = true) :
    c ≠ '\n' ∧ (c ≠ '/' ∧ c ≠ '*') ∧ isGap c = false := by
  have hne : ∀ d, isIdentStart d = false → c ≠ d := by
    rintro d hd rfl
    rw [h] at hd
    cases hd
  have hgap : isGap c = false := by
    simp only [isGap, Bool.or_eq_false_iff, beq_eq_false_iff_ne]
    exact ⟨⟨⟨⟨hne _ (by decide), hne _ (by decide)⟩, hne _ (by decide)⟩, hne _ (by decide)⟩,
      hne _ (by decide)⟩
  exact ⟨hne _ (by decide), ⟨hne _ (by decide), hne _ (by decide)⟩, hgap⟩

theorem IsLink.standsFor {name t : Text} (h : IsLink t) (hn : isIdentifier name = true) :
    StandsFor [⟨.identifier, name⟩] (tokenize t) where
  admits := by
    intro a b _ tok hs
    obtain ⟨d, ds, rfl, hd⟩ := h.head
    cases name with
    | nil => cases hn
    | cons c cs =>
      have hc : isIdentStart c = true := by
        simp only [isIdentifier, Bool.and_eq_true] at hn
        exact hn.1
      simp only [spell_tokenize, spell_cons, spell_nil, List.append_nil, List.cons_append,
        stops_cons] at hs ⊢
      have hopen : (d ≠ '/' ∧ d ≠ '*') ∧ isGap d = false := by
        rcases hd with rfl | hd
        · decide
        · exact (isIdentStart_cases hd).2
      exact hs.of_char (isIdentStart_cases hc).1 hopen.1 hopen.2 fun _ =>
        isIdentPart_of_isIdentStart hc
  parted := by
    rintro a b hab ⟨hl, -⟩
    rw [parted_iff]
    refine ⟨parted_tokenize t, fun tok ht => hab tok fun d hd => h.last tok ht d ?_⟩
    exact hl.stops d (by simpa using hd)

def externalTokens (name : Text) : List Token := [⟨.symbol, ['{']⟩, ⟨.identifier, name⟩, ⟨.symbol, ['}']⟩]

theorem IsCall.standsFor {t : Text} (h : IsCall t) (name : Text) :
    StandsFor (externalTokens name) (tokenize t) where
  admits := by
    intro a b _ tok hs
    obtain ⟨cs, rfl⟩ := h.head
    simp only [externalTokens, spell_tokenize, spell_cons, List.cons_append, stops_cons] at hs ⊢
    exact EndsBefore.of_char hs (by decide) (by decide) (by decide) (by decide)
  parted := by
    intro a b _ _
    rw [parted_iff]
    exact ⟨parted_tokenize t, fun tok ht d _ => h.last tok ht d⟩

theorem endsBefore_of_word {word : Text} (h : ∀ c ∈ word, isIdentPart c = true) {tok : Token}
    (ht : tok ∈ (tokenize word).getLast?) {d : Char} (hd : isIdentPart d = false) :
    tok.EndsBefore d := by
  cases word with
  | nil => simp [tokenize] at ht
  | cons c cs =>
    rcases tokenize_word h with ⟨-, he⟩ | ⟨-, he⟩
    · rw [he] at ht
      obtain rfl : _ = tok := by simpa using ht
      exact hd
    · rw [he] at ht
      obtain rfl : _ = tok := by simpa using ht
      exact hd

theorem tokenize_angled {t : Text} (h : ∀ tok ∈ (tokenize t).getLast?, tok.EndsBefore '>') :
    tokenize ("<<".toList ++ t ++ ">>".toList) =
      [⟨.symbol, ['<']⟩, ⟨.symbol, ['<']⟩] ++ (tokenize t ++ [⟨.symbol, ['>']⟩, ⟨.symbol, ['>']⟩]) := by
  have hopen : isPlain '<' = true := by decide
  have hclose : isPlain '>' = true := by decide
  have hangled : "<<".toList ++ t ++ ">>".toList = '<' :: '<' :: (t ++ ['>', '>']) := rfl
  rw [hangled, tokenize_plain hopen, tokenize_plain hopen, tokenize_append,
    tokenize_plain hclose, tokenize_plain hclose, tokenize]
  · rfl
  · exact fun tok ht => stops_cons.2 (h tok ht)

theorem tokenize_spaced {word t : Text} (hw : ∀ c ∈ word, isIdentPart c = true)
    (ht : ∀ c ∈ t.head?, isGap c = false) :
    tokenize (word ++ ' ' :: t) = tokenize word ++ ⟨.whitespace, [' ']⟩ :: tokenize t := by
  have hspace : tokenize (' ' :: t) = ⟨.whitespace, [' ']⟩ :: tokenize t :=
    @tokenize_gap [' '] t (by simp) (by simp [isGap]) ht
  rw [tokenize_append, hspace]
  intro tok hl
  exact stops_cons.2 (endsBefore_of_word hw hl (by decide))

theorem isCall_angled {t : Text} (h : ∀ tok ∈ (tokenize t).getLast?, tok.EndsBefore '>') :
    IsCall ("<<".toList ++ t ++ ">>".toList) where
  head := ⟨_, rfl⟩
  last := by
    intro tok ht d
    have he : tokenize ("<<".toList ++ t ++ ">>".toList) =
        ([⟨.symbol, ['<']⟩, ⟨.symbol, ['<']⟩] ++ (tokenize t ++ [⟨.symbol, ['>']⟩])) ++
          [⟨.symbol, ['>']⟩] := by
      rw [tokenize_angled h]
      simp
    rw [he, List.getLast?_concat] at ht
    obtain rfl : ⟨.symbol, ['>']⟩ = tok := Option.some.inj ht
    exact fun h => absurd h (by decide)

theorem isCall_call {accessor target : Text} (ha : ∀ c ∈ accessor, isIdentPart c = true)
    (hhead : ∀ c ∈ target.head?, isGap c = false)
    (hlast : ∀ tok ∈ (tokenize target).getLast?, tok.EndsBefore '>') :
    IsCall (Linkage.call accessor target) := by
  have hcall : Linkage.call accessor target =
      "<<".toList ++ (accessor ++ ' ' :: target) ++ ">>".toList := by simp [Linkage.call]
  rw [hcall]
  refine isCall_angled fun tok ht => ?_
  rw [tokenize_spaced ha hhead, List.getLast?_append] at ht
  cases he : tokenize target with
  | nil =>
    obtain rfl : ⟨.whitespace, [' ']⟩ = tok := by simpa [he] using ht
    exact (by decide : isGap '>' = false)
  | cons first rest =>
    refine hlast tok ?_
    rw [he, List.getLast?_cons_of_ne_nil (by simp)] at ht
    rw [he]
    exact ht

theorem isLink_identifier {name : Text} (h : isIdentifier name = true) : IsLink name where
  head := by
    cases name with
    | nil => cases h
    | cons c cs =>
      simp only [isIdentifier, Bool.and_eq_true] at h
      exact ⟨c, cs, rfl, Or.inr h.1⟩
  last := by
    intro tok ht d hd
    exact endsBefore_of_word (fun c hc => isIdentPart_of_mem h hc) ht hd

/-! Texts in which names were replaced -/

def relink (f : Text → Option Text) (tok : Token) : List Token :=
  if tok.kind = .identifier then (f tok.text).elim [tok] tokenize else [tok]

theorem spell_relink (f : Text → Option Text) (tok : Token) :
    spell (relink f tok) = if tok.kind = .identifier then (f tok.text).getD tok.text else tok.text := by
  unfold relink
  split
  · cases f tok.text <;> simp
  · simp

theorem mapIdentifiers_eq (f : Text → Option Text) (t : Text) :
    mapIdentifiers f t = spell ((tokenize t).flatMap (relink f)) := by
  simp only [mapIdentifiers, spell, List.flatMap_assoc]
  congr 1
  funext tok
  exact (spell_relink f tok).symm

theorem tokenize_mapIdentifiers {f : Text → Option Text} {t : Text}
    (hf : ∀ name target, isIdentifier name = true → f name = some target → IsLink target) :
    tokenize (mapIdentifiers f t) = (tokenize t).flatMap (relink f) := by
  have hstands : StandsFor ((tokenize t).flatMap fun tok => [tok]) ((tokenize t).flatMap (relink f)) := by
    refine StandsFor.flatMap fun tok ht => ?_
    unfold relink
    split
    · rename_i hk
      have hn := isIdentifier_of_mem_tokenize ht hk
      cases hr : f tok.text with
      | none => exact StandsFor.single tok
      | some target =>
        have hl := (hf _ _ hn hr).standsFor hn
        rwa [← hk] at hl
    · exact StandsFor.single tok
  rw [mapIdentifiers_eq]
  exact hstands.tokenize_spell (t := t) (by simp)

def Piece.tokens : Piece → List Token
  | .plain tok => [tok]
  | .external name => externalTokens name

def Piece.relink (f : Text → Text) : Piece → List Token
  | .plain tok => [tok]
  | .external name => tokenize (f name)

/-- Induction along the pieces of a text. It starts with a token that stands on its own, or with an
external reference. -/
@[elab_as_elim]
theorem pieces_induction {motive : List Token → Prop} {toks : List Token}
    (h : ∀ tok ∈ toks, tok.Leads []) (nil : motive [])
    (alone : ∀ tok toks, pieces (tok :: toks) = .plain tok :: pieces toks → motive toks →
      motive (tok :: toks))
    (reference : ∀ name toks, motive toks → motive (externalTokens name ++ toks)) :
    motive toks := by
  fun_induction pieces toks with
  | case1 op name cl toks hop ih =>
    have hopen := eq_symbol_of_text (h op (by simp)) (by decide) hop.1
    have hclose := eq_symbol_of_text (h cl (by simp)) (by decide) hop.2.2
    have hname : name = ⟨.identifier, name.text⟩ := by rw [← hop.2.1]
    have htoks : op :: name :: cl :: toks = externalTokens name.text ++ toks := by
      rw [hopen, hclose, hname]
      rfl
    rw [htoks]
    exact reference _ _ (ih fun tok ht => h tok (by simp [ht]))
  | case2 op name cl toks hop ih =>
    exact alone _ _ (by rw [pieces, if_neg hop]) (ih (List.forall_mem_of_forall_mem_cons h))
  | case3 op toks hop ih =>
    exact alone _ _ (by rw [pieces]; exact hop) (ih (List.forall_mem_of_forall_mem_cons h))
  | case4 => exact nil

theorem pieces_externalTokens (name : Text) (toks : List Token) :
    pieces (externalTokens name ++ toks) = .external name :: pieces toks := rfl

theorem tokens_pieces {toks : List Token} (h : ∀ tok ∈ toks, tok.Leads []) :
    (pieces toks).flatMap Piece.tokens = toks := by
  refine pieces_induction h ?nil ?alone ?reference
  case nil => rfl
  case alone =>
    intro tok toks hp ih
    rw [hp, List.flatMap_cons, ih]
    rfl
  case reference =>
    intro name toks ih
    rw [pieces_externalTokens, List.flatMap_cons, ih]
    rfl

theorem mapExternals_eq (f : Text → Text) (t : Text) :
    mapExternals f t = spell ((pieces (tokenize t)).flatMap (Piece.relink f)) := by
  simp only [mapExternals, spell, List.flatMap_assoc]
  congr 1
  funext piece
  cases piece with
  | plain tok => simp [Piece.relink]
  | external name => exact (spell_tokenize (f name)).symm

theorem tokenize_mapExternals {f : Text → Text} {t : Text}
    (hf : ∀ name, isIdentifier name = true → IsCall (f name)) :
    tokenize (mapExternals f t) = (pieces (tokenize t)).flatMap (Piece.relink f) := by
  have hstands : StandsFor ((pieces (tokenize t)).flatMap Piece.tokens)
      ((pieces (tokenize t)).flatMap (Piece.relink f)) := by
    refine StandsFor.flatMap fun piece hp => ?_
    cases piece with
    | plain tok => exact StandsFor.single tok
    | external name =>
      obtain ⟨tok, ht, hk, rfl⟩ := mem_of_external_mem_pieces hp
      exact (hf _ (isIdentifier_of_mem_tokenize ht hk)).standsFor _
  rw [mapExternals_eq]
  exact hstands.tokenize_spell (tokens_pieces fun tok ht => leads_of_mem_tokenize ht).symm

end Token

/-! The replacements of a linkage -/

namespace Naming

open Token (isIdentPart isIdentifier)

theorem isIdentifier_realName {name : Text} (h : isIdentifier name = true) :
    isIdentifier (realName name) = true := by
  cases name with
  | nil => cases h
  | cons c cs =>
    simp only [isIdentifier, Bool.and_eq_true] at h
    have hsuffix : realSuffix.all isIdentPart = true := by decide
    simp [realName, isIdentifier, h.1, h.2, hsuffix]

theorem isIdentPart_of_mem_accessor {suffix name : Text} (hs : ∀ c ∈ suffix, isIdentPart c = true)
    (hn : isIdentifier name = true) : ∀ c ∈ accessor suffix name, isIdentPart c = true := by
  intro c hc
  rcases List.mem_append.1 hc with hc | hc
  · exact isIdentPart_of_mem_camelCase hn hc
  · exact hs c hc

end Naming

namespace Linkage

open Token (isIdentPart isIdentifier IsLink IsCall tokenize)

variable {link : Linkage}

theorem not_isGap_head {name : Text} (h : isIdentifier name = true) :
    ∀ c ∈ name.head?, Token.isGap c = false := by
  intro c hc
  cases name with
  | nil => cases h
  | cons d ds =>
    obtain rfl : d = c := by simpa using hc
    simp only [isIdentifier, Bool.and_eq_true] at h
    exact (Token.isIdentStart_cases h.1).2.2

theorem isCall_call_realName {accessor name : Text} (ha : ∀ c ∈ accessor, isIdentPart c = true)
    (hn : isIdentifier name = true) : IsCall (call accessor (Naming.realName name)) := by
  have hr := Naming.isIdentifier_realName hn
  refine Token.isCall_call ha (not_isGap_head hr) fun tok ht => ?_
  exact Token.endsBefore_of_word (fun c hc => Token.isIdentPart_of_mem hr hc) ht (by decide)

theorem isLink_reference (hs : ∀ c ∈ link.suffix, isIdentPart c = true) {name target : Text}
    (hn : isIdentifier name = true) (h : link.reference name = some target) : IsLink target := by
  rcases reference_eq_some h with ⟨rfl, -⟩ | ⟨rfl, -⟩
  · exact Token.isLink_identifier (Naming.isIdentifier_realName hn)
  · exact (isCall_call_realName (Naming.isIdentPart_of_mem_accessor hs hn) hn).isLink

theorem isCall_externalReference {suffix : Text} (hs : ∀ c ∈ suffix, isIdentPart c = true)
    {name : Text} (hn : isIdentifier name = true) : IsCall (externalReference suffix name) := by
  have hr := Naming.isIdentifier_realName hn
  have hinner : IsCall ("<<".toList ++ Naming.realName name ++ ">>".toList) :=
    Token.isCall_angled fun tok ht =>
      Token.endsBefore_of_word (fun c hc => Token.isIdentPart_of_mem hr hc) ht (by decide)
  refine Token.isCall_call (Naming.isIdentPart_of_mem_accessor hs hn) ?_ ?_
  · simp [Token.isGap]
  · exact fun tok ht => hinner.last tok ht '>'

theorem tokenize_linkReferences (hs : ∀ c ∈ link.suffix, isIdentPart c = true) (t : Text) :
    tokenize (link.linkReferences t) = (tokenize t).flatMap (Token.relink link.reference) :=
  Token.tokenize_mapIdentifiers fun _ _ hn h => isLink_reference hs hn h

theorem tokenize_linkExternals (hs : ∀ c ∈ link.suffix, isIdentPart c = true) (t : Text) :
    tokenize (link.linkExternals t) =
      (Token.pieces (tokenize t)).flatMap (Token.Piece.relink (externalReference link.suffix)) :=
  Token.tokenize_mapExternals fun _ hn => isCall_externalReference hs hn

end Linkage
end OpenGrammar
