import OpenGrammar.Proofs.EntryTexts
import OpenGrammar.Proofs.RealProductions
import OpenGrammar.Proofs.TrailingBlocks

/-! Real productions read back. What is written behind the name of a real production is split
into its production and its block, and the block has the entries that were written. -/
namespace OpenGrammar
namespace Token

/-! Values of generated entries -/

/-- A name or a call: a value without signs, brackets and marks. -/
structure IsValue (t : Text) : Prop extends IsLink t where
  chars : ∀ c ∈ t, isIdentPart c = true ∨ c = '<' ∨ c = '>' ∨ c = ' '
  nonblank : ∀ c ∈ t.getLast?, Text.isBlank c = false

theorem isValue_identifier {name : Text} (h : isIdentifier name = true) : IsValue name where
  toIsLink := isLink_identifier h
  chars _ hc := Or.inl (isIdentPart_of_mem h hc)
  nonblank _ hc := Text.isBlank_of_isIdentPart (isIdentPart_of_mem h (List.mem_of_getLast? hc))

theorem IsValue.not_mem_text {t : Text} (h : IsValue t) {tok : Token} (ht : tok ∈ tokenize t) {c : Char}
    (hc : isIdentPart c = false ∧ c ≠ '<' ∧ c ≠ '>' ∧ c ≠ ' ') : c ∉ tok.text := by
  intro hm
  have hmem : c ∈ t := by
    rw [← spell_tokenize t]
    exact List.mem_flatMap.2 ⟨tok, ht, hm⟩
  rcases h.chars c hmem with hp | hangle
  · rw [hp] at hc
    cases hc.1
  · tauto

theorem IsValue.endIn? {t : Text} (h : IsValue t) {tok : Token} (ht : tok ∈ tokenize t)
    (kinds : List Bracket) : tok.endIn? kinds = none := by
  refine endIn?_of_text fun e he => ?_
  refine h.not_mem_text ht (c := e.sign) ?_ (by rw [he]; simp)
  rcases e with b | b <;> cases b <;> decide

theorem IsValue.isClosed {t : Text} (h : IsValue t) {tok : Token} (ht : tok ∈ tokenize t) :
    tok.isClosed = true := by
  have hno : ∀ c, isIdentPart c = false ∧ c ≠ '<' ∧ c ≠ '>' ∧ c ≠ ' ' → c ∉ tok.text := fun c hc =>
    h.not_mem_text ht hc
  cases leads_nil_iff.1 (leads_of_mem_tokenize ht) with
  | @literal quote cs hq _ =>
    refine absurd (List.mem_cons_self ..) (hno quote ?_)
    rcases hq with rfl | rfl <;> decide
  | blockComment => exact absurd (List.mem_cons_self ..) (hno '/' (by decide))
  | identifier => rfl
  | number => rfl
  | lineComment => rfl
  | whitespace => rfl
  | slash => rfl
  | symbol => rfl

end Token

namespace Linkage

open Token (isIdentPart isIdentifier IsValue tokenize)

variable {link : Linkage} (hs : ∀ c ∈ link.suffix, isIdentPart c = true)
include hs

theorem isValue_reference {name target : Text} (hn : isIdentifier name = true)
    (h : link.reference name = some target) : IsValue target := by
  have hreal := Naming.isIdentifier_realName hn
  rcases reference_eq_some h with ⟨rfl, -⟩ | ⟨rfl, -⟩
  · exact Token.isValue_identifier hreal
  · have ha := Naming.isIdentPart_of_mem_accessor hs hn
    refine ⟨(isCall_call_realName ha hn).isLink, ?_, ?_⟩
    · intro c hc
      simp only [call, List.mem_append, List.mem_cons] at hc
      rcases hc with ((hc | hc) | rfl | hc) | hc
      · have hangle : c = '<' := by simpa using hc
        exact Or.inr (Or.inl hangle)
      · exact Or.inl (ha c hc)
      · simp
      · exact Or.inl (Token.isIdentPart_of_mem hreal hc)
      · have hangle : c = '>' := by simpa using hc
        exact Or.inr (Or.inr (Or.inl hangle))
    · simp [call, List.getLast?_cons]
      decide

theorem isValue_linkReferences {value : Text} (hv : isIdentifier value = true) :
    IsValue (link.linkReferences value) := by
  have he : link.linkReferences value = (link.reference value).getD value := by
    simp [linkReferences, Token.mapIdentifiers, Token.tokenize_identifier hv]
  rw [he]
  cases hr : link.reference value with
  | none => exact Token.isValue_identifier hv
  | some target => exact isValue_reference hs hv hr

end Linkage
namespace AttributeBlock

open Token (isIdentPart isIdentifier IsValue spell tokenize Nested)

/-! Generated entries -/

theorem isEntry_of_value {front value : Text} {name : Token} {gap gap' : List Token} (hv : IsValue value)
    (hk : name.kind = .identifier) (hgap : ∀ tok ∈ gap ++ gap', tok.kind = .whitespace ∧ tok.text ≠ ['='])
    (hfront : tokenize front = name :: (gap ++ ⟨.symbol, ['=']⟩ :: gap'))
    (hstop : ∀ tok ∈ (tokenize front).getLast?, tok.Stops value)
    (hhead : ∃ c cs, front = c :: cs ∧ Text.isBlank c = false) : IsEntry (front ++ value) := by
  obtain ⟨first, rest, rfl, hfirst⟩ := hhead
  obtain ⟨c, cs, hvalue, -⟩ := hv.head
  have htokens : tokenize (first :: rest ++ value) = tokenize (first :: rest) ++ tokenize value :=
    Token.tokenize_append hstop
  have hvne : tokenize value ≠ [] := by simp [hvalue, tokenize]
  refine ⟨?_, ?_, ?_, ?_⟩
  · have hassoc : tokenize (first :: rest ++ value) = name :: (gap ++ ⟨.symbol, ['=']⟩ :: (gap' ++ tokenize value)) := by
      rw [htokens, hfront]
      simp
    rw [hassoc]
    refine isSingle_of_sign hk (fun tok ht => (hgap tok (List.mem_append_left _ ht)).1) ?_ ?_
    · intro tok ht
      rcases List.mem_append.1 ht with ht | ht
      · exact (hgap tok (List.mem_append_right _ ht)).2
      · exact fun he => hv.not_mem_text ht (c := '=') (by decide) (by rw [he]; simp)
    · intro tok ht
      rcases List.mem_append.1 ht with ht | ht
      · exact Token.endIn?_of_kind (by rw [(hgap tok (List.mem_append_right _ ht)).1]; decide)
      · exact hv.endIn? ht _
  · intro d hd
    obtain rfl : first = d := by simpa using hd
    exact hfirst
  · intro d hd
    rw [List.getLast?_append_of_ne_nil _ (by simp [hvalue])] at hd
    exact hv.nonblank d hd
  · intro tok ht
    rw [htokens, List.getLast?_append_of_ne_nil _ hvne] at ht
    exact hv.last tok ht '\n' (by decide)

theorem isEntry_elementType {bare : Text} (h : isIdentifier bare = true) :
    IsEntry ("elementType = ".toList ++ bare) := by
  have hfront : tokenize "elementType = ".toList =
      ⟨.identifier, "elementType".toList⟩ :: ([⟨.whitespace, [' ']⟩] ++ ⟨.symbol, ['=']⟩ ::
        [⟨.whitespace, [' ']⟩]) := by decide +kernel
  refine isEntry_of_value (Token.isValue_identifier h) rfl (by decide) hfront ?_
    ⟨'e', _, rfl, by decide⟩
  intro tok ht d hd
  rw [hfront] at ht
  obtain rfl : ⟨.whitespace, [' ']⟩ = tok := by simpa using ht
  exact Linkage.not_isGap_head h d hd

theorem isEntry_recoverEntry {value : Text} (h : IsValue value) :
    IsEntry (ComposedRule.recoverEntry value) := by
  have hfront : tokenize "recoverWhile=".toList =
      ⟨.identifier, "recoverWhile".toList⟩ :: ([] ++ ⟨.symbol, ['=']⟩ :: []) := by decide +kernel
  refine isEntry_of_value h rfl (by decide) hfront ?_ ⟨'r', _, rfl, by decide⟩
  intro tok ht d _
  rw [hfront] at ht
  obtain rfl : ⟨.symbol, ['=']⟩ = tok := by simpa using ht
  exact fun h => absurd h (by decide)

/-! The block behind a production -/

def blockGap (production : Text) : Text :=
  if Token.endsWithLineComment production then ['\n'] else [' ']

theorem blockText_eq (production : Text) (entries : List Text) :
    ComposedRule.blockText production entries =
      blockGap production ++ '\x7b' :: ('\n' :: lineTexts entries) ++ ['\x7d', '\n'] := by
  unfold ComposedRule.blockText ComposedRule.blockOpener blockGap lineTexts
  split <;> simp

theorem allBlank_blockGap (production : Text) : Text.allBlank (blockGap production) = true := by
  unfold blockGap
  split <;> decide

theorem tokenize_blockGap {production : Text} (hlast : ∀ c ∈ production.getLast?, Text.isBlank c = false)
    (hclosed : ∀ tok ∈ tokenize production, tok.isClosed = true) :
    tokenize (production ++ blockGap production) =
      tokenize production ++ [⟨.whitespace, blockGap production⟩] := by
  have hgap : tokenize (blockGap production) = [⟨.whitespace, blockGap production⟩] := by
    unfold blockGap
    split <;> decide +kernel
  rw [Token.tokenize_append, hgap]
  intro tok ht
  obtain ⟨hline, hwhite, hspace⟩ := endsBefore_newline hlast hclosed tok ht
  obtain ⟨init, hinit⟩ := List.getLast?_eq_some_iff.1 ht
  have hcomment : Token.endsWithLineComment production = (tok.kind == .lineComment) := by
    simp [Token.endsWithLineComment, hinit, hwhite]
  rw [blockGap, hcomment]
  by_cases hk : tok.kind = .lineComment
  · simpa [hk] using hline
  · simpa [hk] using hspace hk

theorem splitBody_blockText {production : Text} {entries : List Text}
    (hlast : ∀ c ∈ production.getLast?, Text.isBlank c = false)
    (hclosed : ∀ tok ∈ tokenize production, tok.isClosed = true) (hentries : ∀ e ∈ entries, IsEntry e) :
    splitBody (production ++ ComposedRule.blockText production entries) =
      (production, some ('\n' :: lineTexts entries)) := by
  have hfront := tokenize_blockGap hlast hclosed
  have hinner := tokenize_lineTexts hentries
  have htrim : Text.trimEnd (production ++ ComposedRule.blockText production entries) =
      production ++ blockGap production ++ '\x7b' :: ('\n' :: lineTexts entries ++ ['\x7d']) := by
    have hbody : production ++ ComposedRule.blockText production entries =
        (production ++ blockGap production ++ '\x7b' :: ('\n' :: lineTexts entries)) ++ ['\x7d'] ++ ['\n'] := by
      rw [blockText_eq]
      simp
    rw [hbody, Text.trimEnd_append_blank _ (by decide), Text.trimEnd_of_last]
    · simp
    · intro c hc
      rw [List.getLast?_concat] at hc
      obtain rfl := Option.some.inj hc
      decide
  have htokens : tokenize (Text.trimEnd (production ++ ComposedRule.blockText production entries)) =
      tokenize production ++ [⟨.whitespace, blockGap production⟩] ++
        ⟨.symbol, ['\x7b']⟩ :: (tokenize ('\n' :: lineTexts entries) ++ [⟨.symbol, ['\x7d']⟩]) := by
    have hopen : ∀ tok ∈ (tokenize (production ++ blockGap production)).getLast?,
        tok.Stops ('\x7b' :: ('\n' :: lineTexts entries ++ ['\x7d'])) := by
      intro tok ht
      rw [hfront, List.getLast?_concat] at ht
      obtain rfl := Option.some.inj ht
      exact Token.stops_cons.2 (by decide : Token.isGap '\x7b' = false)
    have hclose : ∀ tok ∈ (tokenize ('\n' :: lineTexts entries)).getLast?, tok.Stops ['\x7d'] := by
      intro tok ht
      rw [hinner, getLast?_lineTokens] at ht
      obtain rfl := Option.some.inj ht
      exact Token.stops_cons.2 (by decide : Token.isGap '\x7d' = false)
    have hbrace : tokenize ['\x7d'] = [⟨.symbol, ['\x7d']⟩] := by decide +kernel
    rw [htrim, Token.tokenize_append hopen, hfront, Token.tokenize_plain (by decide),
      Token.tokenize_append hclose, hbrace]
  rw [splitBody_eq_some_iff]
  refine Or.inl ⟨_, _, _, htokens, by decide, by decide, ?_, ?_⟩
  · rw [hinner]
    exact (nested_lineTokens hentries).of_subset (by decide)
  · rw [Token.spell_append, Token.spell_tokenize, Token.spell_cons, Token.spell_nil, List.append_nil,
      Text.trimEnd_append_allBlank _ (allBlank_blockGap production), Text.trimEnd_of_last hlast]

end AttributeBlock
namespace ComposedRule

open Token (isIdentPart isIdentifier spell tokenize Nested)
open AttributeBlock (splitBody)

variable {link : Linkage} {rule : Rule} (hs : ∀ c ∈ link.suffix, isIdentPart c = true)
  (hclosed : ∀ tok ∈ tokenize (openBody link rule), tok.isClosed = true)

theorem last_splitBody (body : Text) : ∀ c ∈ (splitBody body).1.getLast?, Text.isBlank c = false := by
  intro c hc
  rcases AttributeBlock.splitBody_cases body with h | ⟨before, brace, inside, -, h⟩
  · rw [h] at hc
    exact Text.last_trimEnd hc
  · rw [h] at hc
    exact Text.last_trimEnd hc

theorem last_openProduction (link : Linkage) (rule : Rule) :
    ∀ c ∈ (openProduction link rule).getLast?, Text.isBlank c = false := by
  refine Token.last_mapIdentifiers (fun name target h => ?_) (last_splitBody _)
  rcases Linkage.reference_eq_some h with ⟨rfl, -⟩ | ⟨rfl, -⟩
  · exact ⟨'l', by simp [Naming.realName, Naming.realSuffix], by decide⟩
  · exact ⟨'>', by simp [Linkage.call, List.getLast?_cons], by decide⟩

include hs hclosed in
theorem isClosed_openProduction : ∀ tok ∈ tokenize (openProduction link rule), tok.isClosed = true := by
  have hgiven : ∀ tok ∈ tokenize (splitBody (openBody link rule)).1, tok.isClosed = true := by
    have hbody : ∀ tok ∈ tokenize (Text.trimEnd (openBody link rule)), tok.isClosed = true :=
      Token.isClosed_of_mem_trimEnd hclosed
    rcases AttributeBlock.splitBody_none_or_some (openBody link rule) with h | ⟨production, inner, h⟩
    · rw [h]
      exact hbody
    · obtain ⟨pair, -, hproduction, -⟩ := AttributeBlock.splitBody_eq_some_iff_pair.1 h
      rw [h, hproduction]
      refine Token.isClosed_of_mem_trimEnd fun tok ht => hbody tok ?_
      have hbefore : tokenize (spell pair.before) = pair.before :=
        @Token.tokenize_spell_of_tokenize _ [] _ _ pair.parts
      rw [hbefore] at ht
      rw [pair.parts]
      exact List.mem_append_left _ ht
  intro tok ht
  rw [openProduction, Linkage.tokenize_linkReferences hs, List.mem_flatMap] at ht
  obtain ⟨given, hg, ht⟩ := ht
  unfold Token.relink at ht
  split at ht
  · rename_i hk
    cases hr : link.reference given.text with
    | none =>
      rw [hr] at ht
      rw [List.mem_singleton.1 ht]
      exact hgiven given hg
    | some target =>
      rw [hr] at ht
      exact (Linkage.isValue_reference hs (Token.isIdentifier_of_mem_tokenize hg hk) hr).isClosed ht
  · rw [List.mem_singleton.1 ht]
    exact hgiven given hg

/-- The block of a rule may be read back: its brackets are nested, and the rule that it recovers
by is given by name. -/
def BlockIsPlain (link : Linkage) (rule : Rule) : Prop :=
  ∀ production inner, splitBody (openBody link rule) = (production, some inner) →
    Nested Bracket.all (tokenize inner) ∧
      ∀ a, (AttributeBlock.parse inner).get? "recoverWhile".toList = some a → isIdentifier a.value = true

include hs hclosed in
theorem isEntry_of_mem_realEntries {bare : Text} (hbare : isIdentifier bare = true)
    (hblock : BlockIsPlain link rule) :
    ∀ e ∈ realEntries link bare (openBlock link rule), AttributeBlock.IsEntry e := by
  intro e he
  rcases AttributeBlock.splitBody_none_or_some (openBody link rule) with hsplit | ⟨production, inner, hsplit⟩
  · have hempty : openBlock link rule = {} := by simp [openBlock, hsplit]
    have hentries : realEntries link bare {} = ["elementType = ".toList ++ bare] := rfl
    rw [hempty, hentries] at he
    obtain rfl := List.mem_singleton.1 he
    exact AttributeBlock.isEntry_elementType hbare
  · have hparse : openBlock link rule = AttributeBlock.parse inner := by simp [openBlock, hsplit]
    obtain ⟨hnested, hrecover⟩ := hblock production inner hsplit
    have hinner : ∀ tok ∈ tokenize inner, tok.isClosed = true := by
      rcases AttributeBlock.splitBody_eq_some_iff.1 hsplit with hends | hhidden
      · obtain ⟨before, op, cl, hparts, -⟩ := hends
        intro tok ht
        refine Token.isClosed_of_mem_trimEnd hclosed tok ?_
        rw [hparts]
        simp [ht]
      · exact absurd (hnested.of_subset (by decide)) hhidden.not_nested
    have htext : ∀ a ∈ (AttributeBlock.parse inner).entries, AttributeBlock.IsEntry a.text := fun a ha =>
      AttributeBlock.isEntry_of_mem_parse hnested hinner ha
    rw [hparse, mem_realEntries_iff] at he
    rcases he with rfl | ⟨a, ha, hn | hn, rfl⟩ | ⟨a, ha, hn, rfl⟩
    · exact AttributeBlock.isEntry_elementType hbare
    · rw [written_of_ne (by rw [hn]; decide)]
      exact htext a (name_of_get? ha).1
    · rw [written, if_pos hn]
      rw [hn] at ha
      exact AttributeBlock.isEntry_recoverEntry (Linkage.isValue_linkReferences hs (hrecover a ha))
    · rw [written_of_ne fun hr => hn (by rw [hr]; decide)]
      exact htext a ha

/-- What stands behind the name of a real production is split into that production and a block.
The block has the element type, the first `pin`, the first recovery rule, linked as the
production is, and all other entries but `override` as they were, in order. -/
theorem real_production_reread (link : Linkage) (rule : Rule) (kind : RuleKind)
    (hs : ∀ c ∈ link.suffix, isIdentPart c = true) (hbare : isIdentifier rule.bareName = true)
    (hclosed : ∀ tok ∈ tokenize (openBody link rule), tok.isClosed = true)
    (hblock : BlockIsPlain link rule) :
    ∃ tail inner,
      (ofOpen link rule kind).text =
        "fake ".toList ++ rule.name ++ " ::= ".toList ++ openBody link rule ++
          '\n' :: (Naming.realName rule.name ++ " ::= ".toList ++ tail) ∧
      splitBody tail = (openProduction link rule, some inner) ∧
      (AttributeBlock.parse inner).entries.map Attribute.text =
        ("elementType = ".toList ++ rule.bareName) ::
          ((((openBlock link rule).get? "pin".toList).map Attribute.text).toList ++
          (((openBlock link rule).get? "recoverWhile".toList).map fun a =>
            "recoverWhile=".toList ++ link.linkReferences a.value).toList ++
          ((openBlock link rule).entries.filter fun a =>
            !(["elementType".toList, "pin".toList, "recoverWhile".toList, "override".toList].contains
              a.name)).map Attribute.text) := by
  have hentries := isEntry_of_mem_realEntries hs hclosed hbare hblock
  have htext : (ofOpen link rule kind).text =
      "fake ".toList ++ rule.name ++ " ::= ".toList ++ openBody link rule ++ '\n' :: realText link rule := rfl
  refine ⟨openProduction link rule ++ blockText (openProduction link rule)
    (realEntries link rule.bareName (openBlock link rule)), _, ?_,
    AttributeBlock.splitBody_blockText (last_openProduction link rule)
      (isClosed_openProduction hs hclosed) hentries,
    AttributeBlock.parse_lineTexts hentries⟩
  rw [htext, realText, List.append_assoc (Naming.realName rule.name ++ _)]

def commentedRule : Rule :=
  ⟨"a".toList, "b {c} // one\n\x7b name=\"it\" pin(\"b\")=1 recoverWhile=b hooks=[x=y] \x7d".toList⟩

theorem real_production_reread_commented :
    (∀ c ∈ recoveringLink.suffix, isIdentPart c = true) ∧
    isIdentifier commentedRule.bareName = true ∧
    (∀ tok ∈ tokenize (openBody recoveringLink commentedRule), tok.isClosed = true) ∧
    BlockIsPlain recoveringLink commentedRule ∧
    ∃ tail inner,
      splitBody tail = ("<<bExt b_real>> <<cExt <<c_real>>>> // one".toList, some inner) ∧
      (AttributeBlock.parse inner).entries.map Attribute.text =
        ["elementType = a".toList, "pin(\"b\")=1".toList, "recoverWhile=<<bExt b_real>>".toList,
          "name=\"it\"".toList, "hooks=[x=y]".toList] := by
  have hs : ∀ c ∈ recoveringLink.suffix, isIdentPart c = true :=
    List.all_eq_true.1 (by decide)
  have hbare : isIdentifier commentedRule.bareName = true := by decide
  have hclosed : ∀ tok ∈ tokenize (openBody recoveringLink commentedRule), tok.isClosed = true := by
    decide +kernel
  have hblock : BlockIsPlain recoveringLink commentedRule := by
    have hinner : splitBody (openBody recoveringLink commentedRule) =
        ("b <<cExt <<c_real>>>> // one".toList,
          some " name=\"it\" pin(\"b\")=1 recoverWhile=b hooks=[x=y] ".toList) := by decide +kernel
    intro production inner hsplit
    rw [hinner, Prod.mk.injEq] at hsplit
    obtain ⟨-, rfl⟩ := And.imp_right Option.some.inj hsplit
    refine ⟨by decide +kernel, fun a ha => ?_⟩
    have hvalue : ((AttributeBlock.parse
        " name=\"it\" pin(\"b\")=1 recoverWhile=b hooks=[x=y] ".toList).get? "recoverWhile".toList).all
          (isIdentifier ·.value) = true := by decide +kernel
    rwa [ha, Option.all_some] at hvalue
  obtain ⟨tail, inner, -, hsplit, hentries⟩ :=
    real_production_reread recoveringLink commentedRule .extendable hs hbare hclosed hblock
  refine ⟨hs, hbare, hclosed, hblock, tail, inner, ?_, ?_⟩
  · rw [hsplit]
    have hproduction : openProduction recoveringLink commentedRule =
        "<<bExt b_real>> <<cExt <<c_real>>>> // one".toList := by decide +kernel
    rw [hproduction]
  · rw [hentries]
    decide +kernel

end ComposedRule
end OpenGrammar
