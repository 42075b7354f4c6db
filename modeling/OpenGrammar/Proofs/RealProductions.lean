import OpenGrammar.Proofs.References
import OpenGrammar.Proofs.Trimming

/-! Real productions. A rule that is not fixed is written as a `fake` rule and a real production
with a block. The block has the attributes of the rule, but a `pin` and a recovery rule only
once each. -/
namespace OpenGrammar
namespace AttributeBlock

open Token (isIdentPart spell tokenize)

theorem name_mem_of_mem_split {inner : Text} {e : Entry} (h : e ∈ (split 0 (tokenize inner)).2) :
    e.name ∈ tokenize inner := by
  obtain ⟨before, behind, htoks⟩ := tokens_infix_of_mem_split h
  rw [← htoks]
  simp [Entry.tokens]

theorem isIdentPart_of_mem_name {inner : Text} {e : Entry} (h : e ∈ (split 0 (tokenize inner)).2) :
    ∀ c ∈ e.name.text, isIdentPart c = true := fun _ hc =>
  Token.isIdentPart_of_mem
    (Token.isIdentifier_of_mem_tokenize (name_mem_of_mem_split h) (name_kind_of_mem_split h)) hc

theorem trimStart_tokens {inner : Text} {e : Entry} (h : e ∈ (split 0 (tokenize inner)).2) :
    Text.trimStart (spell e.tokens) = spell e.tokens := by
  refine Text.trimStart_of_head fun c hc => Text.isBlank_of_isIdentPart (isIdentPart_of_mem_name h c ?_)
  obtain ⟨d, ds, hd⟩ :=
    List.exists_cons_of_ne_nil (Token.leads_of_mem_tokenize (name_mem_of_mem_split h)).ne_nil
  rw [Entry.tokens, Token.spell_cons, hd] at hc
  rw [hd]
  exact List.mem_of_head? hc

theorem takeWhile_text_of_mem_parse {inner : Text} {a : Attribute} (h : a ∈ (parse inner).entries) :
    a.text.takeWhile isIdentPart = a.name := by
  obtain ⟨e, he, rfl⟩ := List.mem_map.1 h
  obtain ⟨before, behind, htoks⟩ := tokens_infix_of_mem_split he
  have hstops : e.name.Stops (spell (e.key ++ (e.sign ++ e.value)) ++ spell behind) := by
    have hp := Token.parted_tokenize inner
    rw [← htoks, List.append_assoc, Token.parted_append, Entry.tokens, List.cons_append] at hp
    have hs := hp.2.1.stops
    rwa [List.append_nil, Token.spell_append] at hs
  have hhead : ∀ c ∈ (spell (e.key ++ (e.sign ++ e.value))).head?, isIdentPart c = false := by
    intro c hc
    have hends := hstops c (by rw [List.head?_append, Option.mem_def.1 hc]; rfl)
    simpa [Token.EndsBefore, name_kind_of_mem_split he] using hends
  show (Text.trimEnd (Text.trimStart (spell e.tokens))).takeWhile isIdentPart = e.name.text
  rw [trimStart_tokens he, Entry.tokens, Token.spell_cons]
  exact Text.takeWhile_trimEnd_append (isIdentPart_of_mem_name he) hhead

end AttributeBlock
namespace ComposedRule

open Token (isIdentPart)

variable {link : Linkage} {rule : Rule} {kind : RuleKind}

def realText (link : Linkage) (rule : Rule) : Text :=
  Naming.realName rule.name ++ " ::= ".toList ++ openProduction link rule ++
    blockText (openProduction link rule) (realEntries link rule.bareName (openBlock link rule))

theorem text_eq_realText (link : Linkage) (rule : Rule) (hk : kind ≠ .subclass) :
    (ofRule link rule kind).text =
      "fake ".toList ++ rule.name ++ " ::= ".toList ++ openBody link rule ++ '\n' :: realText link rule :=
  text_of_ne_subclass link rule hk

/-! Attributes in the block of a real production -/

def written (link : Linkage) (a : Attribute) : Text :=
  if a.name = "recoverWhile".toList then recoverEntry (link.linkReferences a.value) else a.text

def entryWord (entry : Text) : Text := entry.takeWhile isIdentPart

theorem entryWord_append {word rest : Text} {c : Char} (hw : ∀ d ∈ word, isIdentPart d = true)
    (hc : isIdentPart c = false) : entryWord (word ++ c :: rest) = word := by
  have hstop := (@Token.span_append_iff isIdentPart word (c :: rest)).2 ⟨hw, by simpa using hc⟩
  exact hstop.1

theorem entryWord_recoverEntry (value : Text) : entryWord (recoverEntry value) = "recoverWhile".toList := by
  have he : recoverEntry value = "recoverWhile".toList ++ '=' :: value := by
    show "recoverWhile=".toList ++ value = _
    simp
  rw [he]
  exact entryWord_append (List.all_eq_true.1 (by decide)) (by decide)

theorem entryWord_elementType (bare : Text) :
    entryWord ("elementType = ".toList ++ bare) = "elementType".toList := by
  have he : "elementType = ".toList ++ bare = "elementType".toList ++ ' ' :: ("= ".toList ++ bare) := by
    simp
  rw [he]
  exact entryWord_append (List.all_eq_true.1 (by decide)) (by decide)

theorem entryWord_written {inner : Text} {a : Attribute}
    (h : a ∈ (AttributeBlock.parse inner).entries) : entryWord (written link a) = a.name := by
  unfold written
  split
  · rename_i hn
    rw [entryWord_recoverEntry, hn]
  · exact AttributeBlock.takeWhile_text_of_mem_parse h

theorem written_of_ne {a : Attribute} (h : a.name ≠ "recoverWhile".toList) : written link a = a.text :=
  if_neg h

theorem name_of_get? {block : AttributeBlock} {name : Text} {a : Attribute}
    (h : block.get? name = some a) : a ∈ block.entries ∧ a.name = name :=
  ⟨List.mem_of_find?_eq_some h, by simpa using List.find?_some h⟩

/-- The entries of a real production: its element type, the first `pin` and the first recovery
rule as they are written, and the entries that are passed on. -/
theorem mem_realEntries_iff {bare entry : Text} {block : AttributeBlock} :
    entry ∈ realEntries link bare block ↔
      entry = "elementType = ".toList ++ bare ∨
      (∃ a, block.get? a.name = some a ∧ (a.name = "pin".toList ∨ a.name = "recoverWhile".toList) ∧
        written link a = entry) ∨
      ∃ a ∈ block.entries, a.name ∉ consumed ∧ written link a = entry := by
  have hpin : ∀ a : Attribute, a.name = "pin".toList → written link a = a.text := fun a ha =>
    written_of_ne (by rw [ha]; decide)
  have hrecover : ∀ a : Attribute, a.name = "recoverWhile".toList →
      written link a = recoverEntry (link.linkReferences a.value) := fun a ha => if_pos ha
  have hother : ∀ a : Attribute, a.name ∉ consumed → written link a = a.text := fun a ha =>
    written_of_ne fun hn => ha (by rw [hn]; decide)
  simp only [realEntries, List.mem_cons, List.mem_append, Option.mem_toList, Option.map_eq_some_iff,
    List.mem_map, List.mem_filter, List.contains_eq_mem, Bool.not_eq_true', decide_eq_false_iff_not]
  refine or_congr_right (or_congr ?_ ?_)
  · constructor
    · rintro (⟨a, ha, rfl⟩ | ⟨a, ha, rfl⟩)
      · have hn := (name_of_get? ha).2
        exact ⟨a, by rwa [hn], Or.inl hn, hpin a hn⟩
      · have hn := (name_of_get? ha).2
        exact ⟨a, by rwa [hn], Or.inr hn, hrecover a hn⟩
    · rintro ⟨a, ha, hn | hn, rfl⟩
      · exact Or.inl ⟨a, by rwa [hn] at ha, (hpin a hn).symm⟩
      · exact Or.inr ⟨a, by rwa [hn] at ha, (hrecover a hn).symm⟩
  · constructor
    · rintro ⟨a, ⟨ha, hn⟩, rfl⟩
      exact ⟨a, ha, hn, hother a hn⟩
    · rintro ⟨a, ha, hn, rfl⟩
      exact ⟨a, ⟨ha, hn⟩, (hother a hn).symm⟩

/-- The block of a real production has an entry of the rule as it is written exactly if it is
no second `pin` or recovery rule, or one that is written like the first. -/
theorem written_mem_realEntries_iff (bare : Text) {inner : Text} {a : Attribute}
    (ha : a ∈ (AttributeBlock.parse inner).entries) (he : a.name ≠ "elementType".toList)
    (ho : a.name ≠ "override".toList) :
    written link a ∈ realEntries link bare (AttributeBlock.parse inner) ↔
      (a.name = "pin".toList ∨ a.name = "recoverWhile".toList →
        ∃ first, (AttributeBlock.parse inner).get? a.name = some first ∧
          written link first = written link a) := by
  have hname : ∀ {b : Attribute}, b ∈ (AttributeBlock.parse inner).entries →
      written link b = written link a → b.name = a.name := by
    intro b hb hw
    rw [← @entryWord_written link inner b hb, hw, entryWord_written ha]
  rw [mem_realEntries_iff]
  constructor
  · rintro (hw | ⟨b, hb, -, hw⟩ | ⟨b, hb, hn, hw⟩) hkind
    · have hword := @entryWord_written link inner a ha
      rw [hw, entryWord_elementType] at hword
      exact absurd hword.symm he
    · have hn := hname (name_of_get? hb).1 hw
      exact ⟨b, by rwa [← hn], hw⟩
    · rw [hname hb hw] at hn
      exact absurd (by rcases hkind with hk | hk <;> simp [consumed, hk]) hn
  · intro hfirst
    by_cases hkind : a.name = "pin".toList ∨ a.name = "recoverWhile".toList
    · obtain ⟨first, hf, hw⟩ := hfirst hkind
      have hn := (name_of_get? hf).2
      exact Or.inr (Or.inl ⟨first, by rwa [hn], by rwa [hn], hw⟩)
    · refine Or.inr (Or.inr ⟨a, ha, ?_, rfl⟩)
      rw [not_or] at hkind
      simp only [consumed, List.mem_cons, List.not_mem_nil, or_false, not_or]
      exact ⟨he, hkind.1, hkind.2, ho⟩

theorem mem_openBlock {a : Attribute} (h : a ∈ (openBlock link rule).entries) :
    ∃ inner, openBlock link rule = AttributeBlock.parse inner := by
  unfold openBlock at h ⊢
  cases hs : (AttributeBlock.splitBody (openBody link rule)).2 with
  | none =>
    rw [hs] at h
    cases h
  | some inner => exact ⟨inner, rfl⟩

/-- A rule that is not fixed ends in the block of its real production. Of the entries of the
rule but for its element type and its binding, that block has each one as it is written
exactly if it is no second `pin` or recovery rule, or one that is written like the first. -/
theorem attributes_of_open (link : Linkage) (rule : Rule) (hk : kind ≠ .subclass) :
    (∃ front, (ofRule link rule kind).text = front ++ blockText (openProduction link rule)
      (realEntries link rule.bareName (openBlock link rule))) ∧
    ∀ a ∈ (openBlock link rule).entries, a.name ≠ "elementType".toList → a.name ≠ "override".toList →
      (written link a ∈ realEntries link rule.bareName (openBlock link rule) ↔
        (a.name = "pin".toList ∨ a.name = "recoverWhile".toList →
          ∃ first, (openBlock link rule).get? a.name = some first ∧ written link first = written link a)) := by
  constructor
  · rw [text_eq_realText link rule hk, realText, ← List.cons_append, ← List.append_assoc]
    exact ⟨_, rfl⟩
  · intro a ha he ho
    obtain ⟨inner, hinner⟩ := mem_openBlock ha
    rw [hinner] at ha ⊢
    exact written_mem_realEntries_iff rule.bareName ha he ho

def recoveringRule : Rule :=
  ⟨"a".toList, "b 'x' \x7b pin=1 recoverWhile=b name=\"it\" \x7d".toList⟩

def recoveringLink : Linkage :=
  ⟨⟨[(recoveringRule, .extendable), (⟨"b".toList, "'y'".toList⟩, .extendable)]⟩, "Ext".toList⟩

theorem attributes_of_open_recovering :
    RuleKind.extendable ≠ .subclass ∧
    ∃ a ∈ (openBlock recoveringLink recoveringRule).entries, a.name = "recoverWhile".toList ∧
      written recoveringLink a ∈ realEntries recoveringLink recoveringRule.bareName
        (openBlock recoveringLink recoveringRule) := by
  have hentry : ∃ a ∈ (openBlock recoveringLink recoveringRule).entries,
      a.name = "recoverWhile".toList ∧
      (openBlock recoveringLink recoveringRule).get? "recoverWhile".toList = some a := by decide +kernel
  obtain ⟨a, ha, hn, hfirst⟩ := hentry
  have hkept := (@attributes_of_open .extendable recoveringLink recoveringRule (by decide)).2 a ha
    (by rw [hn]; decide) (by rw [hn]; decide)
  exact ⟨by decide, a, ha, hn, hkept.2 fun _ => ⟨a, by rw [hn, hfirst], rfl⟩⟩

end ComposedRule

namespace Composition

open ComposedRule

section Engine

variable {engine : PatternEngine} {config : Config} {names : GrammarNames} {text : Text}
  {path : Option Text} {source : Source} {directives : Directives} {comp : Composition}

/-- A composed grammar has the real production of each rule that is not fixed. -/
theorem infix_realText (hscan : Source.scan text path = .ok source)
    (hread : Directives.read source.header config.defaultBaseClass = .ok directives)
    (h : compose config names text path = .ok comp) {rule : Rule} (hr : rule ∈ source.rules.rules)
    (hk : Classification.kindOf directives rule ≠ .subclass) :
    realText (linkageOf config source directives) rule <:+: comp.grammarText := by
  have hmem : (rule, Classification.kindOf directives rule) ∈
      (linkageOf config source directives).rules.rules := Classification.mem_ofTable.2 ⟨hr, rfl⟩
  have hrule : realText (linkageOf config source directives) rule <:+:
      (ofRule (linkageOf config source directives) rule (Classification.kindOf directives rule)).text := by
    rw [text_eq_realText _ _ hk]
    exact (List.suffix_cons _ _).isInfix.trans (List.suffix_append _ _).isInfix
  obtain ⟨front, back, hjoin⟩ := List.append_of_mem
    (@text_mem_bodyTexts _ (Rule.bareNameOf source.firstRule) _ _ hmem)
  rw [grammarText_of_compose hscan hread h, hjoin, List.flatten_append, List.flatten_cons]
  refine hrule.trans ((List.prefix_append _ back.flatten).isInfix.trans ?_)
  exact ((List.suffix_append _ _).trans (List.suffix_cons _ _)).isInfix.trans
    (List.suffix_append _ _).isInfix

end Engine

def twicePinnedText : Text := "a ::= b \x7b pin(\"c\")=1 pin=2 \x7d\nb ::= 'x'\n".toList

/-- The second `pin` of a rule is not in its real production. -/
theorem second_pin_lost :
    ∃ source directives comp,
      Source.scan twicePinnedText none = .ok source ∧
      Directives.read source.header ({} : Config).defaultBaseClass = .ok directives ∧
      compose {} sampleNames twicePinnedText none = .ok comp ∧
      ∃ rule ∈ source.rules.rules, Classification.kindOf directives rule = .extendable ∧
        ∃ a ∈ (openBlock (linkageOf {} source directives) rule).entries,
          a.name = "pin".toList ∧ a.text = "pin=2".toList ∧
          ¬ a.text <:+: realText (linkageOf {} source directives) rule := by
  have hok : (compose {} sampleNames twicePinnedText none).isOk = true := by decide +kernel
  obtain ⟨source, directives, comp, hscan, hread, h⟩ := exists_stages_of_isOk hok
  have hlost : (Source.scan twicePinnedText none).toOption.all (fun s =>
      (Directives.read s.header ({} : Config).defaultBaseClass).toOption.all fun d => decide
        (∃ rule ∈ s.rules.rules, Classification.kindOf d rule = .extendable ∧
          ∃ a ∈ (openBlock (linkageOf {} s d) rule).entries,
            a.name = "pin".toList ∧ a.text = "pin=2".toList ∧
            ¬ a.text <:+: realText (linkageOf {} s d) rule)) = true := by decide +kernel
  rw [hscan] at hlost
  simp only [Except.toOption, Option.all_some, hread] at hlost
  exact ⟨source, directives, comp, hscan, hread, h, of_decide_eq_true hlost⟩

end Composition
end OpenGrammar
