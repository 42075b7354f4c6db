import Mathlib.Data.List.Forall2
import OpenGrammar.Proofs.Blocks
import OpenGrammar.Proofs.Composing

/-! The lines of a composed grammar that open rules. Each rule of the grammar opens the
lines that its kind calls for, in the order in which rules are composed, and no other
line holds a separator. -/
namespace OpenGrammar
namespace Source

def headLines (t : Text) : List Text := (Text.lines t).filter (separator <:+: ·)

theorem headLines_eq_nil {t : Text} (h : ¬ separator <:+: t) : headLines t = [] := by
  rw [headLines, List.filter_eq_nil_iff]
  intro line hl hm
  exact h ((of_decide_eq_true hm).trans (Text.infix_of_mem_lines hl))

theorem lines_of_head (tail : Text) {name : Text} (hn : '\n' ∉ name) :
    ∃ line rest, Text.lines (name ++ " ::= ".toList ++ tail) = line :: Text.lines rest ∧
      (name ++ " ::= ".toList) <+: line ∧ rest <:+ tail := by
  have hsep : '\n' ∉ name ++ " ::=".toList := by simp [hn]
  have he : name ++ " ::= ".toList ++ tail = (name ++ " ::=".toList) ++ ' ' :: tail := by simp
  have hhead : name ++ " ::= ".toList = (name ++ " ::=".toList) ++ [' '] := by simp
  rw [he, hhead]
  exact Text.lines_head tail hsep

theorem separator_infix_head (name : Text) : separator <:+: name ++ " ::= ".toList :=
  ⟨name ++ [' '], [' '], by simp [separator]⟩

theorem headLines_head {tail : Text} (name : Text) (hn : '\n' ∉ name) (ht : ¬ separator <:+: tail) :
    ∃ line, headLines (name ++ " ::= ".toList ++ tail) = [line] ∧ (name ++ " ::= ".toList) <+: line := by
  obtain ⟨line, rest, hl, hp, hr⟩ := lines_of_head tail hn
  have hin : separator <:+: line := (separator_infix_head name).trans hp.isInfix
  have hnil : headLines rest = [] := headLines_eq_nil fun hm => ht (hm.trans hr.isInfix)
  refine ⟨line, ?_, hp⟩
  rw [headLines] at hnil
  rw [headLines, hl, List.filter_cons_of_pos (by simpa using hin), hnil]

theorem headLines_append_newline (a b : Text) :
    headLines (a ++ '\n' :: b) = headLines (a ++ ['\n']) ++ headLines b := by
  rw [headLines, Text.lines_append_newline, List.filter_append]
  rfl

theorem headLines_flatten {ts : List Text} (h : ∀ t ∈ ts, ∃ u, t = u ++ ['\n']) :
    headLines ts.flatten = ts.flatMap headLines := by
  rw [headLines, Text.lines_flatten h, List.filter_flatMap]
  rfl

end Source

namespace Linkage

open Source (separator)

variable {link : Linkage} {name target t : Text}

theorem reference_eq_some (h : link.reference name = some target) :
    (target = Naming.realName name ∧ (link.rules.referenceKind name).any RuleKind.hasReal = true) ∨
      (target = call (Naming.accessor link.suffix name) (Naming.realName name) ∧
        link.rules.referenceKind name = some .extendable) := by
  unfold reference at h
  split at h
  · rename_i hk
    exact Or.inl ⟨(Option.some.inj h).symm, by rw [hk]; rfl⟩
  · rename_i hk
    exact Or.inr ⟨(Option.some.inj h).symm, hk⟩
  · cases h
  · cases h

theorem directReference_eq_some (h : link.directReference name = some target) :
    target = Naming.realName name ∧
      (link.rules.referenceKind name).any RuleKind.hasReal = true := by
  unfold directReference at h
  split at h
  · rename_i kind hk
    split at h
    · rename_i hr
      exact ⟨(Option.some.inj h).symm, by rw [hk]; exact hr⟩
    · cases h
  · cases h

/-! Linking brings no separator into a text. -/

theorem not_mem_separator_of_isIdentPart {c : Char} (h : Token.isIdentPart c = true) :
    c ∉ separator := by
  have hd : ∀ d ∈ separator, Token.isIdentPart d = false := by simp [separator, Token.isIdentPart]
  intro hm
  rw [hd c hm] at h
  cases h

theorem not_infix_accessor (hn : Token.isIdentifier name = true) {suffix : Text}
    (hs : ¬ separator <:+: suffix) : ¬ separator <:+: Naming.accessor suffix name := by
  rw [Naming.accessor, Text.infix_append_iff_of_forall (by decide)]
  · exact hs
  · intro c hc
    exact not_mem_separator_of_isIdentPart (Naming.isIdentPart_of_mem_camelCase hn hc)

theorem bars_realName (hn : Token.isIdentifier name = true) :
    Fragment.Bars separator (Naming.realName name) := by
  cases name with
  | nil => cases hn
  | cons c cs =>
    have hpart : ∀ d ∈ c :: cs, d ∉ separator := fun d hd =>
      not_mem_separator_of_isIdentPart (Token.isIdentPart_of_mem hn hd)
    have hinner : ¬ separator <:+: cs ++ "_rea".toList := by
      rw [Text.infix_append_iff_of_forall (by decide) fun d hd => hpart d (List.mem_cons_of_mem _ hd)]
      decide
    have hb := Fragment.bars_of_ends (hpart c (by simp)) (d := 'l') (by decide) hinner
    simpa [Naming.realName, Naming.realSuffix] using hb

theorem bars_call {accessor : Text} (ha : ¬ separator <:+: accessor) (ht : ¬ separator <:+: target) :
    Fragment.Bars separator (call accessor target) := by
  have hinner : ¬ separator <:+: '<' :: (accessor ++ ' ' :: (target ++ ['>'])) := by
    rw [Text.infix_cons_iff_of_not_mem (by decide) (by decide), Text.infix_append_cons_iff (by decide),
      Text.infix_concat_iff_of_not_mem (by decide) (by decide)]
    simp [ha, ht]
  have hb := Fragment.bars_of_ends (c := '<') (d := '>') (by decide) (by decide) hinner
  simpa [call] using hb

theorem not_infix_of_bars {mark : Text} (hm : mark ≠ []) (h : Fragment.Bars mark t) : ¬ mark <:+: t := by
  intro hi
  have hb := h [] [] (by simpa using hi)
  simp [List.infix_nil, hm] at hb

theorem bars_reference (hs : ¬ separator <:+: link.suffix) (hn : Token.isIdentifier name = true)
    (h : link.reference name = some target) : Fragment.Bars separator target := by
  have hreal := bars_realName hn
  rcases reference_eq_some h with ⟨rfl, -⟩ | ⟨rfl, -⟩
  · exact hreal
  · exact bars_call (not_infix_accessor hn hs) (not_infix_of_bars (by decide) hreal)

theorem bars_directReference (hn : Token.isIdentifier name = true)
    (h : link.directReference name = some target) : Fragment.Bars separator target := by
  rw [(directReference_eq_some h).1]
  exact bars_realName hn

theorem bars_externalReference {suffix : Text} (hs : ¬ separator <:+: suffix)
    (hn : Token.isIdentifier name = true) :
    Fragment.Bars separator (externalReference suffix name) := by
  have hreal := not_infix_of_bars (by decide) (bars_realName hn)
  apply bars_call (not_infix_accessor hn hs)
  rw [List.append_assoc, Text.infix_append_iff_of_forall (by decide) (by simp [separator]),
    show ">>".toList = '>' :: ['>'] from rfl, Text.infix_append_cons_iff (by decide)]
  rintro (hm | hm)
  · exact hreal hm
  · exact absurd hm (by decide)

theorem not_infix_linkReferences (hs : ¬ separator <:+: link.suffix) (h : ¬ separator <:+: t) :
    ¬ separator <:+: link.linkReferences t :=
  Fragment.not_infix_mapIdentifiers (fun _ _ hn ht => bars_reference hs hn ht) h

theorem not_infix_linkDirect (h : ¬ separator <:+: t) : ¬ separator <:+: link.linkDirect t :=
  Fragment.not_infix_mapIdentifiers (fun _ _ hn ht => bars_directReference hn ht) h

theorem not_infix_linkExternals (hs : ¬ separator <:+: link.suffix) (h : ¬ separator <:+: t) :
    ¬ separator <:+: link.linkExternals t :=
  Fragment.not_infix_mapExternals (fun _ hn => bars_externalReference hs hn) h

end Linkage

namespace ComposedRule

open Source (separator headLines)

variable {link : Linkage} {rule : Rule}

def declared (rule : Rule) : RuleKind → List Text
  | .subclass => [rule.name]
  | _ => ["fake ".toList ++ rule.name, Naming.realName rule.name]

/-- The line starts with the head of a rule of the name. -/
def Heads (name line : Text) : Prop := (name ++ " ::= ".toList) <+: line

/-- The body that the `fake` rule shows. -/
def openBody (link : Linkage) (rule : Rule) : Text := Text.trimEnd (link.linkExternals rule.body)

def openBlock (link : Linkage) (rule : Rule) : AttributeBlock :=
  ((AttributeBlock.splitBody (openBody link rule)).2.map AttributeBlock.parse).getD {}

def openProduction (link : Linkage) (rule : Rule) : Text :=
  link.linkReferences (AttributeBlock.splitBody (openBody link rule)).1

def fixedBlock (link : Linkage) (rule : Rule) : Option AttributeBlock :=
  (AttributeBlock.splitBody (link.linkExternals rule.body)).2.map AttributeBlock.parse

def fixedProduction (link : Linkage) (rule : Rule) : Text :=
  link.linkDirect (AttributeBlock.splitBody (link.linkExternals rule.body)).1

def fixedTail (link : Linkage) (rule : Rule) : Text :=
  match fixedBlock link rule with
  | some block => blockText (fixedProduction link rule) (fixedEntries link block)
  | none => ['\n']

theorem declared_of_ne_subclass (rule : Rule) {kind : RuleKind} (h : kind ≠ .subclass) :
    declared rule kind = ["fake ".toList ++ rule.name, Naming.realName rule.name] := by
  cases kind with
  | subclass => exact absurd rfl h
  | extendable => rfl
  | hidden => rfl

theorem text_of_ne_subclass (link : Linkage) (rule : Rule) {kind : RuleKind} (h : kind ≠ .subclass) :
    (ofRule link rule kind).text =
      "fake ".toList ++ rule.name ++ " ::= ".toList ++ openBody link rule ++
        '\n' :: (Naming.realName rule.name ++ " ::= ".toList ++ openProduction link rule ++
          blockText (openProduction link rule)
            (realEntries link rule.bareName (openBlock link rule))) := by
  cases kind with
  | subclass => exact absurd rfl h
  | extendable => rfl
  | hidden => rfl

theorem text_subclass (link : Linkage) (rule : Rule) :
    (ofRule link rule .subclass).text =
      rule.name ++ " ::= ".toList ++ fixedProduction link rule ++ fixedTail link rule := rfl

theorem blockText_ends (production : Text) (entries : List Text) :
    ∃ u, blockText production entries = u ++ ['\n'] :=
  ⟨blockOpener production ++ entries.flatMap (fun e => "  ".toList ++ e ++ ['\n']) ++ ['}'],
    by simp [blockText]⟩

theorem fixedTail_ends (link : Linkage) (rule : Rule) : ∃ u, fixedTail link rule = u ++ ['\n'] := by
  unfold fixedTail
  split
  · exact blockText_ends _ _
  · exact ⟨[], rfl⟩

theorem text_ends (link : Linkage) (rule : Rule) (kind : RuleKind) :
    ∃ u, (ofRule link rule kind).text = u ++ ['\n'] := by
  by_cases hk : kind = .subclass
  · obtain ⟨u, hu⟩ := fixedTail_ends link rule
    rw [hk, text_subclass, hu, ← List.append_assoc]
    exact ⟨_, rfl⟩
  · obtain ⟨u, hu⟩ := blockText_ends (openProduction link rule)
      (realEntries link rule.bareName (openBlock link rule))
    rw [text_of_ne_subclass link rule hk, hu]
    simp only [← List.append_assoc, ← List.cons_append]
    exact ⟨_, rfl⟩

/-! Separators -/

theorem not_infix_blockText {production : Text} {entries : List Text}
    (hp : ¬ separator <:+: production) (he : ∀ e ∈ entries, ¬ separator <:+: e) :
    ¬ separator <:+: production ++ blockText production entries := by
  have hlines : ∀ es : List Text, (∀ e ∈ es, ¬ separator <:+: e) →
      ¬ separator <:+: es.flatMap (fun e => "  ".toList ++ e ++ ['\n']) ++ "\x7d\n".toList := by
    intro es
    induction es with
    | nil =>
      intro _
      decide
    | cons e es ih =>
      intro hes
      rw [List.flatMap_cons, List.append_assoc, List.append_assoc, List.append_assoc,
        Text.infix_append_iff_of_forall (by decide) (by simp [separator]), List.singleton_append,
        Text.infix_append_cons_iff (by decide)]
      rintro (hm | hm)
      · exact hes e (by simp) hm
      · exact ih (fun e' he' => hes e' (List.mem_cons_of_mem _ he')) hm
  obtain ⟨c, rest, ho, hc, hr⟩ : ∃ c rest, blockOpener production = c :: rest ∧ c ∉ separator ∧
      ∀ d ∈ rest, d ∉ separator := by
    unfold blockOpener
    split
    · exact ⟨'\n', ['{', '\n'], rfl, by decide, by simp [separator]⟩
    · exact ⟨' ', ['{', '\n'], rfl, by decide, by simp [separator]⟩
  rw [blockText, ho, List.cons_append, List.cons_append, Text.infix_append_cons_iff hc,
    List.append_assoc, Text.infix_append_iff_of_forall (by decide) hr]
  rintro (hm | hm)
  · exact hp hm
  · exact hlines entries he hm

theorem not_infix_recoverEntry {value : Text} (h : ¬ separator <:+: value) :
    ¬ separator <:+: recoverEntry value := by
  have he : recoverEntry value = "recoverWhile".toList ++ '=' :: value := by
    show "recoverWhile=".toList ++ value = _
    simp
  rw [he, Text.infix_append_iff_of_forall (by decide) (by simp [separator]), List.infix_cons_iff]
  rintro (⟨rest, hr⟩ | hm)
  · have hh := congrArg List.head? hr
    simp [separator] at hh
  · exact h hm

theorem not_infix_bareName (h : ¬ separator <:+: rule.name) : ¬ separator <:+: rule.bareName := by
  have hs : rule.bareName <:+: rule.name := by
    unfold Rule.bareName Rule.bareNameOf
    split
    · rename_i rest hm
      obtain ⟨c, cs, rfl, -, hn⟩ := Rule.afterMarker?_eq_some_iff.1 hm
      rw [hn]
      exact (Text.trimStart_suffix _).isInfix.trans (List.suffix_append _ _).isInfix
    · exact List.infix_refl _
  exact fun hm => h (hm.trans hs)

theorem not_infix_openBody (hs : ¬ separator <:+: link.suffix) (hb : ¬ separator <:+: rule.body) :
    ¬ separator <:+: openBody link rule := fun hm =>
  Linkage.not_infix_linkExternals hs hb (hm.trans (Text.trimEnd_prefix_self _).isInfix)

theorem not_infix_entry {body : Text} (hb : ¬ separator <:+: body) {a : Attribute}
    (ha : a ∈ (((AttributeBlock.splitBody body).2.map AttributeBlock.parse).getD {}).entries) :
    ¬ separator <:+: a.text ∧ ¬ separator <:+: a.value := by
  cases hp : (AttributeBlock.splitBody body).2 with
  | none =>
    rw [hp] at ha
    cases ha
  | some inner =>
    rw [hp] at ha
    have hi := AttributeBlock.block_infix hp
    obtain ⟨ht, hv⟩ := AttributeBlock.entry_infix ha
    exact ⟨fun hm => hb (hm.trans (ht.trans hi)), fun hm => hb (hm.trans (hv.trans hi))⟩

theorem not_infix_realEntries {block : AttributeBlock} {bare : Text}
    (hs : ¬ separator <:+: link.suffix) (hbare : ¬ separator <:+: bare)
    (hblock : ∀ a ∈ block.entries, ¬ separator <:+: a.text ∧ ¬ separator <:+: a.value) :
    ∀ e ∈ realEntries link bare block, ¬ separator <:+: e := by
  have hget : ∀ {key a}, block.get? key = some a → a ∈ block.entries := fun h =>
    List.mem_of_find?_eq_some h
  intro e he
  simp only [realEntries, List.mem_cons, List.mem_append, Option.mem_toList,
    Option.map_eq_some_iff, List.mem_map, List.mem_filter] at he
  rcases he with rfl | ((⟨a, ha, rfl⟩ | ⟨a, ha, rfl⟩) | ⟨a, ⟨ha, -⟩, rfl⟩)
  · rw [show "elementType = ".toList ++ bare = "elementType =".toList ++ ' ' :: bare from by simp,
      Text.infix_append_cons_iff (by decide)]
    rintro (hm | hm)
    · exact absurd hm (by decide)
    · exact hbare hm
  · exact (hblock a (hget ha)).1
  · exact not_infix_recoverEntry (Linkage.not_infix_linkReferences hs (hblock a (hget ha)).2)
  · exact (hblock a ha).1

theorem not_infix_fixedTail (hb : ¬ separator <:+: link.linkExternals rule.body) :
    ¬ separator <:+: fixedProduction link rule ++ fixedTail link rule := by
  have hp : ¬ separator <:+: fixedProduction link rule :=
    Linkage.not_infix_linkDirect fun hm => hb (hm.trans (AttributeBlock.production_infix _))
  unfold fixedTail
  split
  · rename_i block hblock
    apply not_infix_blockText hp
    intro e he
    obtain ⟨a, ha, rfl⟩ := List.mem_map.1 he
    have hentry : ¬ separator <:+: a.text ∧ ¬ separator <:+: a.value := by
      apply not_infix_entry hb
      rw [← fixedBlock, hblock]
      exact ha
    split
    · exact not_infix_recoverEntry (Linkage.not_infix_linkDirect hentry.2)
    · exact hentry.1
  · rw [Text.infix_concat_iff_of_not_mem (by decide) (by decide)]
    exact hp

/-- A composed rule opens the lines of the names it declares, in order, and no others. -/
theorem forall₂_heads (kind : RuleKind) (hs : ¬ separator <:+: link.suffix)
    (hn : Source.IsName rule.name) (hb : ¬ separator <:+: rule.body) :
    List.Forall₂ Heads (declared rule kind) (headLines (ofRule link rule kind).text) := by
  by_cases hk : kind = .subclass
  · obtain ⟨line, hline, hhead⟩ := Source.headLines_head rule.name hn.oneLine
      (not_infix_fixedTail (Linkage.not_infix_linkExternals hs hb))
    rw [hk, text_subclass, List.append_assoc, hline]
    exact .cons hhead .nil
  · have hbody := not_infix_openBody hs hb
    have hprod : ¬ separator <:+: openProduction link rule :=
      Linkage.not_infix_linkReferences hs fun hm =>
        hbody (hm.trans (AttributeBlock.production_infix _))
    have hentries : ∀ e ∈ realEntries link rule.bareName (openBlock link rule), ¬ separator <:+: e :=
      not_infix_realEntries hs (not_infix_bareName hn.free) fun a ha => not_infix_entry hbody ha
    have hshown : ¬ separator <:+: openBody link rule ++ ['\n'] := by
      rw [Text.infix_concat_iff_of_not_mem (by decide) (by decide)]
      exact hbody
    obtain ⟨fake, hfake, hfakeHead⟩ := Source.headLines_head ("fake ".toList ++ rule.name)
      (by simp [hn.oneLine]) hshown
    obtain ⟨real, hreal, hrealHead⟩ := Source.headLines_head (Naming.realName rule.name)
      (by simp [Naming.realName, Naming.realSuffix, hn.oneLine]) (not_infix_blockText hprod hentries)
    rw [declared_of_ne_subclass rule hk, text_of_ne_subclass link rule hk,
      Source.headLines_append_newline, List.append_assoc, hfake, List.append_assoc, hreal]
    exact .cons hfakeHead (.cons hrealHead .nil)

end ComposedRule

namespace Composition

open ComposedRule (Heads)
open Source (separator headLines)

/-- The names that a composed grammar declares, in order. -/
def declaredNames (cls : Classification) : List Text :=
  ComposedRule.rootName :: (rulesInOrder cls).flatMap fun p => ComposedRule.declared p.1 p.2

theorem rulesInOrder_perm (cls : Classification) : (rulesInOrder cls).Perm cls.rules := by
  have he : (cls.rulesOf .extendable).map (·, RuleKind.extendable) =
      cls.rules.filter (·.2 == .extendable) := by
    rw [Classification.rulesOf, List.map_map]
    refine (List.map_congr_left fun p hp => ?_).trans (List.map_id _)
    have hk : p.2 = .extendable := by simpa using (List.mem_filter.1 hp).2
    simp [← hk]
  rw [rulesInOrder, he, Classification.unextendable]
  exact List.filter_append_perm _ _

theorem mem_rulesInOrder_iff {cls : Classification} {p : Rule × RuleKind} :
    p ∈ rulesInOrder cls ↔ p ∈ cls.rules := (rulesInOrder_perm cls).mem_iff

theorem newline_not_mem_bareNameOf {name : Text} (h : '\n' ∉ name) : '\n' ∉ Rule.bareNameOf name := by
  unfold Rule.bareNameOf
  split
  · rename_i rest hm
    obtain ⟨c, cs, rfl, -, rfl⟩ := Rule.afterMarker?_eq_some_iff.1 hm
    intro hn
    exact h (List.mem_append.2 (Or.inr ((Text.trimStart_suffix _).subset hn)))
  · exact h

theorem newline_not_mem_reference {link : Linkage} {name target : Text} (hs : '\n' ∉ link.suffix)
    (hn : '\n' ∉ name) (h : link.reference name = some target) : '\n' ∉ target := by
  have hreal : '\n' ∉ Naming.realName name := by simp [Naming.realName, Naming.realSuffix, hn]
  have hacc : '\n' ∉ Naming.accessor link.suffix name := by
    simp [Naming.accessor, hs, Naming.newline_not_mem_camelCase hn]
  rcases Linkage.reference_eq_some h with ⟨rfl, -⟩ | ⟨rfl, -⟩
  · exact hreal
  · simp [Linkage.call, hacc, hreal]

/-- The root rule opens one line. Its target may itself hold a separator, when the name of
the first rule is no identifier, but it stays on that line. -/
theorem headLines_rootRule {link : Linkage} {firstBare : Text} (hs : '\n' ∉ link.suffix)
    (hn : '\n' ∉ firstBare) :
    ∃ line, headLines (ComposedRule.rootRule link firstBare) = [line] ∧
      Heads ComposedRule.rootName line := by
  have ht : '\n' ∉ (link.reference firstBare).getD firstBare := by
    cases hr : link.reference firstBare with
    | none => exact hn
    | some target => exact newline_not_mem_reference hs hn hr
  have he : ComposedRule.rootRule link firstBare =
      ((ComposedRule.rootName ++ " ::=".toList) ++
        ' ' :: (link.reference firstBare).getD firstBare) ++ '\n' :: [] := by
    simp [ComposedRule.rootRule]
  have hp := Text.prefix_chopLineEnd_of_space (ComposedRule.rootName ++ " ::=".toList)
    ((link.reference firstBare).getD firstBare)
  refine ⟨_, ?_, by simpa [Heads] using hp⟩
  have hin : separator <:+: (ComposedRule.rootName ++ " ::=".toList) ++ [' '] := by decide
  rw [headLines, he, Text.lines_of_not_mem _ (by simp [ComposedRule.rootName, ht]),
    List.filter_cons_of_pos (by simpa using hin.trans hp.isInfix)]
  rfl

theorem forall₂_heads_rules {link : Linkage} {ps : List (Rule × RuleKind)}
    (hs : ¬ separator <:+: link.suffix) (hn : ∀ p ∈ ps, Source.IsName p.1.name)
    (hb : ∀ p ∈ ps, ¬ separator <:+: p.1.body) :
    List.Forall₂ Heads (ps.flatMap fun p => ComposedRule.declared p.1 p.2)
      ((ps.map fun p => (ComposedRule.ofRule link p.1 p.2).text).flatMap headLines) := by
  induction ps with
  | nil => exact .nil
  | cons p ps ih =>
    have hp := ComposedRule.forall₂_heads p.2 hs (hn p (by simp)) (hb p (by simp))
    have hps := ih (fun q hq => hn q (List.mem_cons_of_mem _ hq))
      fun q hq => hb q (List.mem_cons_of_mem _ hq)
    exact List.rel_append hp hps

theorem bodyTexts_end {link : Linkage} {firstBare : Text} :
    ∀ t ∈ bodyTexts link firstBare, ∃ u, t = u ++ ['\n'] := by
  intro t ht
  simp only [bodyTexts, List.mem_cons, List.mem_append, List.mem_map] at ht
  rcases ht with rfl | ⟨rule, -, rfl⟩ | ht
  · exact ⟨_, rfl⟩
  · exact ComposedRule.text_ends link rule .extendable
  · split at ht
    · cases ht
    · simp only [List.mem_cons, List.mem_map] at ht
      rcases ht with rfl | ⟨p, -, rfl⟩
      · exact ⟨[], rfl⟩
      · exact ComposedRule.text_ends link p.1 p.2

/-- The body of a composed grammar opens the lines of its declared names, in order, and
no others. -/
theorem forall₂_heads_body (link : Linkage) {firstBare : Text} (hs : ¬ separator <:+: link.suffix)
    (hline : '\n' ∉ link.suffix) (hfirst : '\n' ∉ firstBare)
    (hn : ∀ p ∈ link.rules.rules, Source.IsName p.1.name)
    (hb : ∀ p ∈ link.rules.rules, ¬ separator <:+: p.1.body) :
    List.Forall₂ Heads (declaredNames link.rules) (headLines (bodyTexts link firstBare).flatten) := by
  obtain ⟨line, hroot, hhead⟩ := headLines_rootRule hline hfirst
  have hsplit : (bodyTexts link firstBare).flatMap headLines =
      line :: ((rulesInOrder link.rules).map
        fun p => (ComposedRule.ofRule link p.1 p.2).text).flatMap headLines := by
    have hblank : headLines ['\n'] = [] := by decide
    rw [bodyTexts, List.flatMap_cons, hroot, rulesInOrder, List.map_append, List.flatMap_append,
      List.flatMap_append, List.map_map, List.singleton_append]
    congr 2
    split
    · rename_i he
      simp [List.isEmpty_iff.1 he]
    · simp [hblank]
  rw [Source.headLines_flatten bodyTexts_end, hsplit]
  refine .cons hhead (forall₂_heads_rules hs ?_ ?_)
  · exact fun p hp => hn p (mem_rulesInOrder_iff.1 hp)
  · exact fun p hp => hb p (mem_rulesInOrder_iff.1 hp)

section Engine

variable {engine : PatternEngine} {config : Config} {names : GrammarNames} {text : Text}
  {path : Option Text} {source : Source} {directives : Directives} {comp : Composition}

/-- Behind its header, the lines of a composed grammar that hold a separator are exactly
those that the root rule and the rules of the grammar open: no rule is lost, merged or
written twice, and a fixed rule has neither a `fake` rule nor a real production. -/
theorem heads_of_compose (hscan : Source.scan text path = .ok source)
    (hread : Directives.read source.header config.defaultBaseClass = .ok directives)
    (h : compose config names text path = .ok comp)
    (hbody : ∀ rule ∈ source.rules.rules, ¬ separator <:+: rule.body)
    (hsuffix : ¬ separator <:+: config.accessorSuffix) (hline : '\n' ∉ config.accessorSuffix) :
    let cls := Classification.ofTable directives source.rules
    (∃ rest,
      Text.lines comp.grammarText =
        Text.lines (headerText names source directives (linkageOf config source directives)) ++ rest ∧
      List.Forall₂ Heads (declaredNames cls) (rest.filter (separator <:+: ·))) ∧
    (rulesInOrder cls).Perm cls.rules := by
  intro cls
  refine ⟨?_, rulesInOrder_perm cls⟩
  have hname : ∀ p ∈ cls.rules, p.1 ∈ source.rules.rules := fun p hp =>
    (Classification.mem_ofTable.1 hp).1
  obtain ⟨first, hfirst, hfirstName⟩ := List.mem_map.1 (Source.firstRule_mem_of_scan hscan)
  have hfirstLine : '\n' ∉ Rule.bareNameOf source.firstRule := by
    rw [← hfirstName]
    exact newline_not_mem_bareNameOf (Source.isName_of_scan hscan hfirst).oneLine
  refine ⟨_, lines_of_compose hscan hread h, ?_⟩
  rw [List.filter_cons_of_neg (by decide)]
  exact forall₂_heads_body (linkageOf config source directives) hsuffix hline hfirstLine
    (fun p hp => Source.isName_of_scan hscan (hname p hp)) fun p hp => hbody p.1 (hname p hp)

end Engine

theorem heads_of_compose_sample :
    ∃ source directives comp,
      Source.scan sampleText none = .ok source ∧
      Directives.read source.header ({} : Config).defaultBaseClass = .ok directives ∧
      compose {} sampleNames sampleText none = .ok comp ∧
      (∀ rule ∈ source.rules.rules, ¬ separator <:+: rule.body) ∧
      ∃ rest,
        Text.lines comp.grammarText =
          Text.lines (headerText sampleNames source directives (linkageOf {} source directives)) ++
            rest ∧
        List.Forall₂ Heads (declaredNames (Classification.ofTable directives source.rules))
          (rest.filter (separator <:+: ·)) := by
  obtain ⟨source, directives, comp, hscan, hread, h⟩ := exists_stages_of_isOk sample_isOk
  have hb : (Source.scan sampleText none).toOption.all
      (fun s => decide (∀ rule ∈ s.rules.rules, ¬ separator <:+: rule.body)) = true := by
    decide +kernel
  rw [hscan] at hb
  have hbody := of_decide_eq_true hb
  exact ⟨source, directives, comp, hscan, hread, h, hbody,
    (heads_of_compose hscan hread h hbody (by decide) (by decide)).1⟩

end Composition
end OpenGrammar
