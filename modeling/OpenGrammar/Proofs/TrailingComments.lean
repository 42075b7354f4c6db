import OpenGrammar.Proofs.CommentedBlocks
import OpenGrammar.Proofs.OnePass
import OpenGrammar.Proofs.Rereading

/-! Comments behind a rule. A comment on its own lines before a rule is read as the end of the body
before it, and that body then ends in the comment and not in its block. So the block is lost, or
it is found because the comment ends in a closing brace, and then the comment is part of it. -/
namespace OpenGrammar

/-- The rule with a comment on the next line. The comment is given behind its mark. -/
def Rule.commented (rule : Rule) (comment : Text) : Rule :=
  { rule with body := rule.body ++ '\n' :: '/' :: '/' :: comment }

theorem Rule.trimEnd_commented (rule : Rule) (comment : Text) :
    Text.trimEnd (rule.commented comment).body = rule.body ++ '\n' :: '/' :: '/' :: Text.trimEnd comment := by
  obtain ⟨gap, hgap, he⟩ := Text.exists_trimEnd_append comment
  have hbody : (rule.commented comment).body =
      (rule.body ++ '\n' :: '/' :: '/' :: Text.trimEnd comment) ++ gap := by
    conv_lhs => rw [Rule.commented, he]
    simp
  rw [hbody, Text.trimEnd_append_allBlank _ hgap]
  refine Text.trimEnd_of_last fun c hc => ?_
  rcases List.eq_nil_or_concat' (Text.trimEnd comment) with hnil | ⟨init, d, hd⟩
  · obtain rfl : '/' = c := by simpa [hnil] using hc
    decide
  · obtain rfl : d = c := by simpa [hd, List.getLast?_cons] using hc
    exact Text.last_trimEnd (t := comment) (by simp [hd])

namespace Linkage

open Token (Piece isIdentPart isIdentifier pieces tokenize IsValue)

variable {link : Linkage} (hs : ∀ c ∈ link.suffix, isIdentPart c = true)

theorem linkExternals_comment (link : Linkage) {t comment : Text}
    (ht : ∀ tok ∈ tokenize t, tok.isClosed = true) (hc : '\n' ∉ comment) :
    link.linkExternals (t ++ '\n' :: '/' :: '/' :: comment) =
      link.linkExternals t ++ '\n' :: '/' :: '/' :: comment := by
  have hnewline := Token.mapExternals_concat (f := externalReference link.suffix) t (c := '\n') (by decide)
  have hpieces : pieces (tokenize (t ++ '\n' :: '/' :: '/' :: comment)) =
      pieces (tokenize (t ++ ['\n'])) ++ [.plain ⟨.lineComment, '/' :: '/' :: comment⟩] := by
    rw [Token.tokenize_comment ht hc, Token.pieces_concat (by simp)]
  unfold linkExternals at hnewline ⊢
  unfold Token.mapExternals at hnewline ⊢
  rw [hpieces, List.flatMap_append, hnewline]
  simp

include hs

theorem isValue_externalReference {name : Text} (hn : isIdentifier name = true) :
    IsValue (externalReference link.suffix name) where
  toIsLink := (isCall_externalReference hs hn).isLink
  chars c hc := by
    have ha := Naming.isIdentPart_of_mem_accessor hs hn
    have hreal := Naming.isIdentifier_realName hn
    simp only [externalReference, call, List.mem_append, List.mem_cons] at hc
    have hopen : c ∈ "<<".toList → c = '<' := fun h => by simpa using h
    have hclose : c ∈ ">>".toList → c = '>' := fun h => by simpa using h
    rcases hc with ((hc | hc) | rfl | (hc | hc) | hc) | hc
    · exact Or.inr (Or.inl (hopen hc))
    · exact Or.inl (ha c hc)
    · simp
    · exact Or.inr (Or.inl (hopen hc))
    · exact Or.inl (Token.isIdentPart_of_mem hreal hc)
    · exact Or.inr (Or.inr (Or.inl (hclose hc)))
    · exact Or.inr (Or.inr (Or.inl (hclose hc)))
  nonblank c hc := by
    rw [getLast?_externalReference] at hc
    obtain rfl := Option.some.inj hc
    decide

theorem isClosed_linkExternals {t : Text} (ht : ∀ tok ∈ tokenize t, tok.isClosed = true) :
    ∀ tok ∈ tokenize (link.linkExternals t), tok.isClosed = true := by
  intro tok hm
  rw [tokenize_linkExternals hs, List.mem_flatMap] at hm
  obtain ⟨p, hp, hm⟩ := hm
  cases p with
  | plain given =>
    rw [List.mem_singleton.1 hm]
    refine ht given ?_
    rw [← Token.tokens_pieces fun tok ht => Token.leads_of_mem_tokenize ht]
    exact List.mem_flatMap.2 ⟨_, hp, List.mem_singleton_self _⟩
  | external name =>
    obtain ⟨given, hg, hk, rfl⟩ := Token.mem_of_external_mem_pieces hp
    exact (isValue_externalReference hs (Token.isIdentifier_of_mem_tokenize hg hk)).isClosed hm

theorem count_linkReferences (t : Text) : (link.linkReferences t).count '\x7d' = t.count '\x7d' := by
  conv_rhs => rw [← Token.spell_tokenize t]
  unfold linkReferences Token.mapIdentifiers Token.spell
  rw [List.count_flatMap, List.count_flatMap]
  congr 1
  refine List.map_congr_left fun tok ht => ?_
  simp only [Function.comp_apply]
  split
  · rename_i hk
    cases hr : link.reference tok.text with
    | none => rfl
    | some target =>
      have hn := Token.isIdentifier_of_mem_tokenize ht hk
      have hname : '\x7d' ∉ tok.text := fun hm =>
        absurd (Token.isIdentPart_of_mem hn hm) (by decide)
      have htarget : '\x7d' ∉ target := fun hm => by
        rcases (isValue_reference hs hn hr).chars _ hm with h | h
        · exact absurd h (by decide)
        · exact absurd h (by decide)
      rw [Option.getD_some, List.count_eq_zero.2 hname, List.count_eq_zero.2 htarget]
  · rfl

end Linkage

namespace AttributeBlock

/-! Entries in front of others -/

variable {front : List Attribute} {a b : Attribute} {name : Text}

theorem get?_concat (front : List Attribute) (a : Attribute) (name : Text) :
    get? ⟨front ++ [a]⟩ name = (get? ⟨front⟩ name).or (if a.name = name then some a else none) := by
  simp only [get?, List.find?_append, List.find?_cons, List.find?_nil]
  split <;> simp_all

theorem get?_eq_none_iff {entries : List Attribute} :
    get? ⟨entries⟩ name = none ↔ ∀ a ∈ entries, a.name ≠ name := by
  simp [get?]

theorem get?_concat_of_ne (h : a.name ≠ name) : get? ⟨front ++ [a]⟩ name = get? ⟨front⟩ name := by
  rw [get?_concat, if_neg h, Option.or_none]

theorem get?_concat_of_earlier (h : ∃ c ∈ front, c.name = name) :
    get? ⟨front ++ [a]⟩ name = get? ⟨front⟩ name := by
  rw [get?_concat]
  cases hg : get? ⟨front⟩ name with
  | none =>
    obtain ⟨c, hc, hn⟩ := h
    exact absurd hn (get?_eq_none_iff.1 hg c hc)
  | some c => rfl

theorem get?_concat_of_first (h : ∀ c ∈ front, c.name ≠ a.name) :
    get? ⟨front ++ [a]⟩ a.name = some a := by
  rw [get?_concat, get?_eq_none_iff.2 h, if_pos rfl]
  rfl

/-- The override is told by the last entry only if it is the first of that name. -/
theorem overrideEnabled_grown_iff (h : Grown a b) :
    overrideEnabled ⟨front ++ [b]⟩ = overrideEnabled ⟨front ++ [a]⟩ ↔
      (a.name = "override".toList → a.value ≠ "true".toList ∨ ∃ c ∈ front, c.name = "override".toList) := by
  have hb : b.value ≠ "true".toList := fun he => by
    have hcount := h.value
    rw [he, show "true".toList.count '\x7d' = 0 from rfl] at hcount
    exact absurd hcount (Nat.not_lt_zero _)
  unfold overrideEnabled
  by_cases hn : a.name = "override".toList
  · by_cases hc : ∃ c ∈ front, c.name = "override".toList
    · rw [get?_concat_of_earlier hc, get?_concat_of_earlier hc]
      exact iff_of_true rfl fun _ => Or.inr hc
    · push Not at hc
      have hfirst := get?_concat_of_first (a := a) fun c hm => by rw [hn]; exact hc c hm
      have hgrown := get?_concat_of_first (a := b) fun c hm => by rw [h.name, hn]; exact hc c hm
      rw [hn] at hfirst
      rw [h.name, hn] at hgrown
      rw [hfirst, hgrown, Option.any_some, Option.any_some, beq_eq_false_iff_ne.2 hb]
      simp [hn]
      tauto
  · rw [get?_concat_of_ne hn, get?_concat_of_ne (by rwa [h.name])]
    exact iff_of_true rfl fun he => absurd he hn

end AttributeBlock

namespace ComposedRule

open AttributeBlock (Grown LastGrown get? get?_concat_of_ne get?_concat_of_earlier get?_concat_of_first)
open Token (isIdentPart tokenize)

variable {link : Linkage} {rule : Rule}

/-- Nothing that is written depends on the last entry: its name is one of those that are written
from other sources, and it is not what is written. -/
def Unused (front : List Attribute) (a : Attribute) : Prop :=
  a.name ∈ consumed ∧
    ((a.name = "pin".toList ∨ a.name = "recoverWhile".toList) → ∃ c ∈ front, c.name = a.name)

def passedOn (entries : List Attribute) : List Text :=
  (entries.filter (!consumed.contains ·.name)).map Attribute.text

theorem realEntries_eq (link : Linkage) (bare : Text) (entries : List Attribute) :
    realEntries link bare ⟨entries⟩ = ("elementType = ".toList ++ bare) ::
      (((get? ⟨entries⟩ "pin".toList).map Attribute.text).toList ++
      ((get? ⟨entries⟩ "recoverWhile".toList).map fun a =>
        recoverEntry (link.linkReferences a.value)).toList ++ passedOn entries) := rfl

theorem passedOn_concat_of_mem {front : List Attribute} {a : Attribute} (h : a.name ∈ consumed) :
    passedOn (front ++ [a]) = passedOn front := by
  simp [passedOn, h]

theorem passedOn_concat_of_not_mem {front : List Attribute} {a : Attribute} (h : a.name ∉ consumed) :
    passedOn (front ++ [a]) = passedOn front ++ [a.text] := by
  simp [passedOn, h]

section Grown

variable (hs : ∀ c ∈ link.suffix, isIdentPart c = true) (bare : Text) {front : List Attribute}
  {a b : Attribute} (h : Grown a b)
include h

theorem realEntries_grown_of_unused (hu : Unused front a) :
    realEntries link bare ⟨front ++ [b]⟩ = realEntries link bare ⟨front ++ [a]⟩ := by
  have hget : ∀ name, (name = "pin".toList ∨ name = "recoverWhile".toList) →
      get? ⟨front ++ [b]⟩ name = get? ⟨front ++ [a]⟩ name := by
    intro name hname
    by_cases hn : a.name = name
    · obtain ⟨c, hc, hcn⟩ := hu.2 (by rwa [hn])
      have hearlier : ∃ c ∈ front, c.name = name := ⟨c, hc, hcn.trans hn⟩
      rw [get?_concat_of_earlier hearlier, get?_concat_of_earlier hearlier]
    · rw [get?_concat_of_ne hn, get?_concat_of_ne (by rwa [h.name])]
  rw [realEntries_eq, realEntries_eq, hget _ (Or.inl rfl), hget _ (Or.inr rfl),
    passedOn_concat_of_mem hu.1, passedOn_concat_of_mem (by rw [h.name]; exact hu.1)]

theorem mem_consumed_of_realEntries
    (he : realEntries link bare ⟨front ++ [b]⟩ = realEntries link bare ⟨front ++ [a]⟩) :
    a.name ∈ consumed := by
  by_contra hc
  have hpin : a.name ≠ "pin".toList := fun hn => hc (by rw [hn]; decide)
  have hrecover : a.name ≠ "recoverWhile".toList := fun hn => hc (by rw [hn]; decide)
  rw [realEntries_eq, realEntries_eq, get?_concat_of_ne hpin, get?_concat_of_ne hrecover,
    get?_concat_of_ne (by rwa [h.name]), get?_concat_of_ne (by rwa [h.name]),
    passedOn_concat_of_not_mem hc, passedOn_concat_of_not_mem (by rwa [h.name])] at he
  have htext : b.text = a.text := by
    have hlast := List.append_cancel_left (List.append_cancel_left (List.cons.inj he).2)
    exact (List.cons.inj hlast).1
  exact absurd h.text (by rw [htext]; exact Nat.lt_irrefl _)

include hs in
theorem exists_earlier_of_realEntries
    (he : realEntries link bare ⟨front ++ [b]⟩ = realEntries link bare ⟨front ++ [a]⟩)
    (hn : a.name = "pin".toList ∨ a.name = "recoverWhile".toList) : ∃ c ∈ front, c.name = a.name := by
  by_contra hno
  push Not at hno
  have hfirst := get?_concat_of_first hno
  have hgrown := get?_concat_of_first (a := b) fun c hc => by rw [h.name]; exact hno c hc
  rw [realEntries_eq, realEntries_eq] at he
  rcases hn with hn | hn
  · rw [h.name, hn] at hgrown
    rw [hn] at hfirst
    rw [hfirst, hgrown] at he
    have htext : b.text = a.text := (List.cons.inj (List.cons.inj he).2).1
    exact absurd h.text (by rw [htext]; exact Nat.lt_irrefl _)
  · have hpin : a.name ≠ "pin".toList := by rw [hn]; decide
    rw [h.name, hn] at hgrown
    rw [hn] at hfirst
    rw [hfirst, hgrown, get?_concat_of_ne hpin, get?_concat_of_ne (by rwa [h.name]), List.append_assoc,
      List.append_assoc] at he
    have hentry : recoverEntry (link.linkReferences b.value) = recoverEntry (link.linkReferences a.value) :=
      (List.cons.inj (List.append_cancel_left (List.cons.inj he).2)).1
    have hcount := congrArg (List.count '\x7d') (List.append_cancel_left hentry)
    rw [Linkage.count_linkReferences hs, Linkage.count_linkReferences hs] at hcount
    exact absurd h.value (by rw [hcount]; exact Nat.lt_irrefl _)

include hs in
theorem realEntries_grown_iff :
    realEntries link bare ⟨front ++ [b]⟩ = realEntries link bare ⟨front ++ [a]⟩ ↔ Unused front a :=
  ⟨fun he => ⟨mem_consumed_of_realEntries bare h he, exists_earlier_of_realEntries hs bare h he⟩,
    realEntries_grown_of_unused bare h⟩

end Grown

theorem realEntries_nil_iff (link : Linkage) (bare : Text) (block : AttributeBlock) :
    realEntries link bare {} = realEntries link bare block ↔
      ∀ a ∈ block.entries, a.name = "elementType".toList ∨ a.name = "override".toList := by
  have hnone : realEntries link bare {} = realEntries link bare block ↔
      block.get? "pin".toList = none ∧ block.get? "recoverWhile".toList = none ∧
        passedOn block.entries = [] := by
    have hnil : realEntries link bare {} = ["elementType = ".toList ++ bare] := rfl
    rw [hnil, realEntries_eq link bare block.entries]
    simp only [List.cons.injEq, true_and, List.nil_eq, List.append_eq_nil_iff, Option.toList_eq_nil_iff,
      Option.map_eq_none_iff, and_assoc]
  have hpassed : passedOn block.entries = [] ↔ ∀ a ∈ block.entries, a.name ∈ consumed := by
    simp [passedOn]
  rw [hnone, hpassed, AttributeBlock.get?_eq_none_iff, AttributeBlock.get?_eq_none_iff]
  constructor
  · rintro ⟨hpin, hrecover, hconsumed⟩ a ha
    have hname := hconsumed a ha
    simp only [consumed, List.mem_cons, List.not_mem_nil, or_false] at hname
    exact hname.imp_right fun h => ((h.resolve_left (hpin a ha)).resolve_left (hrecover a ha))
  · intro h
    refine ⟨fun a ha => ?_, fun a ha => ?_, fun a ha => ?_⟩
    all_goals rcases h a ha with hn | hn <;> rw [hn] <;> decide

/-! Blocks of rules with a comment -/

theorem openBlock_of_last (h : ∀ c ∈ (Text.trimEnd rule.body).getLast?, c ≠ '\x7d') :
    openBlock link rule = {} := by
  have hbody : ∀ c ∈ (openBody link rule).getLast?, c ≠ '\x7d' := by
    rw [openBody_eq]
    exact Token.last_mapExternals (P := (· ≠ '\x7d'))
      (fun name _ => ⟨'>', getLast?_externalReference link.suffix name, by decide⟩) h
  have htrim : Text.trimEnd (openBody link rule) = openBody link rule :=
    Text.trimEnd_of_last fun c hc => Text.last_trimEnd hc
  have hlast : (Text.trimEnd (openBody link rule)).getLast? ≠ some '\x7d' := by
    rw [htrim]
    exact fun he => hbody _ he rfl
  rw [openBlock, AttributeBlock.splitBody, if_neg hlast]
  rfl

theorem openBlock_commented {comment : Text} (h : (Text.trimEnd comment).getLast? ≠ some '\x7d') :
    openBlock link (rule.commented comment) = {} := by
  refine openBlock_of_last fun c hc hb => h ?_
  rw [Rule.trimEnd_commented] at hc
  rcases List.eq_nil_or_concat' (Text.trimEnd comment) with hnil | ⟨init, d, hd⟩
  · obtain rfl : '/' = c := by simpa [hnil] using hc
    cases hb
  · obtain rfl : d = c := by simpa [hd, List.getLast?_cons] using hc
    simp [hd, hb]

theorem lastGrown_openBlock {comment production inner : Text}
    (hs : ∀ c ∈ link.suffix, isIdentPart c = true)
    (hclosed : ∀ tok ∈ tokenize rule.body, tok.isClosed = true) (hc : '\n' ∉ comment)
    (hsplit : AttributeBlock.splitBody (openBody link rule) = (production, some inner))
    (hbrace : (Text.trimEnd comment).getLast? = some '\x7d') :
    LastGrown (AttributeBlock.parse inner).entries (openBlock link (rule.commented comment)).entries := by
  obtain ⟨front, hfront⟩ := List.getLast?_eq_some_iff.1 hbrace
  have hline : '\n' ∉ front ++ ['\x7d'] := by
    rw [← hfront]
    exact fun hm => hc ((Text.trimEnd_prefix_self comment).subset hm)
  have hbody : openBody link (rule.commented comment) =
      AttributeBlock.commented (link.linkExternals rule.body) front := by
    rw [openBody_eq, Rule.trimEnd_commented, hfront, Linkage.linkExternals_comment link hclosed hline]
    rfl
  rw [openBody, AttributeBlock.splitBody_trimEnd] at hsplit
  obtain ⟨more, hcommented, hgrown⟩ := AttributeBlock.splitBody_commented
    (Linkage.isClosed_linkExternals hs hclosed) (fun hm => hline (List.mem_append_left _ hm)) hsplit
  rw [openBlock, hbody, hcommented]
  exact hgrown

/-- The same override, and the same entries in the block of the real production. -/
structure SameBlocks (link : Linkage) (kind : RuleKind) (rule other : Rule) : Prop where
  override : (ofRule link other kind).overrideEnabled = (ofRule link rule kind).overrideEnabled
  entries : realEntries link other.bareName (openBlock link other) =
    realEntries link rule.bareName (openBlock link rule)

variable {kind : RuleKind}

theorem overrideEnabled_of_ne_subclass (link : Linkage) (rule : Rule) (hk : kind ≠ .subclass) :
    (ofRule link rule kind).overrideEnabled = (openBlock link rule).overrideEnabled := by
  cases kind with
  | subclass => exact absurd rfl hk
  | extendable => rfl
  | hidden => rfl

theorem sameBlocks_iff (hk : kind ≠ .subclass) {comment : Text} :
    SameBlocks link kind rule (rule.commented comment) ↔
      (openBlock link (rule.commented comment)).overrideEnabled = (openBlock link rule).overrideEnabled ∧
      realEntries link rule.bareName (openBlock link (rule.commented comment)) =
        realEntries link rule.bareName (openBlock link rule) := by
  rw [← overrideEnabled_of_ne_subclass link rule hk,
    ← overrideEnabled_of_ne_subclass link (rule.commented comment) hk]
  exact ⟨fun h => ⟨h.override, h.entries⟩, fun h => ⟨h.1, h.2⟩⟩

/-- The last entry says nothing. -/
def Silent (front : List Attribute) (a : Attribute) : Prop :=
  Unused front a ∧
    (a.name = "override".toList → a.value ≠ "true".toList ∨ ∃ c ∈ front, c.name = "override".toList)

theorem same_of_lastGrown (hs : ∀ c ∈ link.suffix, isIdentPart c = true) (bare : Text)
    {entries grown : List Attribute} (h : LastGrown entries grown) :
    (AttributeBlock.overrideEnabled ⟨grown⟩ = AttributeBlock.overrideEnabled ⟨entries⟩ ∧
      realEntries link bare ⟨grown⟩ = realEntries link bare ⟨entries⟩) ↔
      ∀ front a, entries = front ++ [a] → Silent front a := by
  cases h with
  | none => simp
  | last front hgrown =>
    rename_i a b
    rw [AttributeBlock.overrideEnabled_grown_iff hgrown, realEntries_grown_iff hs bare hgrown]
    constructor
    · rintro ⟨hoverride, hunused⟩ front' a' he
      obtain ⟨rfl, ha⟩ := List.append_inj' he rfl
      obtain rfl := (List.cons.inj ha).1
      exact ⟨hunused, hoverride⟩
    · exact fun h => (h front a rfl).symm

/-- A rule that is not fixed ends in the block of its real production. A comment that does not
end in a closing brace leaves the rule without its block, and one that does becomes part of the
last entry; so override and entries are the same exactly if the block, or its last entry, has
nothing to say. -/
theorem sameBlocks_commented_iff (hk : kind ≠ .subclass) {comment : Text} (hc : '\n' ∉ comment) :
    (∀ given : Rule, ∃ front, (ofRule link given kind).text = front ++
      blockText (openProduction link given) (realEntries link given.bareName (openBlock link given))) ∧
    ((Text.trimEnd comment).getLast? ≠ some '\x7d' →
      openBlock link (rule.commented comment) = {} ∧
      (SameBlocks link kind rule (rule.commented comment) ↔
        (ofRule link rule kind).overrideEnabled = false ∧
        ∀ a ∈ (openBlock link rule).entries, a.name = "elementType".toList ∨ a.name = "override".toList)) ∧
    ((Text.trimEnd comment).getLast? = some '\x7d' →
      (∀ c ∈ link.suffix, isIdentPart c = true) → (∀ tok ∈ tokenize rule.body, tok.isClosed = true) →
      ∀ production inner, AttributeBlock.splitBody (openBody link rule) = (production, some inner) →
        (SameBlocks link kind rule (rule.commented comment) ↔
          ∀ front a, (AttributeBlock.parse inner).entries = front ++ [a] → Silent front a)) := by
  refine ⟨fun given => ?_, fun hlast => ?_, fun hlast hs hclosed production inner hsplit => ?_⟩
  · rw [text_eq_realText link given hk, realText, ← List.cons_append, ← List.append_assoc]
    exact ⟨_, rfl⟩
  · have hnone := @openBlock_commented link rule _ hlast
    refine ⟨hnone, ?_⟩
    rw [sameBlocks_iff hk, hnone, realEntries_nil_iff, overrideEnabled_of_ne_subclass link rule hk]
    exact and_congr_left' eq_comm
  · have hblock : openBlock link rule = AttributeBlock.parse inner := by
      rw [openBlock, hsplit]
      rfl
    rw [sameBlocks_iff hk, hblock]
    exact same_of_lastGrown hs rule.bareName (lastGrown_openBlock hs hclosed hc hsplit hlast)

def pinnedRule : Rule :=
  ⟨"a".toList, "'x' \x7b pin=1 override=true elementType=b \x7d".toList⟩

/-- One comment loses the block of a rule, and another one leaves it as it is. -/
theorem sameBlocks_commented_iff_pinned :
    RuleKind.extendable ≠ .subclass ∧ '\n' ∉ " next".toList ∧ '\n' ∉ " see \x7bc\x7d".toList ∧
    (∀ c ∈ recoveringLink.suffix, isIdentPart c = true) ∧
    (∀ tok ∈ tokenize pinnedRule.body, tok.isClosed = true) ∧
    AttributeBlock.splitBody (openBody recoveringLink pinnedRule) =
      ("'x'".toList, some " pin=1 override=true elementType=b ".toList) ∧
    ¬ SameBlocks recoveringLink .extendable pinnedRule (pinnedRule.commented " next".toList) ∧
    SameBlocks recoveringLink .extendable pinnedRule (pinnedRule.commented " see \x7bc\x7d".toList) := by
  have hs : ∀ c ∈ recoveringLink.suffix, isIdentPart c = true := List.all_eq_true.1 (by decide)
  have hclosed : ∀ tok ∈ tokenize pinnedRule.body, tok.isClosed = true := by decide +kernel
  have hsplit : AttributeBlock.splitBody (openBody recoveringLink pinnedRule) =
      ("'x'".toList, some " pin=1 override=true elementType=b ".toList) := by decide +kernel
  have hlost := (@sameBlocks_commented_iff recoveringLink pinnedRule .extendable (by decide)
    " next".toList (by decide)).2.1 (by decide)
  have hkept := (@sameBlocks_commented_iff recoveringLink pinnedRule .extendable (by decide)
    " see \x7bc\x7d".toList (by decide)).2.2 (by decide) hs hclosed _ _ hsplit
  refine ⟨by decide, by decide, by decide, hs, hclosed, hsplit, fun h => ?_, hkept.2 ?_⟩
  · have hoverride : (ofRule recoveringLink pinnedRule .extendable).overrideEnabled = true := by
      decide +kernel
    rw [(hlost.2.1 h).1] at hoverride
    cases hoverride
  · intro front a he
    have hlast : (AttributeBlock.parse " pin=1 override=true elementType=b ".toList).entries.getLast?.map
        Attribute.name = some "elementType".toList := by decide +kernel
    rw [he, List.getLast?_concat, Option.map_some, Option.some.injEq] at hlast
    refine ⟨⟨by rw [hlast]; decide, ?_⟩, ?_⟩
    · rw [hlast]
      exact fun h => absurd h (by decide)
    · rw [hlast]
      exact fun h => absurd h (by decide)

end ComposedRule

namespace Composition

open ComposedRule

def boundRule : Rule := ⟨"a".toList, "'x' \x7b pin=1 override=true \x7d".toList⟩

def followedText : Text :=
  "a ::= 'x' \x7b pin=1 override=true \x7d\n// next\nb ::= 'y'\n".toList

/-- The comment is read as the end of the body before it, and override and pin of that rule
are lost. -/
theorem block_lost_before_comment :
    ∃ source directives comp,
      Source.scan followedText none = .ok source ∧
      Directives.read source.header ({} : Config).defaultBaseClass = .ok directives ∧
      compose {} sampleNames followedText none = .ok comp ∧
      "a_real ::= 'x' \x7b pin=1 override=true \x7d\n// next\n\x7b\n  elementType = a\n\x7d\n".toList
        <:+: comp.grammarText ∧
      '\n' ∉ " next".toList ∧ boundRule.commented " next".toList ∈ source.rules.rules ∧
      Classification.kindOf directives (boundRule.commented " next".toList) = .extendable ∧
      (AttributeBlock.splitBody (openBody (linkageOf {} source directives) boundRule)).2 =
        some " pin=1 override=true ".toList ∧
      realEntries (linkageOf {} source directives) boundRule.bareName
        (openBlock (linkageOf {} source directives) boundRule) = ["elementType = a".toList, "pin=1".toList] ∧
      (ofRule (linkageOf {} source directives) boundRule .extendable).overrideEnabled = true ∧
      ¬ SameBlocks (linkageOf {} source directives) .extendable boundRule
        (boundRule.commented " next".toList) := by
  have hok : (compose {} sampleNames followedText none).isOk = true := by decide +kernel
  obtain ⟨source, directives, comp, hscan, hread, h⟩ := exists_stages_of_isOk hok
  have htext : (compose {} sampleNames followedText none).toOption.all (fun c => decide
      ("a_real ::= 'x' \x7b pin=1 override=true \x7d\n// next\n\x7b\n  elementType = a\n\x7d\n".toList
        <:+: c.grammarText)) = true := by decide +kernel
  have hrule : (Source.scan followedText none).toOption.all (fun s =>
      (Directives.read s.header ({} : Config).defaultBaseClass).toOption.all fun d => decide
        (boundRule.commented " next".toList ∈ s.rules.rules ∧
          Classification.kindOf d (boundRule.commented " next".toList) = .extendable ∧
          (AttributeBlock.splitBody (openBody (linkageOf {} s d) boundRule)).2 =
            some " pin=1 override=true ".toList ∧
          realEntries (linkageOf {} s d) boundRule.bareName (openBlock (linkageOf {} s d) boundRule) =
            ["elementType = a".toList, "pin=1".toList] ∧
          (ofRule (linkageOf {} s d) boundRule .extendable).overrideEnabled = true ∧
          (ofRule (linkageOf {} s d) (boundRule.commented " next".toList) .extendable).overrideEnabled =
            false)) = true := by decide +kernel
  rw [h] at htext
  rw [hscan] at hrule
  simp only [Except.toOption, Option.all_some, hread] at hrule
  obtain ⟨hmem, hkind, hblock, hentries, hoverride, hlost⟩ := of_decide_eq_true hrule
  refine ⟨source, directives, comp, hscan, hread, h, of_decide_eq_true htext, by decide, hmem, hkind,
    hblock, hentries, hoverride, fun hsame => ?_⟩
  rw [hsame.override, hoverride] at hlost
  cases hlost

end Composition
end OpenGrammar
