import OpenGrammar.Proofs.Fragment
import OpenGrammar.Proofs.RuleHeads

/-! The references of a composed grammar. Its text is read as fragments that show what was
put in the place of each name; each such name is called through exactly one slot of
the plan, or by the name of a real production that stands in the same text. -/
namespace OpenGrammar
namespace Linkage

/-- How names are linked in a rule of the kind. -/
def linkIn (link : Linkage) : RuleKind → Text → Option Text
  | .subclass => link.directReference
  | _ => link.reference

theorem linkIn_eq_some {link : Linkage} {kind : RuleKind} {given target : Text}
    (h : link.linkIn kind given = some target) :
    (target = Naming.realName given ∧
        (link.rules.referenceKind given).any RuleKind.hasReal = true) ∨
      (target = call (Naming.accessor link.suffix given) (Naming.realName given) ∧
        link.rules.referenceKind given = some .extendable) := by
  cases kind with
  | extendable => exact reference_eq_some h
  | hidden => exact reference_eq_some h
  | subclass => exact Or.inl (directReference_eq_some h)

end Linkage

namespace ComposedRule

open Fragment (spell ofIdentifiers)

def blockFragments (production : Text) (entries : List (List Fragment)) : List Fragment :=
  .copied (blockOpener production) ::
    (entries.flatMap (fun e => .copied "  ".toList :: e ++ [.copied ['\n']]) ++
      [.copied "\x7d\n".toList])

def recoverFragments (f : Text → Option Text) (value : Text) : List Fragment :=
  .copied "recoverWhile=".toList :: ofIdentifiers f value

def realEntryFragments (link : Linkage) (bare : Text) (block : AttributeBlock) : List (List Fragment) :=
  [.copied ("elementType = ".toList ++ bare)] ::
    (((block.get? "pin".toList).map fun a => [.copied a.text]).toList ++
    ((block.get? "recoverWhile".toList).map fun a => recoverFragments link.reference a.value).toList ++
    (block.entries.filter (!consumed.contains ·.name)).map fun a => [.copied a.text])

def fixedEntryFragments (link : Linkage) (block : AttributeBlock) : List (List Fragment) :=
  block.entries.map fun a =>
    if a.name = "recoverWhile".toList then recoverFragments link.directReference a.value
    else [.copied a.text]

/-- The fragments of a `fake` rule and its real production. Only in the latter are names of
this grammar linked. -/
def openFragments (link : Linkage) (rule : Rule) : List Fragment :=
  .copied ("fake ".toList ++ rule.name ++ " ::= ".toList ++ openBody link rule ++ ['\n']) ::
    .copied (Naming.realName rule.name ++ " ::= ".toList) ::
    (ofIdentifiers link.reference (AttributeBlock.splitBody (openBody link rule)).1 ++
      blockFragments (openProduction link rule)
        (realEntryFragments link rule.bareName (openBlock link rule)))

def fixedTailFragments (link : Linkage) (rule : Rule) : List Fragment :=
  match fixedBlock link rule with
  | some block => blockFragments (fixedProduction link rule) (fixedEntryFragments link block)
  | none => [.copied ['\n']]

def fixedFragments (link : Linkage) (rule : Rule) : List Fragment :=
  .copied (rule.name ++ " ::= ".toList) ::
    (ofIdentifiers link.directReference
      (AttributeBlock.splitBody (link.linkExternals rule.body)).1 ++ fixedTailFragments link rule)

def fragments (link : Linkage) (rule : Rule) : RuleKind → List Fragment
  | .subclass => fixedFragments link rule
  | _ => openFragments link rule

theorem fragments_of_ne_subclass (link : Linkage) (rule : Rule) {kind : RuleKind}
    (h : kind ≠ .subclass) : fragments link rule kind = openFragments link rule := by
  cases kind with
  | subclass => exact absurd rfl h
  | extendable => rfl
  | hidden => rfl

theorem spell_blockFragments (production : Text) (entries : List (List Fragment)) :
    spell (blockFragments production entries) = blockText production (entries.map spell) := by
  have hentries : spell (entries.flatMap fun e =>
      Fragment.copied "  ".toList :: e ++ [.copied ['\n']]) =
      (entries.map spell).flatMap fun e => "  ".toList ++ e ++ ['\n'] := by
    rw [Fragment.spell_flatMap, List.flatMap_map]
    congr 1
    funext e
    simp [Fragment.text]
  rw [blockFragments, Fragment.spell_cons, Fragment.spell_append, hentries, blockText,
    List.append_assoc]
  rfl

theorem spell_realEntryFragments (link : Linkage) (bare : Text) (block : AttributeBlock) :
    (realEntryFragments link bare block).map spell = realEntries link bare block := by
  have hcopied : ∀ t, spell [.copied t] = t := fun t => List.append_nil t
  have hrecover : ∀ value, spell (recoverFragments link.reference value) =
      recoverEntry (link.linkReferences value) := by
    intro value
    rw [recoverFragments, Fragment.spell_cons, Fragment.spell_ofIdentifiers]
    rfl
  rw [realEntryFragments, realEntries, List.map_cons, List.map_append, List.map_append, hcopied,
    List.map_map]
  congr 1
  congr 1
  · congr 1
    · cases block.get? "pin".toList with
      | none => rfl
      | some a => simp only [Option.map_some, Option.toList_some, List.map_cons, List.map_nil, hcopied]
    · cases block.get? "recoverWhile".toList with
      | none => rfl
      | some a => simp only [Option.map_some, Option.toList_some, List.map_cons, List.map_nil, hrecover]
  · apply List.map_congr_left
    intro a _
    exact hcopied a.text

theorem spell_fixedEntryFragments (link : Linkage) (block : AttributeBlock) :
    (fixedEntryFragments link block).map spell = fixedEntries link block := by
  rw [fixedEntryFragments, fixedEntries, List.map_map]
  apply List.map_congr_left
  intro a _
  rw [Function.comp]
  split
  · rw [recoverFragments, Fragment.spell_cons, Fragment.spell_ofIdentifiers]
    rfl
  · exact List.append_nil a.text

theorem spell_fixedTailFragments (link : Linkage) (rule : Rule) :
    spell (fixedTailFragments link rule) = fixedTail link rule := by
  unfold fixedTailFragments fixedTail
  cases fixedBlock link rule with
  | none => rfl
  | some block => simp only [spell_blockFragments, spell_fixedEntryFragments]

theorem spell_fragments (link : Linkage) (rule : Rule) (kind : RuleKind) :
    spell (fragments link rule kind) = (ofRule link rule kind).text := by
  by_cases hk : kind = .subclass
  · rw [hk, text_subclass, fragments, fixedFragments, Fragment.spell_cons, Fragment.spell_append,
      Fragment.spell_ofIdentifiers, spell_fixedTailFragments, List.append_assoc]
    rfl
  · rw [fragments_of_ne_subclass link rule hk, text_of_ne_subclass link rule hk, openFragments,
      Fragment.spell_cons, Fragment.spell_cons, Fragment.spell_append, Fragment.spell_ofIdentifiers,
      spell_blockFragments, spell_realEntryFragments]
    simp only [Fragment.text, List.append_assoc, List.singleton_append]
    rfl

/-! What is linked -/

variable {link : Linkage} {rule : Rule} {given target : Text}

theorem linked_mem_blockFragments {production : Text} {entries : List (List Fragment)} :
    .linked given target ∈ blockFragments production entries ↔
      ∃ e ∈ entries, .linked given target ∈ e := by
  simp [blockFragments]

theorem linked_mem_recoverFragments {f : Text → Option Text} {value : Text}
    (h : .linked given target ∈ recoverFragments f value) : f given = some target := by
  rcases List.mem_cons.1 h with h | h
  · cases h
  · exact (Fragment.linked_mem_ofIdentifiers h).2

theorem linked_mem_realEntryFragments {bare : Text} {block : AttributeBlock} {e : List Fragment}
    (he : e ∈ realEntryFragments link bare block) (h : .linked given target ∈ e) :
    link.reference given = some target := by
  simp only [realEntryFragments, List.mem_cons, List.mem_append, Option.mem_toList,
    Option.map_eq_some_iff, List.mem_map] at he
  rcases he with rfl | ((⟨a, -, rfl⟩ | ⟨a, -, rfl⟩) | ⟨a, -, rfl⟩)
  · simp at h
  · simp at h
  · exact linked_mem_recoverFragments h
  · simp at h

theorem linked_mem_fixedTailFragments (h : .linked given target ∈ fixedTailFragments link rule) :
    link.directReference given = some target := by
  unfold fixedTailFragments at h
  split at h
  · obtain ⟨e, he, h⟩ := linked_mem_blockFragments.1 h
    obtain ⟨a, -, rfl⟩ := List.mem_map.1 he
    split at h
    · exact linked_mem_recoverFragments h
    · simp at h
  · simp at h

theorem linked_mem_openFragments (h : .linked given target ∈ openFragments link rule) :
    link.reference given = some target := by
  simp only [openFragments, List.mem_cons, List.mem_append, reduceCtorEq, false_or] at h
  rcases h with h | h
  · exact (Fragment.linked_mem_ofIdentifiers h).2
  · obtain ⟨e, he, h⟩ := linked_mem_blockFragments.1 h
    exact linked_mem_realEntryFragments he h

/-- What a composed rule links is linked as its kind demands. -/
theorem linked_mem_fragments {kind : RuleKind} (h : .linked given target ∈ fragments link rule kind) :
    link.linkIn kind given = some target := by
  cases kind with
  | extendable => exact linked_mem_openFragments h
  | hidden => exact linked_mem_openFragments h
  | subclass =>
    simp only [fragments, fixedFragments, List.mem_cons, List.mem_append, reduceCtorEq,
      false_or] at h
    rcases h with h | h
    · exact (Fragment.linked_mem_ofIdentifiers h).2
    · exact linked_mem_fixedTailFragments h

/-! What is declared -/

theorem exists_line_of_head {name : Text} (tail : Text) (hn : '\n' ∉ name) :
    ∃ line ∈ Text.lines (name ++ " ::= ".toList ++ tail), Heads name line := by
  obtain ⟨line, rest, hl, hp, -⟩ := Source.lines_of_head tail hn
  refine ⟨line, ?_, hp⟩
  rw [hl]
  exact List.mem_cons_self

theorem exists_line_of_declared {kind : RuleKind} {name : Text} (hn : '\n' ∉ rule.name)
    (h : name ∈ declared rule kind) :
    ∃ line ∈ Text.lines (ofRule link rule kind).text, Heads name line := by
  by_cases hk : kind = .subclass
  · rw [hk] at h ⊢
    obtain rfl := List.mem_singleton.1 h
    rw [text_subclass, List.append_assoc]
    exact exists_line_of_head _ hn
  · rw [declared_of_ne_subclass rule hk, List.mem_pair] at h
    rw [text_of_ne_subclass link rule hk, Text.lines_append_newline]
    simp only [List.mem_append]
    rcases h with rfl | rfl
    · obtain ⟨line, hl, hh⟩ := @exists_line_of_head ("fake ".toList ++ rule.name)
        (openBody link rule ++ ['\n']) (by simp [hn])
      exact ⟨line, Or.inl (by rwa [List.append_assoc _ (openBody link rule)]), hh⟩
    · obtain ⟨line, hl, hh⟩ := @exists_line_of_head (Naming.realName rule.name)
        (openProduction link rule ++ blockText (openProduction link rule)
          (realEntries link rule.bareName (openBlock link rule)))
        (by simp [Naming.realName, Naming.realSuffix, hn])
      exact ⟨line, Or.inr (by rwa [List.append_assoc _ (openProduction link rule)]), hh⟩

end ComposedRule

namespace Source

/-- The text, read as a grammar, has a rule of the bare name. -/
def Emits (text bare : Text) : Prop :=
  ∃ source, scan text none = .ok source ∧ ∃ rule ∈ source.rules.rules, rule.bareName = bare

theorem isName_realName {name : Text} (h : IsName name) : IsName (Naming.realName name) where
  oneLine := by simp [Naming.realName, Naming.realSuffix, h.oneLine]
  free := by
    rw [Naming.realName, show Naming.realSuffix = '_' :: "real".toList from rfl,
      Text.infix_append_cons_iff (by decide)]
    rintro (hm | hm)
    · exact h.free hm
    · exact absurd hm (by decide)
  head := by
    intro c hc
    cases name with
    | nil =>
      obtain rfl : '_' = c := by simpa [Naming.realName, Naming.realSuffix] using hc
      decide
    | cons d ds => exact h.head c (by simpa [Naming.realName] using hc)
  last := by
    intro c hc
    obtain rfl : 'l' = c := by simpa [Naming.realName, Naming.realSuffix] using hc
    decide

theorem emits_of_heads {text line name : Text} (hn : IsName name) (hl : line ∈ Text.lines text)
    (hh : ComposedRule.Heads name line) : Emits text (Rule.bareNameOf name) := by
  obtain ⟨rest, rfl⟩ := hh
  obtain ⟨source, hs, hm⟩ := exists_scan_of_opens none hl (opens_append hn rest)
  obtain ⟨rule, hr, he⟩ := List.mem_map.1 hm
  exact ⟨source, hs, rule, hr, by rw [Rule.bareName, he]⟩

end Source

namespace Composition

open Fragment (spell)

def bodyFragments (link : Linkage) (firstBare : Text) : List Fragment :=
  .copied (ComposedRule.rootName ++ " ::= ".toList) ::
    .ofToken link.reference ⟨.identifier, firstBare⟩ :: .copied ['\n'] ::
    ((link.rules.rulesOf .extendable).flatMap (ComposedRule.fragments link · .extendable) ++
      if link.rules.unextendable.isEmpty then []
      else .copied ['\n'] ::
        link.rules.unextendable.flatMap fun p => ComposedRule.fragments link p.1 p.2)

theorem spell_bodyFragments (link : Linkage) (firstBare : Text) :
    spell (bodyFragments link firstBare) = (bodyTexts link firstBare).flatten := by
  have hrest : spell (if link.rules.unextendable.isEmpty then []
      else .copied ['\n'] ::
        link.rules.unextendable.flatMap fun p => ComposedRule.fragments link p.1 p.2) =
      (if link.rules.unextendable.isEmpty then []
        else ['\n'] :: link.rules.unextendable.map fun p =>
          (ComposedRule.ofRule link p.1 p.2).text).flatten := by
    split
    · rfl
    · simp only [Fragment.spell_cons, Fragment.spell_flatMap, ComposedRule.spell_fragments,
        List.flatten_cons, ← List.flatMap_def]
      rfl
  rw [bodyFragments, bodyTexts, Fragment.spell_cons, Fragment.spell_cons, Fragment.spell_cons,
    Fragment.spell_append, hrest, Fragment.spell_flatMap, Fragment.text_ofToken, List.flatten_cons,
    List.flatten_append, ← List.flatMap_def]
  simp only [ComposedRule.spell_fragments, ComposedRule.rootRule, Fragment.text, if_true,
    List.append_assoc]

/-- What the root rule calls. -/
def rootTarget (link : Linkage) (firstBare : Text) : Text := (link.reference firstBare).getD firstBare

theorem spell_bodyFragments_root (link : Linkage) (firstBare : Text) :
    ∃ rest, spell (bodyFragments link firstBare) =
      ComposedRule.rootName ++ " ::= ".toList ++ rootTarget link firstBare ++ '\n' :: rest := by
  refine ⟨(bodyTexts link firstBare).tail.flatten, ?_⟩
  rw [spell_bodyFragments, bodyTexts, List.flatten_cons, ComposedRule.rootRule, List.append_assoc,
    List.singleton_append, List.tail_cons, rootTarget]

theorem linked_mem_bodyFragments {link : Linkage} {firstBare given target : Text}
    (h : .linked given target ∈ bodyFragments link firstBare) :
    ∃ kind, link.linkIn kind given = some target := by
  simp only [bodyFragments, List.mem_cons, List.mem_append, List.mem_flatMap, reduceCtorEq,
    false_or] at h
  rcases h with h | ⟨rule, -, h⟩ | h
  · refine ⟨.extendable, ?_⟩
    unfold Fragment.ofToken at h
    simp only [if_true] at h
    split at h
    · rename_i t ht
      obtain ⟨rfl, rfl⟩ := Fragment.linked.inj h
      exact ht
    · cases h
  · exact ⟨_, ComposedRule.linked_mem_fragments h⟩
  · split at h
    · cases h
    · simp only [List.mem_cons, List.mem_flatMap, reduceCtorEq, false_or] at h
      obtain ⟨p, -, h⟩ := h
      exact ⟨_, ComposedRule.linked_mem_fragments h⟩

theorem text_mem_bodyTexts {link : Linkage} {firstBare : Text} {rule : Rule} {kind : RuleKind}
    (h : (rule, kind) ∈ link.rules.rules) :
    (ComposedRule.ofRule link rule kind).text ∈ bodyTexts link firstBare := by
  rw [bodyTexts, List.mem_cons, List.mem_append]
  by_cases hk : kind = .extendable
  · subst hk
    have hr : rule ∈ link.rules.rulesOf .extendable := Classification.mem_rulesOf.2 h
    exact Or.inr (Or.inl (List.mem_map.2 ⟨rule, hr, rfl⟩))
  · have hu : (rule, kind) ∈ link.rules.unextendable :=
      List.mem_filter.2 ⟨h, by simpa using hk⟩
    rw [if_neg (by simpa using List.ne_nil_of_mem hu)]
    exact Or.inr (Or.inr (List.mem_cons_of_mem _ (List.mem_map.2 ⟨_, hu, rfl⟩)))

section Engine

variable {engine : PatternEngine} {config : Config} {names : GrammarNames} {text : Text}
  {path : Option Text} {source : Source} {directives : Directives} {comp : Composition}

/-- A text that stands for a reference names something that the composition has: one slot of
the plan, with its real production behind it, or the real production of a rule. -/
inductive Resolves (source : Source) (comp : Composition) : Text → Prop
  | call {accessor real : Text}
      (slot : ∃! slot, slot ∈ comp.plan.slots ∧ slot.accessor = accessor ∧ slot.realEntry = real)
      (emitted : Source.Emits comp.grammarText real) : Resolves source comp (Linkage.call accessor real)
  | real {rule : Rule} (declared : rule ∈ source.rules.rules)
      (emitted : Source.Emits comp.grammarText (Naming.realName rule.bareName)) :
      Resolves source comp (Naming.realName rule.bareName)

section Succeeded

variable (hscan : Source.scan text path = .ok source)
  (hread : Directives.read source.header config.defaultBaseClass = .ok directives)
  (h : compose config names text path = .ok comp)
include hscan hread h

theorem grammarText_eq_spell :
    comp.grammarText = headerText names source directives (linkageOf config source directives) ++
      '\n' :: spell (bodyFragments (linkageOf config source directives)
        (Rule.bareNameOf source.firstRule)) := by
  rw [grammarText_of_compose hscan hread h, spell_bodyFragments]

theorem emits_declared {rule : Rule} (hr : rule ∈ source.rules.rules) {name : Text}
    (hd : name ∈ ComposedRule.declared rule (Classification.kindOf directives rule))
    (hn : Source.IsName name) : Source.Emits comp.grammarText (Rule.bareNameOf name) := by
  let link : Linkage := linkageOf config source directives
  have hmem : (rule, Classification.kindOf directives rule) ∈ link.rules.rules :=
    Classification.mem_ofTable.2 ⟨hr, rfl⟩
  obtain ⟨line, hl, hh⟩ : ∃ line ∈ Text.lines (ComposedRule.ofRule link rule
      (Classification.kindOf directives rule)).text, ComposedRule.Heads name line :=
    ComposedRule.exists_line_of_declared (Source.isName_of_scan hscan hr).oneLine hd
  refine Source.emits_of_heads hn ?_ hh
  rw [lines_of_compose hscan hread h, Text.lines_flatten bodyTexts_end, List.mem_append,
    List.mem_cons, List.mem_flatMap]
  exact Or.inr (Or.inr ⟨_, text_mem_bodyTexts hmem, hl⟩)

theorem emits_realName {rule : Rule} (hr : rule ∈ source.rules.rules)
    (hreal : (Classification.kindOf directives rule).hasReal = true) :
    Source.Emits comp.grammarText (Naming.realName rule.bareName) := by
  have hd : Naming.realName rule.name ∈
      ComposedRule.declared rule (Classification.kindOf directives rule) := by
    cases hk : Classification.kindOf directives rule with
    | subclass =>
      rw [hk] at hreal
      cases hreal
    | extendable => simp [ComposedRule.declared]
    | hidden => simp [ComposedRule.declared]
  have he := emits_declared hscan hread h hr hd
    (Source.isName_realName (Source.isName_of_scan hscan hr))
  rwa [Rule.bareNameOf_realName] at he

theorem emits_fixed {rule : Rule} (hr : rule ∈ source.rules.rules)
    (hk : Classification.kindOf directives rule = .subclass) :
    Source.Emits comp.grammarText rule.bareName := by
  have hd : rule.name ∈ ComposedRule.declared rule (Classification.kindOf directives rule) := by
    rw [hk]
    exact List.mem_singleton.2 rfl
  exact emits_declared hscan hread h hr hd (Source.isName_of_scan hscan hr)

/-- A reference to a real production names one that is emitted. -/
theorem emits_of_hasReal {bare : Text}
    (hk : ((Classification.ofTable directives source.rules).referenceKind bare).any
      RuleKind.hasReal = true) :
    (∃ rule ∈ source.rules.rules, rule.bareName = bare) ∧
      Source.Emits comp.grammarText (Naming.realName bare) := by
  obtain ⟨rule, hr, rfl, hreal⟩ := Classification.hasReal_referenceKind_iff.1 hk
  exact ⟨⟨rule, hr, rfl⟩, emits_realName hscan hread h hr hreal⟩

/-- A reference to an extendable rule belongs to one slot. -/
theorem existsUnique_slot {bare : Text}
    (hk : (Classification.ofTable directives source.rules).referenceKind bare = some .extendable) :
    ∃! slot, slot ∈ comp.plan.slots ∧ slot.accessor = Naming.accessor config.accessorSuffix bare ∧
      slot.realEntry = Naming.realName bare := by
  obtain ⟨-, rule, hr, rfl, hkind⟩ := (Classification.referenceKind_eq_some_iff (by decide)).1 hk
  have hbare : rule.bareName = rule.name := Classification.bareName_of_kindOf hkind (by decide)
  refine ⟨slotOf (linkageOf config source directives) rule,
    ⟨(mem_slots_of_compose hscan hread h).2 ⟨rule, hr, hkind, rfl⟩, ?_, ?_⟩, ?_⟩
  · rw [slotOf, hbare]
    rfl
  · rw [slotOf, SlotPlan.of, hbare]
  · rintro slot ⟨hs, -, hreal⟩
    obtain ⟨other, ho, hokind, rfl⟩ := (mem_slots_of_compose hscan hread h).1 hs
    have hname : other.name = rule.name := by
      rw [← Classification.bareName_of_kindOf hokind (by decide)]
      exact List.append_cancel_right hreal
    rw [RuleTable.eq_of_name_eq ho hr hname]

theorem resolves_of_linkIn {kind : RuleKind} {given target : Text}
    (hl : (linkageOf config source directives).linkIn kind given = some target) :
    Resolves source comp target := by
  rcases Linkage.linkIn_eq_some hl with ⟨rfl, hk⟩ | ⟨rfl, hk⟩
  · obtain ⟨⟨rule, hr, rfl⟩, he⟩ := emits_of_hasReal hscan hread h hk
    exact .real hr he
  · have hreal : ((linkageOf config source directives).rules.referenceKind given).any
        RuleKind.hasReal = true := by
      rw [hk]
      rfl
    exact .call (existsUnique_slot hscan hread h hk) (emits_of_hasReal hscan hread h hreal).2

/-- The root rule calls a production that is emitted. -/
theorem exists_goal :
    let shown := rootTarget (linkageOf config source directives) (Rule.bareNameOf source.firstRule)
    ∃ goal, Source.Emits comp.grammarText goal ∧
      (shown = goal ∨
        ∃ slot ∈ comp.plan.slots,
          slot.realEntry = goal ∧ shown = Linkage.call slot.accessor goal) := by
  obtain ⟨first, hfirst, hname⟩ := List.mem_map.1 (Source.firstRule_mem_of_scan hscan)
  have hbare : Rule.bareNameOf source.firstRule = first.bareName := by rw [Rule.bareName, hname]
  rw [hbare, rootTarget, Linkage.reference, linkageOf_rules]
  obtain ⟨kind, hk⟩ := Classification.exists_referenceKind directives hfirst
  have hreal : kind.hasReal = true →
      Source.Emits comp.grammarText (Naming.realName first.bareName) := by
    intro hr
    refine (emits_of_hasReal hscan hread h ?_).2
    rw [hk]
    exact hr
  cases kind with
  | hidden => exact ⟨_, hreal rfl, Or.inl (by rw [hk]; rfl)⟩
  | extendable =>
    obtain ⟨slot, ⟨hs, ha, hr⟩, -⟩ := existsUnique_slot hscan hread h hk
    refine ⟨_, hreal rfl, Or.inr ⟨slot, hs, hr, ?_⟩⟩
    rw [hk, ha]
    rfl
  | subclass =>
    obtain ⟨-, rule, hr, hn, hkind⟩ := (Classification.referenceKind_eq_some_iff (by decide)).1 hk
    have he := emits_fixed hscan hread h hr hkind
    rw [Classification.bareName_of_kindOf hkind (by decide), hn] at he
    exact ⟨_, he, Or.inl (by rw [hk]; rfl)⟩

end Succeeded

/-- The plan and the text of a composition agree. -/
structure Consistent (names : GrammarNames) (source : Source) (directives : Directives)
    (link : Linkage) (comp : Composition) : Prop where
  /-- The slots are those of the extendable rules, in declaration order. -/
  slotNames : comp.plan.slotNames =
    (source.rules.rules.filter (Classification.kindOf directives · == .extendable)).map Rule.name
  nodup_slotNames : comp.plan.slotNames.Nodup
  nodup_accessors : (comp.plan.slots.map SlotPlan.accessor).Nodup
  accessor_eq : ∀ slot ∈ comp.plan.slots, slot.accessor = Naming.camelCase slot.rule ++ link.suffix
  grammarText_eq : comp.grammarText = headerText names source directives link ++
    '\n' :: spell (bodyFragments link (Rule.bareNameOf source.firstRule))
  /-- Whatever is put in the place of a name is there to be called. -/
  resolves : ∀ given target,
    .linked given target ∈ bodyFragments link (Rule.bareNameOf source.firstRule) →
      Resolves source comp target
  /-- The root rule comes first and calls a production of the same text. -/
  root : ∃ shown rest goal,
    spell (bodyFragments link (Rule.bareNameOf source.firstRule)) =
      ComposedRule.rootName ++ " ::= ".toList ++ shown ++ '\n' :: rest ∧
    Source.Emits comp.grammarText goal ∧
    (shown = goal ∨
      ∃ slot ∈ comp.plan.slots, slot.realEntry = goal ∧ shown = Linkage.call slot.accessor goal)

/-- In every composition that succeeds the plan and the text agree. -/
theorem consistent_of_compose (hscan : Source.scan text path = .ok source)
    (hread : Directives.read source.header config.defaultBaseClass = .ok directives)
    (h : compose config names text path = .ok comp) :
    Consistent names source directives (linkageOf config source directives) comp where
  slotNames := by
    rw [slotNames_of_compose hscan hread h, Classification.rulesOf_ofTable]
  nodup_slotNames := nodup_slotNames_of_compose hscan hread h
  nodup_accessors := nodup_accessors_of_compose hscan hread h
  accessor_eq := by
    intro slot hs
    obtain ⟨rule, -, -, rfl⟩ := (mem_slots_of_compose hscan hread h).1 hs
    rfl
  grammarText_eq := grammarText_eq_spell hscan hread h
  resolves := by
    intro given target hm
    obtain ⟨kind, hl⟩ := linked_mem_bodyFragments hm
    exact resolves_of_linkIn hscan hread h hl
  root := by
    obtain ⟨goal, he, hg⟩ := exists_goal hscan hread h
    obtain ⟨rest, hrest⟩ := spell_bodyFragments_root (linkageOf config source directives)
      (Rule.bareNameOf source.firstRule)
    exact ⟨_, rest, goal, hrest, he, hg⟩

end Engine

theorem consistent_of_compose_sample :
    ∃ source directives comp,
      Source.scan sampleText none = .ok source ∧
      Directives.read source.header ({} : Config).defaultBaseClass = .ok directives ∧
      compose {} sampleNames sampleText none = .ok comp ∧
      Consistent sampleNames source directives (linkageOf {} source directives) comp := by
  obtain ⟨source, directives, comp, hscan, hread, h⟩ := exists_stages_of_isOk sample_isOk
  exact ⟨source, directives, comp, hscan, hread, h, consistent_of_compose hscan hread h⟩

end Composition
end OpenGrammar
