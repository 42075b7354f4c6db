import OpenGrammar.Proofs.RuleHeads

/-! Declarations in any order. What a reference stands for, how each rule is composed and which
imports the bodies need follow from the rules that a table holds, and not from their order. -/
namespace OpenGrammar
namespace ImportSet

variable {set : ImportSet} {item : Text}

theorem mem_insert_iff {new : Text} : item ∈ (set.insert new).items ↔ item ∈ set.items ∨ item = new := by
  unfold insert
  split
  · rename_i hnew
    exact (or_iff_left_of_imp fun heq => heq ▸ hnew).symm
  · simp

theorem mem_insertAll_iff {items : List Text} :
    item ∈ (set.insertAll items).items ↔ item ∈ set.items ∨ item ∈ items := by
  induction items generalizing set with
  | nil => simp [insertAll]
  | cons new items ih =>
    have hrest : item ∈ (set.insertAll (new :: items)).items ↔
        item ∈ (set.insert new).items ∨ item ∈ items := ih
    rw [hrest, mem_insert_iff, List.mem_cons, or_assoc]

end ImportSet

namespace Classification

variable {engine : PatternEngine} {directives : Directives} {first second : RuleTable}

/-- A reference is resolved by what is declared: a hidden rule of its bare name, or else the one
rule that is written with that very name. -/
theorem referenceKind_of_perm (h : first.rules.Perm second.rules) (bare : Text) :
    (ofTable directives first).referenceKind bare =
      (ofTable directives second).referenceKind bare := by
  apply Option.ext
  intro kind
  by_cases hk : kind = .hidden
  · subst hk
    simp only [referenceKind_eq_hidden_iff, h.mem_iff]
  · simp only [referenceKind_eq_some_iff hk, h.mem_iff]

end Classification

namespace Linkage

/-- Linkages that resolve each reference alike. -/
structure Agrees (link other : Linkage) : Prop where
  suffix_eq : link.suffix = other.suffix
  kind_eq : ∀ name, link.rules.referenceKind name = other.rules.referenceKind name

variable {engine : PatternEngine} {link other : Linkage}

theorem agrees_of_perm {first second : RuleTable} (directives : Directives) (suffix : Text)
    (h : first.rules.Perm second.rules) :
    Agrees ⟨.ofTable directives first, suffix⟩ ⟨.ofTable directives second, suffix⟩ :=
  ⟨rfl, Classification.referenceKind_of_perm h⟩

namespace Agrees

theorem linkReferences_eq (h : link.Agrees other) : link.linkReferences = other.linkReferences := by
  have href : link.reference = other.reference := by
    funext name
    simp only [reference, h.kind_eq, h.suffix_eq]
  funext t
  rw [linkReferences, linkReferences, href]

theorem linkDirect_eq (h : link.Agrees other) : link.linkDirect = other.linkDirect := by
  have href : link.directReference = other.directReference := by
    funext name
    simp only [directReference, h.kind_eq]
  funext t
  rw [linkDirect, linkDirect, href]

theorem linkExternals_eq (h : link.Agrees other) : link.linkExternals = other.linkExternals := by
  funext t
  rw [linkExternals, linkExternals, h.suffix_eq]

theorem externalImports_eq (h : link.Agrees other) (parent : Option ClassName) (body : Text) :
    link.externalImports parent body = other.externalImports parent body := by
  simp only [externalImports, h.suffix_eq]

theorem ofOpen_eq (h : link.Agrees other) (rule : Rule) (kind : RuleKind) :
    ComposedRule.ofOpen link rule kind = ComposedRule.ofOpen other rule kind := by
  simp only [ComposedRule.ofOpen, ComposedRule.realEntries, h.linkExternals_eq, h.linkReferences_eq]

theorem ofFixed_eq (h : link.Agrees other) (rule : Rule) :
    ComposedRule.ofFixed link rule = ComposedRule.ofFixed other rule := by
  have hentries : ComposedRule.fixedEntries link = ComposedRule.fixedEntries other := by
    funext block
    simp only [ComposedRule.fixedEntries, h.linkDirect_eq]
  simp only [ComposedRule.ofFixed, h.linkExternals_eq, h.linkDirect_eq, hentries]

end Agrees

def importsAfter (link : Linkage) (parent : Option ClassName) (rules : List Rule) : ImportSet :=
  rules.foldl (fun set rule => link.addImports parent set rule.body) (startImports parent)

theorem mem_foldl_addImports_iff {parent : Option ClassName} {rules : List Rule} {set : ImportSet}
    {item : Text} :
    item ∈ (rules.foldl (fun set rule => link.addImports parent set rule.body) set).items ↔
      item ∈ set.items ∨ ∃ rule ∈ rules, item ∈ link.externalImports parent rule.body := by
  induction rules generalizing set with
  | nil => simp
  | cons rule rules ih =>
    rw [List.foldl_cons, ih, addImports, ImportSet.mem_insertAll_iff, List.exists_mem_cons_iff,
      or_assoc]

theorem Agrees.mem_importsAfter_iff (h : link.Agrees other) (parent : Option ClassName)
    {rules others : List Rule} (hp : rules.Perm others) (item : Text) :
    item ∈ (link.importsAfter parent rules).items ↔
      item ∈ (other.importsAfter parent others).items := by
  simp only [importsAfter, mem_foldl_addImports_iff, hp.mem_iff, h.externalImports_eq]

end Linkage

namespace Composition

open Linkage

theorem requiredImports_eq (link : Linkage) (parent : Option ClassName) :
    requiredImports link parent =
      link.importsAfter parent ((rulesInOrder link.rules).map Prod.fst) := by
  rw [requiredImports, importsAfter, List.foldl_map]

section Engine

variable {engine : PatternEngine}

theorem map_fst_rulesInOrder_perm (directives : Directives) (table : RuleTable) :
    ((rulesInOrder (.ofTable directives table)).map Prod.fst).Perm table.rules := by
  have hrules : (Classification.ofTable directives table).rules.map Prod.fst = table.rules := by
    simp [Classification.ofTable, Function.comp_def]
  exact hrules ▸ (rulesInOrder_perm _).map Prod.fst

/-- Tables that hold the same rules give each rule the same kind, resolve each reference alike,
compose each rule to the same text and need the same imports, in whatever order the rules are
declared and composed. -/
theorem composed_of_perm {first second : RuleTable} (directives : Directives) (suffix : Text)
    (parent : Option ClassName) (h : first.rules.Perm second.rules) :
    let link : Linkage := ⟨.ofTable directives first, suffix⟩
    let other : Linkage := ⟨.ofTable directives second, suffix⟩
    (∀ rule kind, (rule, kind) ∈ link.rules.rules ↔ (rule, kind) ∈ other.rules.rules) ∧
      (∀ name, link.rules.referenceKind name = other.rules.referenceKind name) ∧
      (∀ rule kind, ComposedRule.ofOpen link rule kind = ComposedRule.ofOpen other rule kind) ∧
      (∀ rule, ComposedRule.ofFixed link rule = ComposedRule.ofFixed other rule) ∧
      (∀ order others : List Rule, order.Perm first.rules → others.Perm second.rules → ∀ item,
        item ∈ (link.importsAfter parent order).items ↔
          item ∈ (other.importsAfter parent others).items) ∧
      ∀ item, item ∈ (requiredImports link parent).items ↔
        item ∈ (requiredImports other parent).items := by
  intro link other
  have hagrees : link.Agrees other := agrees_of_perm directives suffix h
  have himports : ∀ order others : List Rule, order.Perm first.rules → others.Perm second.rules →
      ∀ item, item ∈ (link.importsAfter parent order).items ↔
        item ∈ (other.importsAfter parent others).items :=
    fun _ _ ho hs => hagrees.mem_importsAfter_iff parent ((ho.trans h).trans hs.symm)
  refine ⟨fun rule kind => ?_, hagrees.kind_eq, hagrees.ofOpen_eq, hagrees.ofFixed_eq, himports, ?_⟩
  · rw [Classification.mem_ofTable, Classification.mem_ofTable, h.mem_iff]
  · rw [requiredImports_eq, requiredImports_eq]
    exact himports _ _ (map_fst_rulesInOrder_perm directives first)
      (map_fst_rulesInOrder_perm directives second)

end Engine

def namesakes : RuleTable where
  rules := [⟨"x".toList, "\x7bext\x7d".toList⟩, ⟨"private x".toList, "'p'".toList⟩,
    ⟨"a".toList, "x".toList⟩, ⟨"private  x".toList, "a".toList⟩]
  nodup := by decide

def namesakesReversed : RuleTable where
  rules := namesakes.rules.reverse
  nodup := by decide

theorem composed_of_perm_namesakes :
    let directives : Directives := ⟨.ofDotted "Base".toList, false, none, [], []⟩
    let link : Linkage := ⟨.ofTable directives namesakes, "Ext".toList⟩
    let other : Linkage := ⟨.ofTable directives namesakesReversed, "Ext".toList⟩
    namesakes.rules.Perm namesakesReversed.rules ∧ namesakes.rules ≠ namesakesReversed.rules ∧
      other.rules.referenceKind "x".toList = some .hidden ∧
      link.rules.referenceKind "x".toList = other.rules.referenceKind "x".toList ∧
      (∀ rule ∈ namesakes.rules,
        ComposedRule.ofOpen link rule .hidden = ComposedRule.ofOpen other rule .hidden) ∧
      ∀ item, item ∈ (requiredImports link (some (.ofDotted "p.Top".toList))).items ↔
        item ∈ (requiredImports other (some (.ofDotted "p.Top".toList))).items := by
  intro directives link other
  have hperm : namesakes.rules.Perm namesakesReversed.rules := (List.reverse_perm _).symm
  obtain ⟨-, hkind, hopen, -, -, himports⟩ :=
    composed_of_perm directives "Ext".toList (some (.ofDotted "p.Top".toList)) hperm
  exact ⟨hperm, by decide, by decide, hkind _, fun rule _ => hopen rule .hidden, himports⟩

end Composition
end OpenGrammar
