import OpenGrammar.Proofs.Composing
import OpenGrammar.Proofs.Replacement

/-! The imports of a composed grammar. They follow from the places where a rule body names a rule
of another grammar, in the order in which the rules are composed, each at the first place that
needs it. -/
namespace OpenGrammar
namespace Token

def referenceAt? : List Token → Option Text
  | ⟨.symbol, ['\x7b']⟩ :: ⟨.identifier, name⟩ :: ⟨.symbol, ['\x7d']⟩ :: _ => some name
  | _ => none

/-- The names of the external references at all places of a text. -/
def references (t : Text) : List Text := (tokenize t).tails.filterMap referenceAt?

theorem referenceAt?_of_text {tok : Token} {toks : List Token} (h : tok.text ≠ ['\x7b']) :
    referenceAt? (tok :: toks) = none := by
  unfold referenceAt?
  split
  · rename_i heq
    exact absurd (congrArg Token.text (List.cons.inj heq).1) h
  · rfl

theorem referenceAt?_of_kind {tok : Token} {toks : List Token} (h : tok.kind ≠ .symbol) :
    referenceAt? (tok :: toks) = none := by
  unfold referenceAt?
  split
  · rename_i heq
    exact absurd (congrArg Token.kind (List.cons.inj heq).1) h
  · rfl

theorem referenceAt?_behind (name : Text) (toks : List Token) :
    referenceAt? (⟨.identifier, name⟩ :: ⟨.symbol, ['\x7d']⟩ :: toks) = none ∧
      referenceAt? (⟨.symbol, ['\x7d']⟩ :: toks) = none :=
  ⟨referenceAt?_of_kind (by simp), referenceAt?_of_text (by simp)⟩

theorem referenceAt?_eq_some_iff {toks : List Token} {name : Text} :
    referenceAt? toks = some name ↔ externalTokens name <+: toks := by
  constructor
  · intro h
    unfold referenceAt? at h
    split at h
    · rename_i rest
      obtain rfl := Option.some.inj h
      exact ⟨rest, rfl⟩
    · cases h
  · rintro ⟨rest, rfl⟩
    rfl

theorem referenceAt?_of_pieces {tok : Token} {toks : List Token}
    (h : pieces (tok :: toks) = .plain tok :: pieces toks) : referenceAt? (tok :: toks) = none := by
  rw [Option.eq_none_iff_forall_ne_some]
  intro name hname
  obtain ⟨rest, hrest⟩ := referenceAt?_eq_some_iff.1 hname
  rw [← hrest, pieces_externalTokens] at h
  cases h

/-- References do not overlap, so that a scan which goes on behind each of them finds all. -/
theorem filterMap_pieces {toks : List Token} (h : ∀ tok ∈ toks, tok.Leads []) :
    ((pieces toks).filterMap fun
      | .plain _ => none
      | .external name => some name) = toks.tails.filterMap referenceAt? := by
  refine pieces_induction h ?nil ?alone ?reference
  case nil => rfl
  case alone =>
    intro tok toks hp ih
    rw [hp, List.tails_cons, List.filterMap_cons_none rfl,
      List.filterMap_cons_none (referenceAt?_of_pieces hp), ih]
  case reference =>
    intro name toks ih
    have hhere : referenceAt? (externalTokens name ++ toks) = some name :=
      referenceAt?_eq_some_iff.2 (List.prefix_append _ toks)
    obtain ⟨hname, hclose⟩ := referenceAt?_behind name toks
    rw [pieces_externalTokens]
    simp only [externalTokens, List.cons_append, List.nil_append] at hhere ⊢
    simp only [List.tails_cons, List.filterMap_cons, hhere, hname, hclose, ih]

theorem externals_eq_references (t : Text) : externals t = references t :=
  filterMap_pieces fun _ ht => leads_of_mem_tokenize ht

end Token

namespace ImportSet

theorem items_insertAll_empty (items : List Text) :
    (empty.insertAll items).items = items.eraseDups := by
  induction items using List.reverseRecOn with
  | nil => rfl
  | append_singleton items item ih =>
    have hlast : empty.insertAll (items ++ [item]) = (empty.insertAll items).insert item := by
      rw [insertAll, List.foldl_append]
      rfl
    have hmem : item ∈ (empty.insertAll items).items ↔ item ∈ items := by
      rw [ih, List.mem_eraseDups]
    rw [hlast, Text.eraseDups_concat, ← ih, insert]
    by_cases h : item ∈ items
    · rw [dif_pos (hmem.2 h), if_pos h, List.append_nil]
    · rw [dif_neg (mt hmem.1 h), if_neg h]

theorem insertAll_insertAll (set : ImportSet) (items more : List Text) :
    (set.insertAll items).insertAll more = set.insertAll (items ++ more) :=
  (List.foldl_append ..).symm

end ImportSet

namespace Composition

open Linkage

section Engine

variable {engine : PatternEngine} {config : Config} {names : GrammarNames} {text : Text}
  {path : Option Text} {source : Source} {directives : Directives} {comp : Composition}

/-- The rules of a table in the order in which they are composed. -/
def composingOrder (directives : Directives) (table : RuleTable) : List Rule :=
  table.rules.filter (Classification.kindOf directives · = .extendable) ++
    table.rules.filter (Classification.kindOf directives · ≠ .extendable)

/-- The imports that some bodies need below the parser class of an overridden grammar: all members of
that class, and the accessor of each rule that a body refers to. -/
def importsBelow (parent : ClassName) (suffix : Text) (bodies : List Text) : List Text :=
  ("static ".toList ++ parent.display ++ ".*".toList) ::
    (bodies.flatMap Token.references).map fun name =>
      "static ".toList ++ (parent.withSuffix "Util".toList).display ++
        '.' :: Naming.accessor suffix name

theorem map_fst_rulesInOrder (directives : Directives) (table : RuleTable) :
    (rulesInOrder (.ofTable directives table)).map Prod.fst = composingOrder directives table := by
  have hfixed : (Classification.unextendable (.ofTable directives table)).map Prod.fst =
      table.rules.filter (Classification.kindOf directives · ≠ .extendable) := by
    simp [Classification.unextendable, Classification.ofTable, List.filter_map, Function.comp_def,
      bne, beq_eq_decide]
  have hopen : ∀ rules : List Rule, (rules.map fun rule => (rule, RuleKind.extendable)).map Prod.fst =
      rules := by
    intro rules
    simp [Function.comp_def]
  rw [rulesInOrder, List.map_append, hopen, hfixed, Classification.rulesOf_ofTable, composingOrder]
  simp only [beq_eq_decide]

theorem foldl_addImports (link : Linkage) (parent : Option ClassName) (set : ImportSet)
    (bodies : List Text) :
    bodies.foldl (link.addImports parent) set =
      set.insertAll (bodies.flatMap (link.externalImports parent)) := by
  induction bodies generalizing set with
  | nil => rfl
  | cons body bodies ih =>
    rw [List.foldl_cons, ih, addImports, ImportSet.insertAll_insertAll, List.flatMap_cons]

theorem items_requiredImports (link : Linkage) (parent : Option ClassName) :
    (requiredImports link parent).items =
      match parent with
      | none => []
      | some parent => (importsBelow parent link.suffix
          (((rulesInOrder link.rules).map Prod.fst).map Rule.body)).eraseDups := by
  have hfold : requiredImports link parent =
      (((rulesInOrder link.rules).map Prod.fst).map Rule.body).foldl (link.addImports parent)
        (startImports parent) := by
    rw [requiredImports, List.foldl_map, List.foldl_map]
  rw [hfold, foldl_addImports]
  cases parent with
  | none =>
    have hnone : ∀ bodies : List Text, bodies.flatMap (link.externalImports none) = [] := by
      intro bodies
      simp [externalImports]
    rw [hnone]
    rfl
  | some parent =>
    have himports : ∀ bodies : List Text, bodies.flatMap (link.externalImports (some parent)) =
        (bodies.flatMap Token.references).map (externalImport parent link.suffix) := by
      intro bodies
      rw [List.map_flatMap]
      exact List.flatMap_congr fun body _ => by rw [externalImports, Token.externals_eq_references]
    have hstart : startImports (some parent) = ImportSet.empty.insertAll [parentImport parent] := rfl
    rw [himports, hstart, ImportSet.insertAll_insertAll, ImportSet.items_insertAll_empty]
    rfl

/-- The required imports, with which the header of a composed grammar is written: with a grammar to
override they are, in order and without repetition, all members of its parser class and the
accessors of all external references, rule by rule as the rules are composed; without one there
are none. -/
theorem imports_of_compose (hscan : Source.scan text path = .ok source)
    (hread : Directives.read source.header config.defaultBaseClass = .ok directives)
    (h : compose config names text path = .ok comp) :
    let imports := requiredImports (linkageOf config source directives) directives.overrides
    comp.grammarText = Header.emit source.header names imports directives.existingImports ++
        '\n' :: (bodyTexts (linkageOf config source directives)
          (Rule.bareNameOf source.firstRule)).flatten ∧
      imports.items =
        match directives.overrides with
        | none => []
        | some parent => (importsBelow parent config.accessorSuffix
            ((composingOrder directives source.rules).map Rule.body)).eraseDups := by
  refine ⟨grammarText_of_compose hscan hread h, ?_⟩
  rw [items_requiredImports, linkageOf_rules, linkageOf_suffix, map_fst_rulesInOrder]

end Engine

/-- A grammar that overrides another one. References stand in rules of all kinds, next to each
other, within braces, in a block, and in literals and comments, where they do not count. -/
def importingText : Text :=
  "\x7b overrides=\"p.Top\" extends(\"s\")=x \x7d\nprivate h ::= \x7bz\x7d\n".toList ++
    "s ::= \x7bw\x7d\na ::= \x7by_a\x7d\x7b\x7bx\x7d '\x7bu\x7d' /*\x7bv\x7d*/ \x7b t \x7d\n".toList ++
    "b ::= a \x7b name=\x7bx\x7d \x7byA\x7d \x7d\n".toList

theorem imports_of_compose_importing :
    ∃ source directives comp,
      Source.scan importingText none = .ok source ∧
      Directives.read source.header ({} : Config).defaultBaseClass = .ok directives ∧
      compose {} sampleNames importingText none = .ok comp ∧
      (requiredImports (linkageOf {} source directives) directives.overrides).items =
        ["static p.Top.*", "static p.TopUtil.yAExt", "static p.TopUtil.xExt",
          "static p.TopUtil.zExt", "static p.TopUtil.wExt"].map String.toList := by
  have hok : (compose {} sampleNames importingText none).isOk = true := by decide +kernel
  obtain ⟨source, directives, comp, hscan, hread, h⟩ := exists_stages_of_isOk hok
  have hitems : (Source.scan importingText none).toOption.all (fun source =>
      (Directives.read source.header ({} : Config).defaultBaseClass).toOption.all fun directives =>
        directives.overrides.any fun parent => decide
          ((importsBelow parent "Ext".toList
            ((composingOrder directives source.rules).map Rule.body)).eraseDups =
            ["static p.Top.*", "static p.TopUtil.yAExt", "static p.TopUtil.xExt",
              "static p.TopUtil.zExt", "static p.TopUtil.wExt"].map String.toList)) = true := by
    decide +kernel
  obtain ⟨-, himports⟩ := imports_of_compose hscan hread h
  refine ⟨source, directives, comp, hscan, hread, h, ?_⟩
  rw [hscan] at hitems
  simp only [Except.toOption, Option.all_some, hread] at hitems
  rw [himports]
  cases hparent : directives.overrides with
  | none =>
    rw [hparent] at hitems
    cases hitems
  | some parent =>
    rw [hparent] at hitems
    exact of_decide_eq_true hitems

end Composition
end OpenGrammar
