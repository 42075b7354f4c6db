import OpenGrammar.Proofs.ClassReferences
import OpenGrammar.Proofs.ModuleReading

/-! The source of a dispatch module as a text. Where the names of a plan have no line feeds, the
source has the lines that were written and no others. -/
namespace OpenGrammar
namespace ClassName

def Avoids (d : Char) (c : ClassName) : Prop := d ∉ c.package ∧ ∀ s ∈ c.simpleNames, d ∉ s

namespace Avoids

variable {d : Char} {c : ClassName}

theorem relativeName (h : c.Avoids d) (hdot : d ≠ '.') : d ∉ c.relativeName := by
  intro hmem
  rcases Text.mem_join hmem with hmem | ⟨s, hs, hmem⟩
  · exact hdot (List.mem_singleton.1 hmem)
  · exact h.2 s hs hmem

theorem display (h : c.Avoids d) (hdot : d ≠ '.') : d ∉ c.display := by
  unfold ClassName.display
  split
  · exact h.relativeName hdot
  · simp [h.1, h.relativeName hdot, hdot]

theorem simpleName (h : c.Avoids d) : d ∉ c.simpleName := by
  unfold ClassName.simpleName
  cases hlast : c.simpleNames.getLast? with
  | none => simp
  | some s => exact h.2 s (List.mem_of_getLast? hlast)

theorem topLevel (h : c.Avoids d) : c.topLevel.Avoids d := by
  refine ⟨h.1, ?_⟩
  simp only [ClassName.topLevel, List.forall_mem_singleton]
  cases hhead : c.simpleNames.head? with
  | none => simp
  | some s => exact h.2 s (List.mem_of_head? hhead)

theorem withSuffix (h : c.Avoids d) {suffix : Text} (hsuffix : d ∉ suffix) :
    (c.withSuffix suffix).Avoids d := by
  refine ⟨h.1, ?_⟩
  simp only [ClassName.withSuffix, List.forall_mem_singleton, List.mem_append, not_or]
  exact ⟨h.simpleName, hsuffix⟩

theorem ofDotted {dotted : Text} (h : d ∉ dotted) (hdot : d ≠ '.') : (ofDotted dotted).Avoids d := by
  have hsegments : ∀ s ∈ Text.dotSegments dotted, d ∉ s := by
    intro s hs hmem
    exact h ((Text.of_mem_splitOn (List.mem_filter.1 hs).1).2 hmem)
  constructor
  · intro hmem
    rcases Text.mem_join hmem with hmem | ⟨s, hs, hmem⟩
    · exact hdot (List.mem_singleton.1 hmem)
    · exact hsegments s (List.mem_of_mem_take hs) hmem
  · intro s hs
    exact hsegments s (List.mem_of_mem_drop hs)

end Avoids

def OneLine (c : ClassName) : Prop := '\n' ∉ c.package ∧ ∀ s ∈ c.simpleNames, '\n' ∉ s

namespace OneLine

variable {c : ClassName}

theorem avoids (h : c.OneLine) : c.Avoids '\n' := h

theorem display (h : c.OneLine) : '\n' ∉ c.display := h.avoids.display (by decide)

theorem simpleName (h : c.OneLine) : '\n' ∉ c.simpleName := h.avoids.simpleName

theorem topLevel (h : c.OneLine) : c.topLevel.OneLine := h.avoids.topLevel

theorem ofDotted {dotted : Text} (h : '\n' ∉ dotted) : (ofDotted dotted).OneLine :=
  Avoids.ofDotted h (by decide)

end OneLine
end ClassName

namespace Kotlin

variable {c : ClassName} {imports : Imports} {imported : Text}

namespace Imports

theorem not_mem_written {owner? : Text → Option ClassName} {d : Char} (h : c.Avoids d)
    (hdot : d ≠ '.') : d ∉ written owner? c := by
  unfold written
  split
  · exact h.relativeName hdot
  · exact h.display hdot

theorem package_reference (c : ClassName) (imports : Imports) :
    (reference c imports).2.package = imports.package := by
  cases hown : imports.owners.lookup c.topLevel.simpleName with
  | some owner => rw [reference_of_some hown]
  | none => rw [reference_of_none hown]

theorem mem_imported_reference (h : imported ∈ (reference c imports).2.imported) :
    imported ∈ imports.imported ∨ imported = c.topLevel.display := by
  cases hown : imports.owners.lookup c.topLevel.simpleName with
  | some owner =>
    rw [reference_of_some hown] at h
    exact Or.inl h
  | none =>
    rw [reference_of_none hown] at h
    simp only at h
    split at h
    · exact Or.inl h
    · exact (List.mem_cons.1 h).symm

theorem package_mapM_reference (classes : List ClassName) (imports : Imports) :
    ((classes.mapM reference).run imports).2.package = imports.package := by
  induction classes generalizing imports with
  | nil => rfl
  | cons c classes ih => rw [mapM_reference_cons, ih, package_reference]

theorem mem_imported_mapM_reference {classes : List ClassName}
    (h : imported ∈ ((classes.mapM reference).run imports).2.imported) :
    imported ∈ imports.imported ∨ ∃ c ∈ classes, imported = c.topLevel.display := by
  induction classes generalizing imports with
  | nil => exact Or.inl h
  | cons c classes ih =>
    rw [mapM_reference_cons] at h
    rcases ih h with h | ⟨d, hd, h⟩
    · rcases mem_imported_reference h with h | h
      · exact Or.inl h
      · exact Or.inr ⟨c, List.mem_cons_self, h⟩
    · exact Or.inr ⟨d, List.mem_cons_of_mem c hd, h⟩

theorem mem_sorted_iff : imported ∈ imports.sorted ↔ imported ∈ imports.imported := by
  rw [sorted, List.mem_mergeSort, List.mem_eraseDups]

end Imports

namespace File

theorem newline_mem_indented_iff (depth : Nat) (text : Text) :
    '\n' ∈ indented depth text ↔ '\n' ∈ text := by
  unfold indented
  split
  · rename_i hnil
    simp [List.isEmpty_iff.1 hnil]
  · simp

theorem mem_headLines {line : Text} (h : line ∈ headLines imports) :
    line = [] ∨ line = "package ".toList ++ imports.package ∨
      ∃ imported ∈ imports.imported, line = "import ".toList ++ imported := by
  rcases List.mem_append.1 h with h | h
  · split at h
    · cases h
    · rcases List.mem_cons.1 h with h | h
      · exact Or.inr (Or.inl h)
      · exact Or.inl (List.mem_singleton.1 h)
  · split at h
    · cases h
    · rcases List.mem_append.1 h with h | h
      · obtain ⟨imported, hmem, rfl⟩ := List.mem_map.1 h
        exact Or.inr (Or.inr ⟨imported, Imports.mem_sorted_iff.1 hmem, rfl⟩)
      · exact Or.inl (List.mem_singleton.1 h)

end File
end Kotlin

namespace Plan

open Kotlin Kotlin.Imports Kotlin.File

variable {plan : Plan} {parent : ParentBinding} {types : TypeNames} {names : BindingNames} {line : Text}

/-- The package and the imports of a module say nothing about its slots. -/
theorem silent_headLines {imports : Imports} (h : line ∈ headLines imports) :
    ModuleText.Silent line := by
  rcases mem_headLines h with rfl | rfl | ⟨imported, -, rfl⟩
  · exact ModuleText.silent_nil
  · have hthird : ("package ".toList ++ imports.package)[2]? = some 'c' :=
      ModuleText.third_append (by decide) _
    exact ModuleText.Silent.of_plain (by rw [hthird]; decide) (by rw [hthird]; decide)
  · have hthird : ("import ".toList ++ imported)[2]? = some 'p' :=
      ModuleText.third_append (by decide) _
    exact ModuleText.Silent.of_plain (by rw [hthird]; decide) (by rw [hthird]; decide)

structure OneLine (plan : Plan) : Prop where
  module : plan.module.OneLine
  baseClass : plan.baseClass.OneLine
  parserClass : plan.parserClass.OneLine
  elementHolder : plan.elementHolder.OneLine
  accessor : ∀ slot ∈ plan.slots, '\n' ∉ slot.accessor
  realEntry : ∀ slot ∈ plan.slots, '\n' ∉ slot.realEntry
  parent : ∀ parent, plan.parent = some parent → parent.parser.OneLine ∧ parent.module.OneLine

/-! Lines are lines -/

def TypeNames.OneLine (types : TypeNames) : Prop :=
  ∀ text ∈ [types.parser, types.builder, types.node, types.element, types.jvmStatic, types.base,
    types.holder], '\n' ∉ text

def BindingNames.OneLine (names : BindingNames) : Prop :=
  ∀ text ∈ [names.parentModule, names.ownModule, names.ownParser, names.noMatch], '\n' ∉ text

theorem newline_not_mem_openingLines (htypes : types.OneLine)
    (hmodule : '\n' ∉ plan.module.simpleName) : ∀ line ∈ plan.openingLines types, '\n' ∉ line := by
  simp only [TypeNames.OneLine, List.forall_mem_cons] at htypes
  obtain ⟨-, -, hnode, helement, -, hbase, hholder, -⟩ := htypes
  simp only [openingLines, defaultHook, List.forall_mem_cons, newline_mem_indented_iff,
    List.mem_append, hmodule, hbase, hnode, helement, hholder, or_false]
  decide

theorem newline_not_mem_variableLines (htypes : types.OneLine)
    (hslots : ∀ slot ∈ plan.slots, '\n' ∉ escape slot.rule) :
    ∀ line ∈ plan.variableLines types, '\n' ∉ line := by
  simp only [TypeNames.OneLine, List.forall_mem_cons] at htypes
  rw [variableLines, List.forall_mem_flatMap]
  intro slot hslot
  unfold slotVariable
  simp only [List.forall_mem_cons, newline_mem_indented_iff, List.mem_append, htypes.1,
    hslots slot hslot, or_false]
  decide

theorem newline_not_mem_accessorLines (htypes : types.OneLine)
    (hslots : ∀ slot ∈ plan.slots, '\n' ∉ slot.accessor ∧ '\n' ∉ escape slot.rule) :
    ∀ line ∈ plan.accessorLines types, '\n' ∉ line := by
  simp only [TypeNames.OneLine, List.forall_mem_cons] at htypes
  obtain ⟨hparser, hbuilder, -, -, hjvm, -⟩ := htypes
  rw [accessorLines, List.forall_mem_flatMap]
  intro slot hslot
  obtain ⟨haccessor, hrule⟩ := hslots slot hslot
  unfold slotAccessor
  simp only [List.forall_mem_cons]
  simp only [newline_mem_indented_iff, List.mem_append, List.mem_cons, hparser, hbuilder, hjvm,
    haccessor, hrule, or_false]
  decide

theorem newline_not_mem_resetBody (htypes : types.OneLine)
    (hslots : ∀ slot ∈ plan.slots, '\n' ∉ escape slot.rule) :
    ∀ line ∈ plan.resetBody types, '\n' ∉ line := by
  simp only [TypeNames.OneLine, List.forall_mem_cons] at htypes
  obtain ⟨-, -, -, -, -, -, hholder, -⟩ := htypes
  rw [resetBody, List.forall_mem_cons, List.forall_mem_map]
  unfold defaultHook slotReset
  constructor
  · simp only [newline_mem_indented_iff, List.mem_append, hholder, or_false]
    decide
  · intro slot hslot
    simp only [newline_mem_indented_iff, List.mem_append, hslots slot hslot, false_or]
    decide

theorem newline_not_mem_bindingBody (hparser : '\n' ∉ types.parser) (hnames : names.OneLine)
    (hslots : ∀ slot ∈ plan.boundSlots, '\n' ∉ escape slot.rule ∧ '\n' ∉ slot.realEntry) :
    ∀ line ∈ plan.bindingBody types names, '\n' ∉ line := by
  simp only [BindingNames.OneLine, List.forall_mem_cons] at hnames
  obtain ⟨hparent, hown, hparserClass, hnoMatch, -⟩ := hnames
  rw [bindingBody, List.forall_mem_append, List.forall_mem_map]
  constructor
  · intro slot hslot
    obtain ⟨hrule, hentry⟩ := hslots slot hslot
    unfold slotBinding
    simp only [newline_mem_indented_iff, List.mem_append, List.mem_cons, hparent, hown, hparserClass,
      hparser, hrule, hentry, or_false]
    decide
  · unfold hookLines
    simp only [List.forall_mem_cons]
    simp only [newline_mem_indented_iff, List.mem_append, List.mem_cons, hparent, hown, hnoMatch,
      or_false, false_or]
    decide

theorem oneLine_typeClasses (h : plan.OneLine) : ∀ c ∈ plan.typeClasses, c.OneLine := by
  simp only [typeClasses, List.forall_mem_cons]
  exact ⟨.ofDotted (by decide), .ofDotted (by decide), .ofDotted (by decide), .ofDotted (by decide),
    .ofDotted (by decide), h.baseClass, h.elementHolder, by simp⟩

theorem oneLine_bindingClasses (h : plan.OneLine) (hparent : parent.module.OneLine) :
    ∀ c ∈ plan.bindingClasses parent, c.OneLine := by
  simp only [bindingClasses, List.forall_mem_cons]
  exact ⟨hparent, h.module, h.parserClass, .ofDotted (by decide), by simp⟩

theorem oneLine_texts (h : plan.OneLine) (hparent : parent.module.OneLine) :
    plan.typeTexts.OneLine ∧ (plan.bindingTexts parent).OneLine := by
  have hclasses : ∀ c ∈ plan.referenced parent, c.OneLine := by
    rw [referenced, List.forall_mem_append]
    exact ⟨oneLine_typeClasses h, oneLine_bindingClasses h hparent⟩
  have htexts : ∀ text ∈ (plan.referenced parent).map (written (plan.moduleOwner? parent)),
      '\n' ∉ text := by
    rw [List.forall_mem_map]
    exact fun c hc => not_mem_written (hclasses c hc).avoids (by decide)
  rw [← texts_referenced] at htexts
  rw [TypeNames.OneLine, BindingNames.OneLine, ← List.forall_mem_append]
  exact htexts

theorem imports_typed (plan : Plan) :
    plan.typed.imports = ((plan.typeClasses.mapM Imports.reference).run plan.opening.imports).2 := by
  simp only [typed, typeNames, typeClasses, mapM_reference_cons, mapM_reference_nil,
    run_reference_bind, run_pure]

theorem imports_bound (plan : Plan) (parent : ParentBinding) :
    (plan.bound parent).imports =
      (((plan.bindingClasses parent).mapM Imports.reference).run plan.typed.imports).2 := by
  simp only [bound, bindingNames, bindingClasses, mapM_reference_cons, mapM_reference_nil,
    run_reference_bind, run_pure]

theorem package_moduleImports (plan : Plan) : plan.moduleImports.package = plan.module.package := by
  have htyped : plan.typed.imports.package = plan.module.package := by
    rw [imports_typed, package_mapM_reference]
    rfl
  unfold moduleImports
  split
  · exact htyped
  · rw [imports_bound, package_mapM_reference, htyped]

theorem newline_not_mem_imported (h : plan.OneLine) :
    ∀ imported ∈ plan.moduleImports.imported, '\n' ∉ imported := by
  have htyped : ∀ imported ∈ plan.typed.imports.imported, '\n' ∉ imported := by
    intro imported hmem
    rw [imports_typed] at hmem
    rcases mem_imported_mapM_reference hmem with hmem | ⟨c, hc, rfl⟩
    · cases hmem
    · exact (oneLine_typeClasses h c hc).topLevel.display
  unfold moduleImports
  split
  · exact htyped
  · rename_i parent hparent
    intro imported hmem
    rw [imports_bound] at hmem
    rcases mem_imported_mapM_reference hmem with hmem | ⟨c, hc, rfl⟩
    · exact htyped imported hmem
    · exact (oneLine_bindingClasses h (h.parent parent hparent).2 c hc).topLevel.display

/-- The lines of the source of a module, with the empty one behind its end. -/
def sourceLines (plan : Plan) : List Text := headLines plan.moduleImports ++ plan.moduleLines ++ [[]]

theorem render_eq_join (plan : Plan) : plan.render = Text.join ['\n'] plan.sourceLines := by
  rw [render_eq, unlines_eq_join, sourceLines]

theorem newline_not_mem_slotLines (htypes : plan.typeTexts.OneLine) (h : plan.OneLine)
    (hrules : ∀ slot ∈ plan.slots, '\n' ∉ escape slot.rule) :
    ∀ line ∈ plan.slotLines plan.typeTexts, '\n' ∉ line := by
  simp only [slotLines, List.forall_mem_append]
  refine ⟨⟨⟨⟨⟨newline_not_mem_openingLines htypes h.module.simpleName,
    newline_not_mem_variableLines htypes hrules⟩, newline_not_mem_accessorLines htypes ?_⟩,
    by decide⟩, newline_not_mem_resetBody htypes hrules⟩, by decide⟩
  exact fun slot hslot => ⟨h.accessor slot hslot, hrules slot hslot⟩

theorem newline_not_mem_bindingLines (htypes : plan.typeTexts.OneLine)
    (hnames : (plan.bindingTexts parent).OneLine) (hparent : parent.parser.OneLine)
    (hslots : ∀ slot ∈ plan.boundSlots, '\n' ∉ escape slot.rule ∧ '\n' ∉ slot.realEntry) :
    ∀ line ∈ plan.bindingLines parent plan.typeTexts (plan.bindingTexts parent), '\n' ∉ line := by
  have hhead : '\n' ∉ bindingHead parent := by
    rw [ModuleText.binding_head]
    simp only [List.mem_append, hparent.simpleName, false_or]
    decide
  simp only [bindingLines, List.forall_mem_append]
  refine ⟨⟨?_, newline_not_mem_bindingBody (htypes _ (by simp)) hnames hslots⟩, by decide⟩
  simp [hhead]

theorem newline_not_mem_moduleLines (h : plan.OneLine)
    (hident : ∀ slot ∈ plan.slots, Token.isIdentifier slot.rule = true) :
    ∀ line ∈ plan.moduleLines, '\n' ∉ line := by
  have hrules : ∀ slot ∈ plan.slots, '\n' ∉ escape slot.rule :=
    fun slot hslot => not_mem_escape (hident slot hslot) (by decide) (by decide)
  have hbound : ∀ slot ∈ plan.boundSlots, '\n' ∉ escape slot.rule ∧ '\n' ∉ slot.realEntry := by
    intro slot hslot
    have hmem : slot ∈ plan.slots := mem_slots_of_mem_boundSlots hslot
    exact ⟨hrules slot hmem, h.realEntry slot hmem⟩
  -- the types are written before any parent is looked at
  have hself : (ParentBinding.mk plan.module plan.module).module.OneLine := h.module
  have htypes : plan.typeTexts.OneLine := (oneLine_texts h hself).1
  simp only [moduleLines, List.forall_mem_append, List.forall_mem_flatMap]
  refine ⟨⟨newline_not_mem_slotLines htypes h hrules, ?_⟩, by decide⟩
  intro parent hmem
  obtain ⟨hparser, hparent⟩ := h.parent parent (Option.mem_toList.1 hmem)
  exact newline_not_mem_bindingLines htypes (oneLine_texts h hparent).2 hparser hbound

theorem splitOn_render (h : plan.OneLine)
    (hident : ∀ slot ∈ plan.slots, Token.isIdentifier slot.rule = true) :
    plan.render.splitOn '\n' = plan.sourceLines := by
  have hhead : ∀ line ∈ headLines plan.moduleImports, '\n' ∉ line := by
    intro line hline
    rcases mem_headLines hline with rfl | rfl | ⟨imported, hmem, rfl⟩
    · simp
    · simp only [List.mem_append, package_moduleImports, h.module.1, or_false]
      decide
    · simp only [List.mem_append, newline_not_mem_imported h imported hmem, or_false]
      decide
  rw [render_eq, splitOn_unlines, sourceLines]
  rw [List.forall_mem_append]
  exact ⟨hhead, newline_not_mem_moduleLines h hident⟩

end Plan
end OpenGrammar
