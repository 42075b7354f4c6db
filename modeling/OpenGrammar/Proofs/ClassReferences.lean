import OpenGrammar.Proofs.ClassNames
import OpenGrammar.Proofs.ModuleLines

/-! How a file writes classes. A simple name belongs to the class that the file declares, or else
to the first class of that name that it refers to; this class is written short, all others in
full. The texts of two classes therefore tell them apart, unless one of them has no package to be
written with. -/
namespace OpenGrammar
namespace Kotlin
namespace Imports

variable {imports : Imports} {c d : ClassName} {simple : Text}

/-- Declares classes, and then refers to others, one after the other. -/
def run (package : Text) (declared : List Text) (classes : List ClassName) : List Text × Imports :=
  (classes.mapM reference).run (declared.foldl declare { package })

/-- The class that a simple name stands for in a file. -/
def owner? (package : Text) (declared : List Text) (classes : List ClassName) (simple : Text) :
    Option ClassName :=
  if simple ∈ declared then some (.topLevelOf package simple)
  else (classes.find? (·.topLevel.simpleName == simple)).map ClassName.topLevel

/-- The text of a class, when it is known what each simple name stands for. -/
def written (owner? : Text → Option ClassName) (c : ClassName) : Text :=
  if owner? c.topLevel.simpleName = some c.topLevel then c.relativeName else c.display

/-! One declaration, one reference -/

theorem lookup_declare (imports : Imports) (name simple : Text) :
    (imports.declare name).owners.lookup simple =
      if simple = name then some (.topLevelOf imports.package name)
      else imports.owners.lookup simple := by
  by_cases h : simple = name
  · simp [declare, h]
  · simp [declare, List.lookup_cons, h, beq_eq_false_iff_ne.2 h]

theorem lookup_foldl_declare (imports : Imports) (declared : List Text) (simple : Text) :
    (declared.foldl declare imports).owners.lookup simple =
      if simple ∈ declared then some (.topLevelOf imports.package simple)
      else imports.owners.lookup simple := by
  induction declared generalizing imports with
  | nil => simp
  | cons name declared ih =>
    rw [List.foldl_cons, ih, lookup_declare]
    have hpackage : (imports.declare name).package = imports.package := rfl
    by_cases hmem : simple ∈ declared
    · simp [hmem, hpackage]
    · by_cases heq : simple = name
      · simp [heq, hpackage]
      · simp [hmem, heq]

theorem reference_of_some {owner : ClassName}
    (h : imports.owners.lookup c.topLevel.simpleName = some owner) :
    reference c imports = (if owner = c.topLevel then c.relativeName else c.display, imports) := by
  simp only [reference, h]

theorem reference_of_none (h : imports.owners.lookup c.topLevel.simpleName = none) :
    reference c imports =
      (c.relativeName,
        { imports with
          owners := (c.topLevel.simpleName, c.topLevel) :: imports.owners
          imported := if imports.isImplicit c.topLevel then imports.imported
            else c.topLevel.display :: imports.imported }) := by
  simp only [reference, h]

theorem lookup_reference (c : ClassName) (imports : Imports) (simple : Text) :
    (reference c imports).2.owners.lookup simple =
      (imports.owners.lookup simple).or
        (if c.topLevel.simpleName = simple then some c.topLevel else none) := by
  cases hown : imports.owners.lookup c.topLevel.simpleName with
  | some owner =>
    rw [reference_of_some hown]
    by_cases heq : c.topLevel.simpleName = simple
    · simp [← heq, hown]
    · simp [heq]
  | none =>
    rw [reference_of_none hown]
    by_cases heq : c.topLevel.simpleName = simple
    · simp [← heq, hown]
    · have hne : (simple == c.topLevel.simpleName) = false := beq_eq_false_iff_ne.2 (Ne.symm heq)
      simp [List.lookup_cons, heq, hne]

theorem text_reference (c : ClassName) (imports : Imports) :
    (reference c imports).1 = written ((reference c imports).2.owners.lookup ·) c := by
  rw [written, lookup_reference, if_pos rfl]
  cases hown : imports.owners.lookup c.topLevel.simpleName with
  | some owner => simp [reference_of_some hown]
  | none => simp [reference_of_none hown]

/-! Many references -/

theorem mapM_reference_nil (imports : Imports) :
    (([] : List ClassName).mapM reference).run imports = ([], imports) := rfl

theorem mapM_reference_cons (c : ClassName) (classes : List ClassName) (imports : Imports) :
    ((c :: classes).mapM reference).run imports =
      ((reference c imports).1 :: ((classes.mapM reference).run (reference c imports).2).1,
        ((classes.mapM reference).run (reference c imports).2).2) := by
  rw [List.mapM_cons]
  rfl

theorem lookup_mapM_reference (classes : List ClassName) (imports : Imports) (simple : Text) :
    ((classes.mapM reference).run imports).2.owners.lookup simple =
      (imports.owners.lookup simple).or
        ((classes.find? (·.topLevel.simpleName == simple)).map ClassName.topLevel) := by
  induction classes generalizing imports with
  | nil => exact (Option.or_none).symm
  | cons c classes ih =>
    rw [mapM_reference_cons, ih, lookup_reference, Option.or_assoc, List.find?_cons]
    by_cases heq : c.topLevel.simpleName = simple
    · simp [heq]
    · simp [heq, beq_eq_false_iff_ne.2 heq]

/-- What a simple name stands for is settled by the first reference to it, so the text of each
class can be told from the file as it is at the end. -/
theorem texts_mapM_reference (classes : List ClassName) (imports : Imports) :
    ((classes.mapM reference).run imports).1 =
      classes.map (written (((classes.mapM reference).run imports).2.owners.lookup ·)) := by
  induction classes generalizing imports with
  | nil => rfl
  | cons c classes ih =>
    have hkept : ((classes.mapM reference).run (reference c imports).2).2.owners.lookup
        c.topLevel.simpleName = (reference c imports).2.owners.lookup c.topLevel.simpleName := by
      rw [lookup_mapM_reference, lookup_reference, if_pos rfl]
      cases imports.owners.lookup c.topLevel.simpleName <;> rfl
    rw [mapM_reference_cons, List.map_cons, ih, text_reference]
    simp only [written, hkept]

theorem texts_run (package : Text) (declared : List Text) (classes : List ClassName) :
    (run package declared classes).1 = classes.map (written (owner? package declared classes)) := by
  have howner : ((run package declared classes).2.owners.lookup ·) =
      owner? package declared classes := by
    funext simple
    rw [run, lookup_mapM_reference, lookup_foldl_declare, owner?]
    by_cases hmem : simple ∈ declared <;> simp [hmem]
  rw [← howner, run]
  exact texts_mapM_reference classes _

/-! Classes that are written alike -/

/-- One class has taken the simple name of another one that has no package to be told by. -/
structure Shadows (owner? : Text → Option ClassName) (c d : ClassName) : Prop where
  owns : owner? c.topLevel.simpleName = some c.topLevel
  simpleNames_eq : d.simpleNames = c.simpleNames
  default : d.package = []
  apart : c.package ≠ []

variable {owner? : Text → Option ClassName}

theorem written_of_default (h : c.package = []) : written owner? c = c.relativeName := by
  have hfull : c.display = c.relativeName := by simp [ClassName.display, h]
  rw [written, hfull, ite_self]

theorem relativeName_congr (h : c.simpleNames = d.simpleNames) : c.relativeName = d.relativeName := by
  rw [ClassName.relativeName, ClassName.relativeName, h]

theorem Shadows.written_eq (h : Shadows owner? c d) : written owner? c = written owner? d := by
  rw [written_of_default h.default, written, if_pos h.owns, relativeName_congr h.simpleNames_eq]

theorem eq_of_parts (hp : c.package = d.package) (hs : c.simpleNames = d.simpleNames) : c = d := by
  cases c
  cases d
  simp_all

theorem eq_of_owns (hc : owner? c.topLevel.simpleName = some c.topLevel)
    (hd : owner? d.topLevel.simpleName = some d.topLevel) (h : c.simpleNames = d.simpleNames) :
    c = d := by
  have hname : c.topLevel.simpleName = d.topLevel.simpleName := by
    rw [ClassName.topLevel, ClassName.topLevel, h]
    rfl
  rw [hname, hd] at hc
  exact eq_of_parts (congrArg ClassName.package (Option.some.inj hc)).symm h

/-- A class that is written short like another one that is written in full shadows it. -/
theorem shadows_of_written_eq (hc : c.IsRead) (hd : d.IsRead)
    (hown : owner? c.topLevel.simpleName = some c.topLevel)
    (hother : owner? d.topLevel.simpleName ≠ some d.topLevel) (h : c.relativeName = d.display) :
    Shadows owner? c d := by
  have hdefault : d.package = [] := hc.package_eq_nil hd h
  have hfull : d.display = d.relativeName := by simp [ClassName.display, hdefault]
  have hnames : d.simpleNames = c.simpleNames := hd.simpleNames_eq hc (hfull.symm.trans h.symm)
  refine ⟨hown, hnames, hdefault, fun hnil => hother ?_⟩
  rwa [eq_of_parts (hdefault.trans hnil.symm) hnames]

theorem written_eq_iff (hc : c.IsRead) (hd : d.IsRead) :
    written owner? c = written owner? d ↔
      c.display = d.display ∨ Shadows owner? c d ∨ Shadows owner? d c := by
  constructor
  · intro h
    unfold written at h
    split at h <;> split at h
    · rename_i hown hother
      left
      rw [eq_of_owns hown hother (hc.simpleNames_eq hd h)]
    · rename_i hown hother
      exact Or.inr (Or.inl (shadows_of_written_eq hc hd hown hother h))
    · rename_i hother hown
      exact Or.inr (Or.inr (shadows_of_written_eq hd hc hown hother h.symm))
    · exact Or.inl h
  · rintro (h | h | h)
    · rw [hc.eq_of_display_eq hd h]
    · exact h.written_eq
    · exact h.written_eq.symm

end Imports
end Kotlin

namespace Plan

open Kotlin Kotlin.Imports

/-! The classes of a dispatch module -/

def typeClasses (plan : Plan) : List ClassName :=
  [dotted "com.intellij.lang.parser.GeneratedParserUtilBase.Parser",
    dotted "com.intellij.lang.PsiBuilder", dotted "com.intellij.lang.ASTNode",
    dotted "com.intellij.psi.PsiElement", dotted "kotlin.jvm.JvmStatic", plan.baseClass,
    plan.elementHolder]

def bindingClasses (plan : Plan) (parent : ParentBinding) : List ClassName :=
  [parent.module, plan.module, plan.parserClass, dotted "kotlin.AssertionError"]

def referenced (plan : Plan) (parent : ParentBinding) : List ClassName :=
  plan.typeClasses ++ plan.bindingClasses parent

/-- What a simple name stands for in a module. -/
def moduleOwner? (plan : Plan) (parent : ParentBinding) : Text → Option ClassName :=
  owner? plan.module.package [plan.module.simpleName] (plan.referenced parent)

variable {plan : Plan} {parent : ParentBinding}

theorem texts_mapM_referenced (plan : Plan) (parent : ParentBinding) (file : File) :
    let types := (typeNames plan).run file
    let names := ((bindingNames plan parent).run types.2).1
    (((plan.referenced parent).mapM Imports.reference).run file.imports).1 =
      [types.1.parser, types.1.builder, types.1.node, types.1.element, types.1.jvmStatic,
        types.1.base, types.1.holder, names.parentModule, names.ownModule, names.ownParser,
        names.noMatch] := by
  simp only [typeNames, bindingNames, referenced, typeClasses, bindingClasses, List.cons_append,
    List.nil_append, mapM_reference_cons, mapM_reference_nil, run_reference_bind, run_pure]

/-- All texts of classes in a module follow one rule, that of its simple names. -/
theorem texts_referenced (plan : Plan) (parent : ParentBinding) :
    [plan.typeTexts.parser, plan.typeTexts.builder, plan.typeTexts.node, plan.typeTexts.element,
      plan.typeTexts.jvmStatic, plan.typeTexts.base, plan.typeTexts.holder,
      (plan.bindingTexts parent).parentModule, (plan.bindingTexts parent).ownModule,
      (plan.bindingTexts parent).ownParser, (plan.bindingTexts parent).noMatch] =
      (plan.referenced parent).map (written (plan.moduleOwner? parent)) := by
  have hrun : Imports.run plan.module.package [plan.module.simpleName] (plan.referenced parent) =
      ((plan.referenced parent).mapM Imports.reference).run plan.opening.imports := rfl
  rw [moduleOwner?, ← texts_run, hrun, texts_mapM_referenced]
  simp only [typeTexts, bindingTexts, typed]

theorem text_parentModule (plan : Plan) (parent : ParentBinding) :
    (plan.bindingTexts parent).parentModule =
      written (plan.moduleOwner? parent) parent.module := by
  have h := texts_referenced plan parent
  simp only [referenced, typeClasses, bindingClasses, List.cons_append, List.nil_append,
    List.map_cons, List.cons.injEq] at h
  exact h.2.2.2.2.2.2.2.1

theorem text_ownModule (plan : Plan) (parent : ParentBinding) :
    (plan.bindingTexts parent).ownModule = written (plan.moduleOwner? parent) plan.module := by
  have h := texts_referenced plan parent
  simp only [referenced, typeClasses, bindingClasses, List.cons_append, List.nil_append,
    List.map_cons, List.cons.injEq] at h
  exact h.2.2.2.2.2.2.2.2.1

theorem moduleOwner?_simpleName (plan : Plan) (parent : ParentBinding) :
    plan.moduleOwner? parent plan.module.simpleName =
      some (.topLevelOf plan.module.package plan.module.simpleName) := by
  simp [moduleOwner?, owner?]

theorem isRead_module_of {parser : ClassName} (h : parser.IsRead) :
    (ParentBinding.of parser).module.IsRead := h.withSuffix (by decide) (by decide)

section Modules

variable {owner? : Text → Option ClassName} {package name : Text} {c : ClassName}

/-- A class at the top level is told from one that has its simple name, unless only the package of
that one tells them apart and the other one has none. -/
theorem written_topLevel_eq_iff (hown : owner? name = some (.topLevelOf package name))
    (hdot : '.' ∉ name) (htop : ∃ simple, c.simpleNames = [simple]) :
    written owner? c = written owner? (.topLevelOf package name) ↔
      c = .topLevelOf package name ∨ (c.package = [] ∧ c.simpleNames = [name]) := by
  have hself : written owner? (.topLevelOf package name) = name := by
    have hrel : (ClassName.topLevelOf package name).relativeName = name := Text.join_singleton _ _
    exact (if_pos hown).trans hrel
  have hnames : c.relativeName = name → c.simpleNames = [name] := by
    obtain ⟨simple, hsimple⟩ := htop
    rw [ClassName.relativeName, hsimple, Text.join_singleton]
    exact fun h => congrArg (fun t => [t]) h
  rw [hself]
  constructor
  · intro h
    by_cases howns : owner? c.topLevel.simpleName = some c.topLevel
    · rw [written, if_pos howns] at h
      exact Or.inl (eq_of_owns howns hown (hnames h))
    · rw [written, if_neg howns] at h
      by_cases hnil : c.package = []
      · have hfull : c.display = c.relativeName := by simp [ClassName.display, hnil]
        exact Or.inr ⟨hnil, hnames (hfull.symm.trans h)⟩
      · have hfull : c.display = c.package ++ '.' :: c.relativeName := by
          simp [ClassName.display, hnil]
        rw [hfull] at h
        exact absurd (by simp [← h]) hdot
  · rintro (h | ⟨hnil, h⟩)
    · rw [h, hself]
    · rw [written_of_default hnil, ClassName.relativeName, h, Text.join_singleton]

theorem simpleNames_eq_of_written_eq {d : ClassName} (hc : c.IsRead) (hd : d.IsRead)
    (h : written owner? c = written owner? d) : c.simpleNames = d.simpleNames := by
  rcases (written_eq_iff hc hd).1 h with h | h | h
  · rw [hc.eq_of_display_eq hd h]
  · exact h.simpleNames_eq.symm
  · exact h.simpleNames_eq

end Modules

/-- The modules that can be declared: those at the top level, and those whose names are read. -/
def Declarable (module : ClassName) : Prop :=
  module.IsRead ∨ ∃ package name, '.' ∉ name ∧ module = .topLevelOf package name

/-- The binding routine tells its own module from one at the top level, unless they have the same
simple name and the other one is in the default package. -/
theorem texts_binding_eq_iff (hparent : parent.module.IsRead)
    (htop : ∃ simple, parent.module.simpleNames = [simple]) (hmodule : Declarable plan.module) :
    (plan.bindingTexts parent).parentModule = (plan.bindingTexts parent).ownModule ↔
      parent.module = plan.module ∨
        (parent.module.package = [] ∧ parent.module.simpleNames = plan.module.simpleNames) := by
  rw [text_parentModule, text_ownModule]
  by_cases hdeclared : ∃ package name, '.' ∉ name ∧ plan.module = .topLevelOf package name
  · obtain ⟨package, name, hdot, heq⟩ := hdeclared
    have hown := moduleOwner?_simpleName plan parent
    rw [heq] at hown ⊢
    exact written_topLevel_eq_iff hown hdot htop
  · -- a module that is not at the top level has other simple names
    have hread : plan.module.IsRead := hmodule.resolve_right hdeclared
    obtain ⟨simple, hsimple⟩ := htop
    have hne : parent.module.simpleNames ≠ plan.module.simpleNames := by
      intro heq
      have hname : plan.module.simpleNames = [simple] := heq.symm.trans hsimple
      have hdot : '.' ∉ simple := (hread.proper simple (by simp [hname])).2
      exact hdeclared ⟨plan.module.package, simple, hdot, eq_of_parts rfl hname⟩
    constructor
    · intro h
      exact absurd (simpleNames_eq_of_written_eq hparent hread h) hne
    · rintro (h | ⟨-, h⟩)
      · exact absurd (congrArg ClassName.simpleNames h) hne
      · exact absurd h hne

theorem bindingLines_infix_render (h : plan.parent = some parent) :
    File.unlines (plan.bindingLines parent plan.typeTexts (plan.bindingTexts parent)) <:+:
      plan.render := by
  rw [render_eq, moduleLines, h]
  simp only [Option.toList_some, List.flatMap_singleton, File.unlines_append]
  refine List.IsInfix.trans ?_ (List.suffix_append _ _).isInfix
  exact ⟨_, _, rfl⟩

/-- Two references have the same text exactly when they go to classes of the same full name, or to
a class that has its simple name and one of the default package that it shadows. So it is with the
two modules of a binding routine. -/
theorem class_texts_eq_iff (package : Text) (declared : List Text) (classes : List ClassName)
    (hread : ∀ c ∈ classes, c.IsRead) :
    (∀ (i j : Nat) (c d : ClassName), classes[i]? = some c → classes[j]? = some d →
      ((Imports.run package declared classes).1[i]? =
          (Imports.run package declared classes).1[j]? ↔
        c.display = d.display ∨ Shadows (owner? package declared classes) c d ∨
          Shadows (owner? package declared classes) d c)) ∧
    ∀ (plan : Plan) (parent : ParentBinding), plan.parent = some parent → parent.module.IsRead →
      File.unlines (plan.bindingLines parent plan.typeTexts (plan.bindingTexts parent)) <:+:
          plan.render ∧
        (plan.module.IsRead →
          ((plan.bindingTexts parent).parentModule = (plan.bindingTexts parent).ownModule ↔
            parent.module.display = plan.module.display ∨
              Shadows (plan.moduleOwner? parent) parent.module plan.module ∨
              Shadows (plan.moduleOwner? parent) plan.module parent.module)) ∧
        ((∃ simple, parent.module.simpleNames = [simple]) → Declarable plan.module →
          ((plan.bindingTexts parent).parentModule = (plan.bindingTexts parent).ownModule ↔
            parent.module = plan.module ∨
              (parent.module.package = [] ∧
                parent.module.simpleNames = plan.module.simpleNames))) := by
  constructor
  · intro i j c d hi hj
    have hc : c.IsRead := hread c (List.mem_of_getElem? hi)
    have hd : d.IsRead := hread d (List.mem_of_getElem? hj)
    rw [texts_run, List.getElem?_map, List.getElem?_map, hi, hj, Option.map_some, Option.map_some,
      Option.some.injEq]
    exact written_eq_iff hc hd
  · intro plan parent hplan hparent
    refine ⟨bindingLines_infix_render hplan, ?_, texts_binding_eq_iff hparent⟩
    intro hmodule
    rw [text_parentModule, text_ownModule]
    exact written_eq_iff hparent hmodule

def namesake (package parent : String) : Plan where
  module := .topLevelOf package.toList "RootParserUtil".toList
  baseClass := dotted "Base"
  parserClass := .topLevelOf package.toList "RootParser".toList
  elementHolder := .topLevelOf package.toList "RootTypes".toList
  slots := [.of "x".toList "xExt".toList true]
  parent := some (.of (dotted parent))

theorem class_texts_eq_iff_clash :
    ((Imports.run [] ["B".toList] [dotted "a.B", dotted "b.B"]).1[0]? ≠
      (Imports.run [] ["B".toList] [dotted "a.B", dotted "b.B"]).1[1]?) ∧
    (namesake "p" "q.RootParser").parent = some (.of (dotted "q.RootParser")) ∧
      (ParentBinding.of (dotted "q.RootParser")).module.IsRead ∧
      Declarable (namesake "p" "q.RootParser").module ∧
      ((namesake "p" "q.RootParser").bindingTexts (.of (dotted "q.RootParser"))).parentModule ≠
        ((namesake "p" "q.RootParser").bindingTexts (.of (dotted "q.RootParser"))).ownModule := by
  have hread : ∀ c ∈ [dotted "a.B", dotted "b.B"], c.IsRead := by
    intro c hc
    rcases List.mem_cons.1 hc with rfl | hc
    · exact ⟨_, rfl⟩
    · exact ⟨_, List.mem_singleton.1 hc⟩
  obtain ⟨hrun, hbinding⟩ := class_texts_eq_iff [] ["B".toList] _ hread
  have hdeclarable : Declarable (namesake "p" "q.RootParser").module :=
    Or.inr ⟨_, _, by decide, rfl⟩
  have hparent : (ParentBinding.of (dotted "q.RootParser")).module.IsRead := isRead_module_of ⟨_, rfl⟩
  obtain ⟨-, -, htop⟩ := hbinding (namesake "p" "q.RootParser") _ rfl hparent
  refine ⟨?_, rfl, hparent, hdeclarable, ?_⟩
  · rw [Ne, hrun 0 1 _ _ rfl rfl]
    rintro (h | h | h)
    · exact absurd h (by decide)
    · exact absurd h.default (by decide)
    · exact absurd h.default (by decide)
  · rw [Ne, htop ⟨_, rfl⟩ hdeclarable]
    rintro (h | ⟨h, -⟩)
    · exact absurd h (by decide)
    · exact absurd h (by decide)

/-- A class of the default package is written like the class that has its simple name, and so is a
parent's module in the default package. -/
theorem class_texts_shadowed :
    (Imports.run "p".toList [] [dotted "a.B", dotted "B"]).1 = ["B".toList, "B".toList] ∧
      (dotted "a.B").display ≠ (dotted "B").display ∧
      ((namesake "p" "RootParser").bindingTexts (.of (dotted "RootParser"))).parentModule =
        ((namesake "p" "RootParser").bindingTexts (.of (dotted "RootParser"))).ownModule ∧
      (ParentBinding.of (dotted "RootParser")).module.display ≠
        (namesake "p" "RootParser").module.display := by
  decide +kernel

end Plan
end OpenGrammar
