import OpenGrammar.Proofs.Composing
import OpenGrammar.Proofs.DirectiveReading
import OpenGrammar.Proofs.ModuleTables

/-! The member variables of a dispatch module. Its lines declare the hook and one variable for each
slot, and its routines assign to the same names. The names of slots are apart from each other, but
nothing keeps them apart from that of the hook. -/
namespace OpenGrammar
namespace ModuleText

open Text
open Kotlin (unescape escape unescape_escape not_mem_escape)
open Kotlin.File (indented)
open Plan

/-- The variable that a line declares, with a value or without one. -/
def introduced? (line : Text) : Option Text := (field? "  var ".toList ':' line).map (unescape ·.1)

/-- The variable of an owner that a line of a routine assigns to. -/
def assigned? (owner line : Text) : Option Text := do
  let (name, rest) ← field? ("    ".toList ++ owner) ' ' line
  if " = ".toList.isPrefixOf rest then return unescape name else none

/-- The names that some lines introduce as variables. -/
def introduced (lines : List Text) : List Text := lines.filterMap introduced?

/-- For each routine the variables of an owner that it assigns to. -/
def assigned (opens : Text → Bool) (owner : Text) (lines : List Text) : List (List Text) :=
  (routines opens lines).map (·.filterMap (assigned? owner))

variable {text name rest owner : Text} {lines more : List Text} {plan : Plan} {types : TypeNames}
  {names : BindingNames} {slot : SlotPlan}

theorem introduced_append (lines more : List Text) :
    introduced (lines ++ more) = introduced lines ++ introduced more := List.filterMap_append

theorem introduced?_of_third (h : text[2]? ≠ some 'v') : introduced? text = none := by
  have hhead : ¬ "  var ".toList <+: text := fun hpre => h (third_of_start hpre (by decide))
  rw [introduced?, field?_eq_none hhead, Option.map_none]

theorem introduced_of_third (h : ∀ text ∈ lines, text[2]? ≠ some 'v') : introduced lines = [] :=
  List.filterMap_eq_nil_iff.2 fun text hl => introduced?_of_third (h text hl)

theorem Inner.third_ne (h : Inner text) : text[2]? ≠ some 'v' := by
  rcases h with h | h <;> simp [h]

/-! The lines of the variables -/

theorem introduced?_slot (h : Token.isIdentifier slot.rule = true) :
    introduced? (indented 1 (slotVariable types slot)) = some slot.rule := by
  have hstop : ':' ∉ escape slot.rule := not_mem_escape h (by decide) (by decide)
  rw [introduced?, variable_line, field?_append hstop rfl, Option.map_some, unescape_escape h]

theorem introduced_openingLines : introduced (plan.openingLines types) = [hookName] := by
  have hobject : (indented 0 ("object ".toList ++ plan.module.simpleName ++ " : ".toList ++
      types.base ++ "() \x7b".toList))[2]? ≠ some 'v' := by
    rw [indented_zero, third_append (third_append (third_append (third_append (c := 'j')
      (by decide) _) _) _) _]
    decide
  have hline : indented 1 ("var ".toList ++ hookName ++ ": (".toList ++ types.node ++
      ") -> ".toList ++ types.element ++ " = ".toList ++ defaultHook types) =
        "  var ".toList ++ (hookName ++ (": (".toList ++ (types.node ++ (") -> ".toList ++
          (types.element ++ (" = ".toList ++ defaultHook types)))))) := by
    simp only [List.append_assoc]
    exact indented_of_ne_nil (List.append_ne_nil_of_left_ne_nil (by decide) _) 1
  have hhook : introduced? (indented 1 ("var ".toList ++ hookName ++ ": (".toList ++ types.node ++
      ") -> ".toList ++ types.element ++ " = ".toList ++ defaultHook types)) = some hookName := by
    have hname : unescape hookName = hookName := by decide
    rw [introduced?, hline, field?_append (by decide) rfl, Option.map_some, hname]
  rw [openingLines, introduced, List.filterMap_cons_none (introduced?_of_third hobject),
    List.filterMap_cons_some hhook, List.filterMap_nil]

theorem introduced_variableLines (h : ∀ slot ∈ plan.slots, Token.isIdentifier slot.rule = true) :
    introduced (plan.variableLines types) = plan.slotNames := by
  rw [introduced, variableLines, List.filterMap_flatMap, slotNames, List.map_eq_flatMap]
  refine List.flatMap_congr fun slot hslot => ?_
  rw [List.filterMap_cons_none (introduced?_of_third (by decide)),
    List.filterMap_cons_some (introduced?_slot (h slot hslot)), List.filterMap_nil]

theorem introduced_accessorLines : introduced (plan.accessorLines types) = [] := by
  apply introduced_of_third
  simp only [accessorLines, List.forall_mem_flatMap, List.forall_mem_cons]
  intro slot _
  refine ⟨by decide, ?_, ?_, by simp⟩
  · have hmark : (indented 1 ('@' :: types.jvmStatic))[2]? = some '@' := rfl
    rw [hmark]
    decide
  · rw [third_accessor]
    decide

theorem introduced_slotLines (h : ∀ slot ∈ plan.slots, Token.isIdentifier slot.rule = true) :
    introduced (plan.slotLines types) = hookName :: plan.slotNames := by
  have hreset : introduced [[], indented 1 "fun reset() \x7b".toList] = [] := by decide
  have hclose : introduced [indented 1 "\x7d".toList] = [] := by decide
  have hbody : introduced (plan.resetBody types) = [] :=
    introduced_of_third fun _ hl => (inner_resetBody hl).third_ne
  simp only [slotLines, introduced_append, introduced_openingLines, introduced_variableLines h,
    introduced_accessorLines, hreset, hbody, hclose, List.append_nil, List.singleton_append]

theorem introduced_bindingLines (parent : ParentBinding) :
    introduced (plan.bindingLines parent types names) = [] := by
  have hhead : (bindingHead parent)[2]? = some 'f' := by
    rw [binding_head]
    exact third_of_start (List.prefix_append _ _) (by decide)
  apply introduced_of_third
  simp only [bindingLines, List.forall_mem_append, List.forall_mem_cons]
  refine ⟨⟨⟨by decide, by rw [hhead]; decide, by simp⟩, ?_⟩, by decide, by simp⟩
  exact fun line hl => (inner_bindingBody hl).third_ne

theorem introduced_headLines (imports : Kotlin.Imports) :
    introduced (Kotlin.File.headLines imports) = [] := by
  refine introduced_of_third fun line hl => ?_
  rcases Kotlin.File.mem_headLines hl with rfl | rfl | ⟨imported, -, rfl⟩
  · decide
  · rw [third_append (c := 'c') (by decide)]
    decide
  · rw [third_append (c := 'p') (by decide)]
    decide

/-- The source of a module introduces the hook and then its slots, in order. -/
theorem introduced_sourceLines (h : ∀ slot ∈ plan.slots, Token.isIdentifier slot.rule = true) :
    introduced plan.sourceLines = hookName :: plan.slotNames := by
  have hclose : introduced [indented 0 "\x7d".toList] = [] := by decide
  have hbinding : introduced (plan.parent.toList.flatMap fun parent =>
      plan.bindingLines parent plan.typeTexts (plan.bindingTexts parent)) = [] := by
    rw [introduced, List.filterMap_flatMap, List.flatMap_eq_nil_iff]
    exact fun parent _ => introduced_bindingLines parent
  have hend : introduced [[]] = [] := by decide
  simp only [sourceLines, moduleLines, introduced_append, introduced_headLines, introduced_slotLines h,
    hbinding, hclose, hend, List.nil_append, List.append_nil]

/-! The routines -/

section Routines

variable {opens : Text → Bool}

/-- A test of lines that picks out openings of routines only. -/
structure Opens (opens : Text → Bool) : Prop where
  silent : ∀ text, Silent text → opens text = false
  variable_line : ∀ text, text[2]? = some 'v' → opens text = false
  accessor_line : ∀ types slot, opens (indented 1 (slotAccessor types slot)) = false

theorem opens_opensReset : Opens opensReset where
  silent _ h := h.resets
  variable_line _ h := opensReset_of_third (by simp [h])
  accessor_line _ _ := opensReset_accessor

theorem opens_opensBinding : Opens opensBinding where
  silent _ h := h.binds
  variable_line _ h := opensBinding_of_third (by simp [h])
  accessor_line _ _ := opensBinding_accessor

theorem routines_slotLines (h : Opens opens) :
    routines opens (plan.slotLines types ++ more) =
      (if opens "  fun reset() \x7b".toList then [plan.resetBody types] else []) ++
        routines opens more := by
  have hvariables : ∀ line ∈ plan.variableLines types, opens line = false := by
    simp only [variableLines, List.forall_mem_flatMap, List.forall_mem_cons]
    exact fun slot _ => ⟨h.silent _ silent_nil, h.variable_line _ (third_variable types slot), by simp⟩
  have haccessors : ∀ line ∈ plan.accessorLines types, opens line = false := by
    simp only [accessorLines, List.forall_mem_flatMap, List.forall_mem_cons]
    intro slot _
    have hmark : (indented 1 ('@' :: types.jvmStatic))[2]? = some '@' := rfl
    refine ⟨h.silent _ silent_nil, h.silent _ ?_, h.accessor_line types slot, by simp⟩
    exact Silent.of_plain (by rw [hmark]; decide) (by rw [hmark]; decide)
  have hfront : ∀ line ∈ plan.openingLines types ++ plan.variableLines types ++
      plan.accessorLines types ++ [[]], opens line = false := by
    simp only [List.forall_mem_append, List.forall_mem_singleton]
    exact ⟨⟨⟨fun _ hl => h.silent _ (silent_openingLines hl), hvariables⟩, haccessors⟩,
      h.silent _ silent_nil⟩
  have hsplit : plan.slotLines types ++ more =
      (plan.openingLines types ++ plan.variableLines types ++ plan.accessorLines types ++ [[]]) ++
        "  fun reset() \x7b".toList :: (plan.resetBody types ++ "  \x7d".toList :: more) := by
    have hreset : indented 1 "fun reset() \x7b".toList = "  fun reset() \x7b".toList := by decide
    simp only [slotLines, indented_close, hreset, List.append_assoc, List.cons_append, List.nil_append]
  rw [hsplit, routines_append hfront, routines_of_body (fun _ => inner_resetBody) h.silent]

theorem routines_bindingLines (h : Opens opens) (parent : ParentBinding) :
    routines opens (plan.bindingLines parent types names ++ more) =
      (if opens (bindingHead parent) then [plan.bindingBody types names] else []) ++
        routines opens more := by
  have hsplit : plan.bindingLines parent types names ++ more =
      [[]] ++ bindingHead parent :: (plan.bindingBody types names ++ "  \x7d".toList :: more) := by
    simp only [bindingLines, indented_close, List.append_assoc, List.cons_append, List.nil_append]
  rw [hsplit, routines_append (by simpa using h.silent _ silent_nil),
    routines_of_body (fun _ => inner_bindingBody) h.silent]

theorem routines_sourceLines (h : Opens opens) :
    routines opens plan.sourceLines =
      (if opens "  fun reset() \x7b".toList then [plan.resetBody plan.typeTexts] else []) ++
        plan.parent.toList.flatMap fun parent =>
          if opens (bindingHead parent) then
            [plan.bindingBody plan.typeTexts (plan.bindingTexts parent)]
          else [] := by
  have hend : routines opens [indented 0 "\x7d".toList, []] = [] := by
    rw [← List.append_nil [indented 0 "\x7d".toList, []], routines_append ?_]
    · rfl
    · simp only [List.forall_mem_cons]
      exact ⟨h.silent _ (Silent.of_plain (by decide) (by decide)), h.silent _ silent_nil, by simp⟩
  have hhead : ∀ line ∈ Kotlin.File.headLines plan.moduleImports, opens line = false :=
    fun line hl => h.silent line (silent_headLines hl)
  simp only [sourceLines, moduleLines, List.append_assoc, List.cons_append, List.nil_append]
  rw [routines_append hhead, routines_slotLines h]
  cases plan.parent with
  | none => simp only [Option.toList_none, List.flatMap_nil, List.nil_append, hend]
  | some parent =>
    simp only [Option.toList_some, List.flatMap_singleton, routines_bindingLines h, hend,
      List.append_nil]

end Routines

/-! What routines assign to -/

theorem assigned?_append (hname : ' ' ∉ name) (hrest : " = ".toList <+: rest) :
    assigned? owner ("    ".toList ++ owner ++ (name ++ rest)) = some (unescape name) := by
  have hhead : rest.head? = some ' ' := by
    obtain ⟨more, rfl⟩ := hrest
    rfl
  have hsign : " = ".toList.isPrefixOf rest = true := List.isPrefixOf_iff_prefix.2 hrest
  rw [assigned?, field?_append hname hhead]
  simp only [Option.bind_eq_bind, Option.bind_some, hsign, if_true]
  rfl

/-- A line that goes on with another word than that of the owner assigns to none of its
variables. -/
theorem assigned?_of_word (howner : ' ' ∉ owner)
    (hword : '.' ∉ rest.takeWhile (· != ' ')) :
    assigned? (owner ++ ['.']) ("    ".toList ++ rest) = none := by
  have hhead : ¬ "    ".toList ++ (owner ++ ['.']) <+: "    ".toList ++ rest := by
    rw [List.prefix_append_right_inj]
    rintro ⟨more, rfl⟩
    have hpass : ∀ c ∈ owner ++ ['.'], (c != ' ') = true := by
      intro c hc
      rcases List.mem_append.1 hc with hc | hc
      · exact bne_iff_ne.2 fun heq => howner (heq ▸ hc)
      · rw [List.mem_singleton.1 hc]
        decide
    rw [List.takeWhile_append_of_pos hpass] at hword
    simp at hword
  rw [assigned?, field?_eq_none hhead]
  rfl

theorem assigned?_reset (h : Token.isIdentifier slot.rule = true) :
    assigned? [] (indented 2 (slotReset slot)) = some slot.rule := by
  have hblank : ' ' ∉ escape slot.rule := not_mem_escape h (by decide) (by decide)
  rw [reset_line, ← List.append_nil "    ".toList, assigned?_append hblank (by decide),
    unescape_escape h]

theorem assigned_resetBody (h : ∀ slot ∈ plan.slots, Token.isIdentifier slot.rule = true) :
    (plan.resetBody types).filterMap (assigned? []) = hookName :: plan.slotNames := by
  have hhook : assigned? [] (indented 2 (hookName ++ " = ".toList ++ defaultHook types)) =
      some hookName := by
    have hline : indented 2 (hookName ++ " = ".toList ++ defaultHook types) =
        "    ".toList ++ [] ++ (hookName ++ (" = ".toList ++ defaultHook types)) := by
      rw [List.append_assoc, List.append_nil]
      exact indented_of_ne_nil (List.append_ne_nil_of_left_ne_nil (by decide) _) 2
    rw [hline, assigned?_append (by decide) (List.prefix_append _ _)]
    decide
  rw [resetBody, List.filterMap_cons_some hhook, List.filterMap_map, slotNames,
    ← List.filterMap_eq_map]
  congr 1
  exact List.filterMap_congr fun slot hslot => assigned?_reset (h slot hslot)

theorem assigned?_binding (h : Token.isIdentifier slot.rule = true) :
    assigned? (names.parentModule ++ ['.']) (indented 2 (slotBinding types names slot)) =
      some slot.rule := by
  have hblank : ' ' ∉ escape slot.rule := not_mem_escape h (by decide) (by decide)
  rw [binding_line, List.append_assoc "    ".toList, assigned?_append hblank, unescape_escape h]
  simp only [List.append_assoc]
  exact List.prefix_append _ _

/-- Of the lines behind those of the slots, the one that sets the hook is the only one that assigns
to a variable of the parent. -/
theorem assigned_hookLines (howner : ' ' ∉ names.parentModule) :
    (hookLines names).filterMap (assigned? (names.parentModule ++ ['.'])) = [hookName] := by
  have hset : assigned? (names.parentModule ++ ['.'])
      (indented 2 (names.parentModule ++ '.' :: hookName ++ " = \x7b".toList)) = some hookName := by
    have hline : indented 2 (names.parentModule ++ '.' :: hookName ++ " = \x7b".toList) =
        "    ".toList ++ (names.parentModule ++ ['.']) ++ (hookName ++ " = \x7b".toList) := by
      rw [indented_of_ne_nil (List.append_ne_nil_of_right_ne_nil _ (by decide))]
      simp only [List.append_assoc, List.cons_append, List.nil_append]
      rfl
    rw [hline, assigned?_append (by decide) (by decide)]
    decide
  have hother : ∀ rest : Text, '.' ∉ rest.takeWhile (· != ' ') →
      assigned? (names.parentModule ++ ['.']) ("    ".toList ++ rest) = none :=
    fun rest => assigned?_of_word howner
  have hval : assigned? (names.parentModule ++ ['.']) (indented 2
      ("val currentCreateElement = ".toList ++ names.parentModule ++ '.' :: hookName)) = none :=
    hother ("val currentCreateElement = ".toList ++ names.parentModule ++ '.' :: hookName)
      (by simp)
  have hcall : assigned? (names.parentModule ++ ['.'])
      (indented 4 (names.ownModule ++ '.' :: hookName ++ "(it)".toList)) = none := by
    rw [indented_of_ne_nil (List.append_ne_nil_of_right_ne_nil _ (by decide))]
    exact hother ("    ".toList ++ (names.ownModule ++ '.' :: hookName ++ "(it)".toList))
      (by simp)
  have hcatch : assigned? (names.parentModule ++ ['.'])
      (indented 3 ("\x7d catch (e: ".toList ++ names.noMatch ++ ") \x7b".toList)) = none :=
    hother ("  ".toList ++ ("\x7d catch (e: ".toList ++ names.noMatch ++ ") \x7b".toList))
      (by simp)
  have htry : assigned? (names.parentModule ++ ['.']) (indented 3 "try \x7b".toList) = none :=
    hother "  try \x7b".toList (by decide)
  have hpass : assigned? (names.parentModule ++ ['.'])
      (indented 4 "currentCreateElement(it)".toList) = none :=
    hother "    currentCreateElement(it)".toList (by decide)
  have hclose : assigned? (names.parentModule ++ ['.']) (indented 3 "\x7d".toList) = none :=
    hother "  \x7d".toList (by decide)
  have hend : assigned? (names.parentModule ++ ['.']) (indented 2 "\x7d".toList) = none :=
    hother "\x7d".toList (by decide)
  rw [hookLines, List.filterMap_cons_none hval, List.filterMap_cons_some hset,
    List.filterMap_cons_none htry, List.filterMap_cons_none hcall, List.filterMap_cons_none hcatch,
    List.filterMap_cons_none hpass, List.filterMap_cons_none hclose, List.filterMap_cons_none hend,
    List.filterMap_nil]

theorem assigned_bindingBody (howner : ' ' ∉ names.parentModule)
    (h : ∀ slot ∈ plan.boundSlots, Token.isIdentifier slot.rule = true) :
    (plan.bindingBody types names).filterMap (assigned? (names.parentModule ++ ['.'])) =
      plan.boundSlots.map SlotPlan.rule ++ [hookName] := by
  rw [bindingBody, List.filterMap_append, assigned_hookLines howner, List.filterMap_map,
    ← List.filterMap_eq_map]
  congr 1
  exact List.filterMap_congr fun slot hslot => assigned?_binding (h slot hslot)

/-- The reset routine assigns to the variables that are declared, each in its turn. -/
theorem assigned_reset (h : ∀ slot ∈ plan.slots, Token.isIdentifier slot.rule = true) :
    assigned opensReset [] plan.sourceLines = [hookName :: plan.slotNames] := by
  have hreset : opensReset "  fun reset() \x7b".toList = true := by decide
  have hbinding : (plan.parent.toList.flatMap fun parent =>
      if opensReset (bindingHead parent) = true then
        [plan.bindingBody plan.typeTexts (plan.bindingTexts parent)]
      else []) = [] := by
    simp [opensReset_bindingHead]
  rw [assigned, routines_sourceLines opens_opensReset, hreset, hbinding]
  simp [assigned_resetBody h]

/-- The binding routine assigns to the variables of the parent that have the names of the bound
slots, and to its hook. -/
theorem assigned_binding {parent : ParentBinding} (hparent : plan.parent = some parent)
    (howner : ' ' ∉ (plan.bindingTexts parent).parentModule)
    (h : ∀ slot ∈ plan.slots, Token.isIdentifier slot.rule = true) :
    assigned opensBinding ((plan.bindingTexts parent).parentModule ++ ['.']) plan.sourceLines =
      [plan.boundSlots.map SlotPlan.rule ++ [hookName]] := by
  have hreset : opensBinding "  fun reset() \x7b".toList = false := by decide
  have hbound : ∀ slot ∈ plan.boundSlots, Token.isIdentifier slot.rule = true :=
    fun slot hslot => h slot (mem_slots_of_mem_boundSlots hslot)
  rw [assigned, routines_sourceLines opens_opensBinding, hreset, hparent]
  simp [opensBinding_bindingHead, assigned_bindingBody howner hbound]

end ModuleText

namespace Naming

theorem newline_not_mem_titleCase {name : Text} (h : '\n' ∉ name) : '\n' ∉ titleCase name := by
  cases name with
  | nil => simp [titleCase]
  | cons c cs =>
    rw [List.mem_cons, not_or] at h
    rw [titleCase, List.mem_append, not_or]
    exact ⟨fun hm => h.1 (Text.eq_of_mem_uppercase (by decide) (by decide) hm).symm, h.2⟩

end Naming

namespace Composition

open ModuleText
open Plan (hookName)

structure OneLine (config : Config) (names : GrammarNames) : Prop where
  baseClass : '\n' ∉ config.defaultBaseClass
  suffix : '\n' ∉ config.accessorSuffix
  package : '\n' ∉ names.package
  stem : '\n' ∉ names.stem

section Engine

variable {engine : PatternEngine} {config : Config} {names : GrammarNames} {text : Text}
  {path : Option Text} {source : Source} {directives : Directives} {comp : Composition}
  {parent : ParentBinding}

/-- The classes that a header names have the characters of classes, so that a character that is in
no class is only in a default. -/
theorem avoids_of_read {header : Option Text} {default : Text} {d : Char}
    (hread : Directives.read header default = .ok directives) (hdot : d ≠ '.')
    (hclass : (Directives.isClassChar d || d == '$') = false) (hdefault : d ∉ default) :
    directives.baseClass.Avoids d ∧
      ∀ parent, directives.overrides = some parent → parent.Avoids d := by
  obtain ⟨patterns, -, rfl⟩ := Directives.read_eq_ok_iff.1 hread
  constructor
  · refine ClassName.Avoids.ofDotted ?_ hdot
    cases hbase : Directives.declaredBase (header.getD []) with
    | none => exact hdefault
    | some name =>
      intro hmem
      rw [Directives.isClassChar_of_mem_declaredBase hbase d hmem] at hclass
      cases hclass
  · intro parent hparent
    obtain ⟨name, hname, rfl⟩ := Option.map_eq_some_iff.1 hparent
    refine ClassName.Avoids.ofDotted (fun hmem => ?_) hdot
    rw [Directives.isClassChar_of_mem_overridden hname d hmem] at hclass
    cases hclass

section Succeeded

variable (hscan : Source.scan text path = .ok source)
  (hread : Directives.read source.header config.defaultBaseClass = .ok directives)
  (h : compose config names text path = .ok comp)
include hscan hread h

theorem isIdentifier_of_mem_slots
    (hident : ∀ rule ∈ source.rules.rules, Token.isIdentifier rule.bareName = true) :
    ∀ slot ∈ comp.plan.slots, Token.isIdentifier slot.rule = true := by
  intro slot hslot
  obtain ⟨rule, hrule, -, rfl⟩ := (mem_slots_of_compose hscan hread h).1 hslot
  exact hident rule hrule

theorem oneLine_plan_of_compose
    (hident : ∀ rule ∈ source.rules.rules, Token.isIdentifier rule.bareName = true)
    (hline : OneLine config names) : comp.plan.OneLine := by
  obtain ⟨hbase, hparent⟩ := avoids_of_read hread (d := '\n') (by decide) (by decide) hline.baseClass
  have htitle : '\n' ∉ names.title := Naming.newline_not_mem_titleCase hline.stem
  have hpsi : '\n' ∉ names.psiPackage := by
    unfold GrammarNames.psiPackage GrammarNames.qualify
    split
    · decide
    · simp [hline.package]
  have htop : ∀ package suffix : Text, '\n' ∉ package → '\n' ∉ suffix →
      (ClassName.topLevelOf package (names.title ++ suffix)).OneLine := by
    intro package suffix hpackage hsuffix
    exact ⟨hpackage, by simp [ClassName.topLevelOf, htitle, hsuffix]⟩
  have hslots : ∀ slot ∈ comp.plan.slots, '\n' ∉ slot.accessor ∧ '\n' ∉ slot.realEntry := by
    intro slot hslot
    obtain ⟨rule, hrule, -, rfl⟩ := (mem_slots_of_compose hscan hread h).1 hslot
    have hbare : '\n' ∉ rule.bareName := fun hmem =>
      absurd (Token.isIdentPart_of_mem (hident rule hrule) hmem) (by decide)
    have hreal : '\n' ∉ Naming.realSuffix := by decide
    constructor
    · simp [slotOf, SlotPlan.of, Naming.accessor, Naming.newline_not_mem_camelCase hbare, hline.suffix]
    · simp [slotOf, SlotPlan.of, Naming.realName, hbare, hreal]
  obtain ⟨-, accessors, -, rfl⟩ := compose_eq_ok hscan hread h
  refine ⟨htop _ _ hline.package (by decide), hbase, htop _ _ hline.package (by decide),
    htop _ _ hpsi (by decide), fun slot hslot => (hslots slot hslot).1,
    fun slot hslot => (hslots slot hslot).2, ?_⟩
  intro parent hmem
  obtain ⟨parser, hparser, rfl⟩ := Option.map_eq_some_iff.1 hmem
  exact ⟨hparent parser hparser, (hparent parser hparser).withSuffix (by decide)⟩

theorem moduleSource_of_compose : comp.moduleSource = comp.plan.render := by
  obtain ⟨-, accessors, -, rfl⟩ := compose_eq_ok hscan hread h
  simp only [assemble]

theorem splitOn_moduleSource
    (hident : ∀ rule ∈ source.rules.rules, Token.isIdentifier rule.bareName = true)
    (hline : OneLine config names) : comp.moduleSource.splitOn '\n' = comp.plan.sourceLines := by
  rw [moduleSource_of_compose hscan hread h]
  exact Plan.splitOn_render (oneLine_plan_of_compose hscan hread h hident hline)
    (isIdentifier_of_mem_slots hscan hread h hident)

theorem blank_not_mem_parentModule (hparent : comp.plan.parent = some parent) :
    ' ' ∉ (comp.plan.bindingTexts parent).parentModule := by
  obtain ⟨parser, hoverrides, rfl⟩ : ∃ parser, directives.overrides = some parser ∧
      ParentBinding.of parser = parent := by
    obtain ⟨-, accessors, -, rfl⟩ := compose_eq_ok hscan hread h
    exact Option.map_eq_some_iff.1 hparent
  obtain ⟨name, hname, rfl⟩ : ∃ name, Directives.overridden (source.header.getD []) = some name ∧
      ClassName.ofDotted name = parser := by
    obtain ⟨patterns, -, rfl⟩ := Directives.read_eq_ok_iff.1 hread
    exact Option.map_eq_some_iff.1 hoverrides
  have hblank : ' ' ∉ name := fun hmem =>
    absurd (Directives.isClassChar_of_mem_overridden hname _ hmem) (by decide)
  rw [Plan.text_parentModule]
  exact Kotlin.Imports.not_mem_written
    ((ClassName.Avoids.ofDotted hblank (by decide)).withSuffix (by decide)) (by decide)

/-- The dispatch module introduces the hook and then a variable for each slot. Its reset routine
assigns to exactly these, and its binding routine to those of the parent that have the names of
the bound slots and to the hook of the parent. All of these names are different exactly if no rule
with a slot has the name of the hook. -/
theorem variables_of_compose
    (hident : ∀ rule ∈ source.rules.rules, Token.isIdentifier rule.bareName = true) :
    (comp.moduleSource = Text.join ['\n'] comp.plan.sourceLines ∧
      (OneLine config names → comp.moduleSource.splitOn '\n' = comp.plan.sourceLines)) ∧
    introduced comp.plan.sourceLines = hookName :: comp.plan.slotNames ∧
    assigned opensReset [] comp.plan.sourceLines = [introduced comp.plan.sourceLines] ∧
    (∀ parent, comp.plan.parent = some parent →
      assigned opensBinding ((comp.plan.bindingTexts parent).parentModule ++ ['.'])
        comp.plan.sourceLines = [comp.plan.boundSlots.map SlotPlan.rule ++ [hookName]]) ∧
    ((introduced comp.plan.sourceLines).Nodup ↔
      ∀ rule ∈ source.rules.rules, Classification.kindOf directives rule = .extendable →
        rule.bareName ≠ hookName) ∧
    ((introduced comp.plan.sourceLines).Nodup →
      (comp.plan.boundSlots.map SlotPlan.rule ++ [hookName]).Nodup) := by
  have hslots := isIdentifier_of_mem_slots hscan hread h hident
  have hdistinct := nodup_slotNames_of_compose hscan hread h
  have hnodup : (introduced comp.plan.sourceLines).Nodup ↔ hookName ∉ comp.plan.slotNames := by
    rw [introduced_sourceLines hslots, List.nodup_cons, and_iff_left hdistinct]
  have hbound : (comp.plan.boundSlots.map SlotPlan.rule).Sublist comp.plan.slotNames := by
    unfold Plan.boundSlots Plan.slotNames
    split
    · exact List.filter_sublist.map _
    · exact List.nil_sublist _
  refine ⟨⟨?_, splitOn_moduleSource hscan hread h hident⟩, introduced_sourceLines hslots, ?_, ?_, ?_,
    ?_⟩
  · rw [moduleSource_of_compose hscan hread h, Plan.render_eq_join]
  · rw [assigned_reset hslots, introduced_sourceLines hslots]
  · intro parent hparent
    exact assigned_binding hparent (blank_not_mem_parentModule hscan hread h hparent) hslots
  · rw [hnodup]
    constructor
    · intro hfree rule hrule hkind he
      refine hfree (List.mem_map.2 ⟨_, (mem_slots_of_compose hscan hread h).2
        ⟨rule, hrule, hkind, rfl⟩, he⟩)
    · intro hfree hmem
      obtain ⟨slot, hslot, he⟩ := List.mem_map.1 hmem
      obtain ⟨rule, hrule, hkind, rfl⟩ := (mem_slots_of_compose hscan hread h).1 hslot
      exact hfree rule hrule hkind he
  · intro hfree
    rw [hnodup] at hfree
    rw [List.nodup_append]
    refine ⟨hdistinct.sublist hbound, by simp, ?_⟩
    intro name hname other hother he
    rw [List.mem_singleton.1 hother] at he
    exact hfree (he ▸ hbound.subset hname)

end Succeeded
end Engine

def boundText : Text :=
  "\x7b overrides=\"p.Top\" \x7d\nval ::= item 'x' \x7b override=true \x7d\nitem ::= val\n".toList

theorem variables_of_compose_bound :
    ∃ source directives comp,
      Source.scan boundText none = .ok source ∧
      Directives.read source.header ({} : Config).defaultBaseClass = .ok directives ∧
      compose {} sampleNames boundText none = .ok comp ∧
      (∀ rule ∈ source.rules.rules, Token.isIdentifier rule.bareName = true) ∧
      introduced (comp.moduleSource.splitOn '\n') =
        ["createElement".toList, "val".toList, "item".toList] ∧
      assigned opensReset [] (comp.moduleSource.splitOn '\n') =
        [["createElement".toList, "val".toList, "item".toList]] ∧
      assigned opensBinding "TopUtil.".toList (comp.moduleSource.splitOn '\n') =
        [["val".toList, "createElement".toList]] := by
  have hok : (compose {} sampleNames boundText none).isOk = true := by decide +kernel
  obtain ⟨source, directives, comp, hscan, hread, h⟩ := exists_stages_of_isOk hok
  have hrules : (Source.scan boundText none).toOption.all (fun s => decide
      (∀ rule ∈ s.rules.rules, Token.isIdentifier rule.bareName = true)) = true := by
    decide +kernel
  rw [hscan] at hrules
  have hident := of_decide_eq_true hrules
  have hplan : (compose {} sampleNames boundText none).toOption.all (fun c => decide
      (c.plan.slotNames = ["val".toList, "item".toList] ∧
        c.plan.boundSlots.map SlotPlan.rule = ["val".toList] ∧
        c.plan.parent = some (.of ⟨"p".toList, ["Top".toList]⟩) ∧
        (c.plan.bindingTexts (.of ⟨"p".toList, ["Top".toList]⟩)).parentModule = "TopUtil".toList)) =
      true := by
    decide +kernel
  rw [h] at hplan
  obtain ⟨hnames, hbound, hparent, hmodule⟩ := of_decide_eq_true hplan
  obtain ⟨⟨-, hlines⟩, hintroduced, hreset, hbinding, -⟩ := variables_of_compose hscan hread h hident
  have hbinding := hbinding _ hparent
  rw [hmodule, hbound] at hbinding
  rw [hintroduced, hnames] at hreset
  rw [hnames] at hintroduced
  refine ⟨source, directives, comp, hscan, hread, h, hident, ?_⟩
  rw [hlines ⟨by decide, by decide, by decide, by decide⟩]
  exact ⟨hintroduced, hreset, hbinding⟩

def hookText : Text := "createElement ::= 'x'\n".toList

/-- The module of a grammar with a rule that is named as the hook introduces one name twice. -/
theorem introduced_twice_hook :
    ∃ source comp,
      Source.scan hookText none = .ok source ∧ compose {} sampleNames hookText none = .ok comp ∧
      (∀ rule ∈ source.rules.rules, Token.isIdentifier rule.bareName = true) ∧
      introduced (comp.moduleSource.splitOn '\n') =
        ["createElement".toList, "createElement".toList] ∧
      ¬ (introduced (comp.moduleSource.splitOn '\n')).Nodup := by
  have hok : (compose {} sampleNames hookText none).isOk = true := by decide +kernel
  obtain ⟨source, directives, comp, hscan, hread, h⟩ := exists_stages_of_isOk hok
  have hrules : (Source.scan hookText none).toOption.all (fun s => decide
      (∀ rule ∈ s.rules.rules, Token.isIdentifier rule.bareName = true)) = true := by
    decide +kernel
  have hnames : (compose {} sampleNames hookText none).toOption.all (fun c => decide
      (c.plan.slotNames = ["createElement".toList])) = true := by
    decide +kernel
  rw [hscan] at hrules
  rw [h] at hnames
  have hident := of_decide_eq_true hrules
  have hintroduced : introduced (comp.moduleSource.splitOn '\n') =
      ["createElement".toList, "createElement".toList] := by
    rw [splitOn_moduleSource hscan hread h hident ⟨by decide, by decide, by decide, by decide⟩,
      introduced_sourceLines (isIdentifier_of_mem_slots hscan hread h hident), of_decide_eq_true hnames]
    rfl
  refine ⟨source, comp, hscan, h, hident, hintroduced, ?_⟩
  rw [hintroduced]
  decide

end Composition
end OpenGrammar
