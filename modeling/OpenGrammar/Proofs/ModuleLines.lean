import OpenGrammar.Plan.Module

/-! The lines of a dispatch module. How its classes are written is settled before the first line,
so that the lines follow from the plan and from these texts. -/
namespace OpenGrammar
namespace Kotlin
namespace File

def unlines (lines : List Text) : Text := lines.flatMap (· ++ ['\n'])

def headLines (imports : Imports) : List Text :=
  (if imports.package.isEmpty then [] else ["package ".toList ++ imports.package, []]) ++
    (if imports.sorted.isEmpty then [] else imports.sorted.map ("import ".toList ++ ·) ++ [[]])

variable (imports : Imports) (lines : List Text) (depth : Nat) (text : Text)

theorem line_mk : line ⟨imports, lines, depth⟩ text =
    ⟨imports, lines ++ [indented depth text], depth⟩ := rfl

theorem blank_mk : blank ⟨imports, lines, depth⟩ = ⟨imports, lines ++ [[]], depth⟩ := rfl

theorem enter_mk : enter ⟨imports, lines, depth⟩ text =
    ⟨imports, lines ++ [indented depth text], depth + 1⟩ := rfl

theorem leave_mk : leave ⟨imports, lines, depth + 1⟩ text =
    ⟨imports, lines ++ [indented depth text], depth⟩ := rfl

theorem between_mk : between ⟨imports, lines, depth + 1⟩ text =
    ⟨imports, lines ++ [indented depth text], depth + 1⟩ := rfl

theorem writeAll_mk (texts : List Text) : writeAll ⟨imports, lines, depth⟩ texts =
    ⟨imports, lines ++ texts.map (indented depth), depth⟩ := by
  induction texts generalizing lines with
  | nil => simp [writeAll]
  | cons text texts ih =>
    rw [writeAll, List.foldl_cons, ← writeAll, line_mk, ih]
    simp

theorem unlines_append (lines more : List Text) :
    unlines (lines ++ more) = unlines lines ++ unlines more := List.flatMap_append

theorem unlines_eq_join (lines : List Text) :
    unlines lines = Text.join ['\n'] (lines ++ [[]]) := by
  induction lines with
  | nil => rfl
  | cons line lines ih =>
    rw [Text.join, List.cons_append, List.intercalate_cons_of_ne_nil (by simp), ← Text.join, ← ih]
    simp [unlines]

/-- Lines can be told from their text. -/
theorem splitOn_unlines {lines : List Text} (h : ∀ line ∈ lines, '\n' ∉ line) :
    (unlines lines).splitOn '\n' = lines ++ [[]] := by
  rw [unlines_eq_join, Text.join]
  refine List.splitOn_intercalate '\n' ?_ (by simp)
  rw [List.forall_mem_append]
  exact ⟨h, by simp⟩

theorem render_mk : render ⟨imports, lines, depth⟩ = unlines (headLines imports ++ lines) := by
  have hpackage : unlines (if imports.package.isEmpty then []
      else ["package ".toList ++ imports.package, []]) =
        if imports.package.isEmpty then []
        else "package ".toList ++ imports.package ++ "\n\n".toList := by
    split <;> simp [unlines]
  have himports : ∀ sorted : List Text, unlines (if sorted.isEmpty then []
      else sorted.map ("import ".toList ++ ·) ++ [[]]) =
        if (sorted.flatMap fun i => "import ".toList ++ i ++ ['\n']).isEmpty then []
        else (sorted.flatMap fun i => "import ".toList ++ i ++ ['\n']) ++ ['\n'] := by
    intro sorted
    cases sorted with
    | nil => rfl
    | cons first rest => simp [unlines, List.flatMap_map]
  rw [headLines, unlines_append, unlines_append, hpackage, himports]
  rfl

end File
end Kotlin

namespace Plan

open Kotlin (File Imports escape)
open Kotlin.File (indented)

/-- The file of a module before anything is written. -/
def opening (plan : Plan) : File := (File.start plan.module.package).declare plan.module.simpleName

def typeTexts (plan : Plan) : TypeNames := ((typeNames plan).run plan.opening).1

/-- The file of a module when its types are known. -/
def typed (plan : Plan) : File := ((typeNames plan).run plan.opening).2

def bindingTexts (plan : Plan) (parent : ParentBinding) : BindingNames :=
  ((bindingNames plan parent).run plan.typed).1

/-- The file of a module when the classes of its binding routine are known. -/
def bound (plan : Plan) (parent : ParentBinding) : File := ((bindingNames plan parent).run plan.typed).2

def moduleImports (plan : Plan) : Imports :=
  match plan.parent with
  | none => plan.typed.imports
  | some parent => (plan.bound parent).imports

def openingLines (plan : Plan) (types : TypeNames) : List Text :=
  [indented 0 ("object ".toList ++ plan.module.simpleName ++ " : ".toList ++ types.base ++
      "() \x7b".toList),
    indented 1 ("var ".toList ++ hookName ++ ": (".toList ++ types.node ++ ") -> ".toList ++
      types.element ++ " = ".toList ++ defaultHook types)]

def variableLines (plan : Plan) (types : TypeNames) : List Text :=
  plan.slots.flatMap fun slot => [[], indented 1 (slotVariable types slot)]

def accessorLines (plan : Plan) (types : TypeNames) : List Text :=
  plan.slots.flatMap fun slot =>
    [[], indented 1 ('@' :: types.jvmStatic), indented 1 (slotAccessor types slot)]

def resetBody (plan : Plan) (types : TypeNames) : List Text :=
  indented 2 (hookName ++ " = ".toList ++ defaultHook types) ::
    plan.slots.map fun slot => indented 2 (slotReset slot)

def slotLines (plan : Plan) (types : TypeNames) : List Text :=
  plan.openingLines types ++ plan.variableLines types ++ plan.accessorLines types ++
    [[], indented 1 "fun reset() \x7b".toList] ++ plan.resetBody types ++
    [indented 1 "\x7d".toList]

def hookLines (names : BindingNames) : List Text :=
  [indented 2 ("val currentCreateElement = ".toList ++ names.parentModule ++ '.' :: hookName),
    indented 2 (names.parentModule ++ '.' :: hookName ++ " = \x7b".toList),
    indented 3 "try \x7b".toList,
    indented 4 (names.ownModule ++ '.' :: hookName ++ "(it)".toList),
    indented 3 ("\x7d catch (e: ".toList ++ names.noMatch ++ ") \x7b".toList),
    indented 4 "currentCreateElement(it)".toList,
    indented 3 "\x7d".toList, indented 2 "\x7d".toList]

def bindingBody (plan : Plan) (types : TypeNames) (names : BindingNames) : List Text :=
  (plan.boundSlots.map fun slot => indented 2 (slotBinding types names slot)) ++ hookLines names

def bindingHead (parent : ParentBinding) : Text :=
  indented 1 ("fun ".toList ++ parent.methodName ++ "() \x7b".toList)

def bindingLines (plan : Plan) (parent : ParentBinding) (types : TypeNames) (names : BindingNames) :
    List Text :=
  [[], bindingHead parent] ++ plan.bindingBody types names ++ [indented 1 "\x7d".toList]

def moduleLines (plan : Plan) : List Text :=
  plan.slotLines plan.typeTexts ++
    (plan.parent.toList.flatMap fun parent =>
      plan.bindingLines parent plan.typeTexts (plan.bindingTexts parent)) ++
    [indented 0 "\x7d".toList]

theorem mem_slots_of_mem_boundSlots {plan : Plan} {slot : SlotPlan} (h : slot ∈ plan.boundSlots) :
    slot ∈ plan.slots := by
  unfold boundSlots at h
  split at h
  · exact (List.mem_filter.1 h).1
  · cases h

theorem run_reference_bind {α : Type} (c : ClassName) (next : Text → StateM File α) (file : File) :
    (File.reference c >>= next).run file =
      (next (Imports.reference c file.imports).1).run
        { file with imports := (Imports.reference c file.imports).2 } := rfl

theorem run_pure {α : Type} (a : α) (file : File) : (pure a : StateM File α).run file = (a, file) := rfl

theorem typed_eq (plan : Plan) : plan.typed = ⟨plan.typed.imports, [], 0⟩ := by
  simp only [typed, typeNames, run_reference_bind, run_pure]
  rfl

theorem bound_eq (plan : Plan) (parent : ParentBinding) :
    plan.bound parent = ⟨(plan.bound parent).imports, [], 0⟩ := by
  rw [bound, typed_eq]
  simp only [bindingNames, run_reference_bind, run_pure]

theorem writeSlots_mk (plan : Plan) (types : TypeNames) (imports : Imports) (lines : List Text) :
    writeSlots plan types ⟨imports, lines, 0⟩ = ⟨imports, lines ++ plan.slotLines types, 1⟩ := by
  simp only [writeSlots, slotLines, openingLines, variableLines, accessorLines, resetBody,
    File.enter_mk, File.line_mk, File.writeAll_mk, File.blank_mk, File.leave_mk, List.map_flatMap,
    List.map_cons, List.map_nil, List.map_map, List.append_assoc]
  rfl

theorem writeBinding_mk (plan : Plan) (parent : ParentBinding) (types : TypeNames)
    (names : BindingNames) (imports : Imports) (lines : List Text) :
    writeBinding plan parent types names ⟨imports, lines, 1⟩ =
      ⟨imports, lines ++ plan.bindingLines parent types names, 1⟩ := by
  simp only [writeBinding, bindingLines, bindingHead, bindingBody, hookLines, File.enter_mk, File.line_mk, File.writeAll_mk,
    File.blank_mk, File.leave_mk, File.between_mk, List.map_map, List.append_assoc]
  rfl

/-- The source of a module is its package, its imports and its lines. -/
theorem render_eq (plan : Plan) :
    plan.render = File.unlines (File.headLines plan.moduleImports ++ plan.moduleLines) := by
  have htypes : (typeNames plan).run plan.opening = (plan.typeTexts, plan.typed) := by
    rw [typeTexts, typed, Prod.eta]
  rw [opening] at htypes
  unfold render moduleImports moduleLines
  simp only [htypes]
  cases plan.parent with
  | none =>
    simp only [Option.toList_none, List.flatMap_nil, List.append_nil]
    rw [typed_eq, writeSlots_mk, File.leave_mk, File.render_mk, List.nil_append]
  | some parent =>
    have hnames : (bindingNames plan parent).run plan.typed =
        (plan.bindingTexts parent, plan.bound parent) := by
      rw [bindingTexts, bound, Prod.eta]
    simp only [hnames, Option.toList_some, List.flatMap_singleton]
    rw [bound_eq, writeSlots_mk, writeBinding_mk, File.leave_mk, File.render_mk, List.nil_append]

end Plan
end OpenGrammar
