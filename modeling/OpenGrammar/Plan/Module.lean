import OpenGrammar.Kotlin.File
import OpenGrammar.Plan.Basic

/-! The Kotlin source of a dispatch module. -/
namespace OpenGrammar
namespace Plan

open Kotlin (escape File)

/-- How the types of a module are written in its file. -/
structure TypeNames where
  parser : Text
  builder : Text
  node : Text
  element : Text
  jvmStatic : Text
  base : Text
  holder : Text

/-- How the classes that a binding routine uses are written. -/
structure BindingNames where
  parentModule : Text
  ownModule : Text
  ownParser : Text
  noMatch : Text

def dotted (name : String) : ClassName := ClassName.ofDotted name.toList

def typeNames (plan : Plan) : StateM File TypeNames := do
  return {
    parser := ← File.reference (dotted "com.intellij.lang.parser.GeneratedParserUtilBase.Parser")
    builder := ← File.reference (dotted "com.intellij.lang.PsiBuilder")
    node := ← File.reference (dotted "com.intellij.lang.ASTNode")
    element := ← File.reference (dotted "com.intellij.psi.PsiElement")
    jvmStatic := ← File.reference (dotted "kotlin.jvm.JvmStatic")
    base := ← File.reference plan.baseClass
    holder := ← File.reference plan.elementHolder }

def bindingNames (plan : Plan) (parent : ParentBinding) : StateM File BindingNames := do
  return {
    parentModule := ← File.reference parent.module
    ownModule := ← File.reference plan.module
    ownParser := ← File.reference plan.parserClass
    noMatch := ← File.reference (dotted "kotlin.AssertionError") }

def hookName : Text := "createElement".toList

/-- The element constructor of a module that nothing has replaced. -/
def defaultHook (types : TypeNames) : Text :=
  "\x7b ".toList ++ types.holder ++ ".Factory.createElement(it) \x7d".toList

def slotVariable (types : TypeNames) (slot : SlotPlan) : Text :=
  "var ".toList ++ escape slot.rule ++ ": ".toList ++ types.parser ++ "? = null".toList

def slotAccessor (types : TypeNames) (slot : SlotPlan) : Text :=
  "fun ".toList ++ slot.accessor ++ "(builder: ".toList ++ types.builder ++
    ", level: Int, fallback: ".toList ++ types.parser ++ "): Boolean = (this.".toList ++
    escape slot.rule ++ " ?: fallback).parse(builder, level)".toList

def slotReset (slot : SlotPlan) : Text := escape slot.rule ++ " = null".toList

def slotBinding (types : TypeNames) (names : BindingNames) (slot : SlotPlan) : Text :=
  let rule := escape slot.rule
  names.parentModule ++ '.' :: rule ++ " = ".toList ++ types.parser ++
    " \x7b builder, level -> ".toList ++ names.ownModule ++ '.' :: rule ++
    "?.parse(builder, level) ?: ".toList ++ names.ownParser ++ '.' :: slot.realEntry ++
    "(builder, level) \x7d".toList

def writeBinding (plan : Plan) (parent : ParentBinding) (types : TypeNames) (names : BindingNames)
    (file : File) : File :=
  file.blank
    |>.enter ("fun ".toList ++ parent.methodName ++ "() \x7b".toList)
    |>.writeAll (plan.boundSlots.map (slotBinding types names))
    |>.line ("val currentCreateElement = ".toList ++ names.parentModule ++ '.' :: hookName)
    |>.enter (names.parentModule ++ '.' :: hookName ++ " = \x7b".toList)
    |>.enter "try \x7b".toList
    |>.line (names.ownModule ++ '.' :: hookName ++ "(it)".toList)
    |>.between ("\x7d catch (e: ".toList ++ names.noMatch ++ ") \x7b".toList)
    |>.line "currentCreateElement(it)".toList
    |>.leave "\x7d".toList
    |>.leave "\x7d".toList
    |>.leave "\x7d".toList

/-- Writes the object up to and with its reset routine. -/
def writeSlots (plan : Plan) (types : TypeNames) (file : File) : File :=
  file.enter ("object ".toList ++ plan.module.simpleName ++ " : ".toList ++ types.base ++
      "() \x7b".toList)
    |>.line ("var ".toList ++ hookName ++ ": (".toList ++ types.node ++ ") -> ".toList ++
      types.element ++ " = ".toList ++ defaultHook types)
    |>.writeAll (plan.slots.flatMap fun slot => [[], slotVariable types slot])
    |>.writeAll (plan.slots.flatMap fun slot =>
      [[], '@' :: types.jvmStatic, slotAccessor types slot])
    |>.blank
    |>.enter "fun reset() \x7b".toList
    |>.line (hookName ++ " = ".toList ++ defaultHook types)
    |>.writeAll (plan.slots.map slotReset)
    |>.leave "\x7d".toList

def render (plan : Plan) : Text :=
  let file := (File.start plan.module.package).declare plan.module.simpleName
  let (types, file) := (typeNames plan).run file
  match plan.parent with
  | none => ((writeSlots plan types file).leave "\x7d".toList).render
  | some parent =>
    let (names, file) := (bindingNames plan parent).run file
    ((writeBinding plan parent types names (writeSlots plan types file)).leave "\x7d".toList).render

end Plan
end OpenGrammar
