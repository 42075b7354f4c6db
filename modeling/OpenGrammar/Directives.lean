import OpenGrammar.ClassName
import OpenGrammar.Diagnostics
import OpenGrammar.PatternEngine
import OpenGrammar.Text.Quoted

/-! Directives of a grammar header. Each is looked for on its own and may be missing;
only a subclass directive whose text is no pattern stops the reading. -/
namespace OpenGrammar

variable [PatternEngine]

/-- A directive `extends("pattern")=elementType`. -/
structure SubclassPattern where
  /-- The directive as written. -/
  directive : Text
  pattern : Text
  elementType : Text
  compiled : PatternEngine.Pattern

def SubclassPattern.accepts (p : SubclassPattern) (ruleName : Text) : Bool :=
  PatternEngine.isMatch p.compiled ruleName

structure Directives where
  /-- The class that the generated module extends. -/
  baseClass : ClassName
  /-- Whether the header names that class. -/
  baseClassDeclared : Bool
  /-- The parser class of the grammar that this one overrides. -/
  overrides : Option ClassName
  subclassPatterns : List SubclassPattern
  /-- The entries of the import list in the header. -/
  existingImports : List Text

namespace Directives

/-! Recognisers. Each is given the text from some position on and yields what it
recognises at its start. -/

def upTo (t rest : Text) : Text := t.take (t.length - rest.length)

/-- What follows `key = `, with any blanks around the sign. -/
def afterKey? (key t : Text) : Option Text := do
  let '=' :: rest := Text.trimStart (← key.isPrefixOf? t) | none
  return Text.trimStart rest

def quotedRun? (p : Char → Bool) (t : Text) : Option (Text × Text) := do
  let '"' :: body := t | none
  let '"' :: rest := body.dropWhile p | none
  let run := body.takeWhile p
  if run.isEmpty then none else return (run, rest)

def isClassChar (c : Char) : Bool := c.isAlphanum || c == '_' || c == '.'

/-- `parserUtilClass="Name"`: the class to extend. -/
def baseClass? (t : Text) : Option (Text × Text) := do
  let (name, rest) ← quotedRun? (fun c => isClassChar c || c == '$')
    (← afterKey? "parserUtilClass".toList t)
  return (name, upTo t rest)

def overrides? (t : Text) : Option (Text × Text) := do
  let (name, rest) ← quotedRun? isClassChar (← afterKey? "overrides".toList t)
  return (name, upTo t rest)

def extends? (t : Text) : Option ((Text × Text) × Text) := do
  let rest ← "extends(".toList.isPrefixOf? t
  let (pattern, rest) ← quotedRun? (· != '"') (Text.trimStart rest)
  let ')' :: rest := Text.trimStart rest | none
  let '=' :: rest := Text.trimStart rest | none
  let c :: rest := Text.trimStart rest | none
  if c.isAlpha || c == '_' then
    let part (c : Char) : Bool := c.isAlphanum || c == '_'
    return ((pattern, c :: rest.takeWhile part), upTo t (rest.dropWhile part))
  else none

def importsOpen? (t : Text) : Option (Unit × Text) := do
  let '[' :: rest ← afterKey? "parserImports".toList t | none
  return ((), upTo t rest)

def imports? (t : Text) : Option (Text × Text) := do
  let '[' :: body ← afterKey? "parserImports".toList t | none
  let ']' :: rest := body.dropWhile (· != ']') | none
  return (body.takeWhile (· != ']'), upTo t rest)

/-- What follows an opening quotation mark, up to the closing one. A backslash takes the
next character with it, which may not be a line feed. -/
def stringTail? : Text → Option (Text × Text)
  | [] => none
  | '"' :: cs => some ([], cs)
  | '\\' :: c :: cs =>
    if c = '\n' then none else (stringTail? cs).map (Prod.map ('\\' :: c :: ·) id)
  | c :: cs => if c = '\\' then none else (stringTail? cs).map (Prod.map (c :: ·) id)

def string? (t : Text) : Option (Text × Text) := do
  let '"' :: cs := t | none
  let (body, rest) ← stringTail? cs
  return (body, upTo t rest)

def compilePatterns : List ((Text × Text) × Text) → Except Error (List SubclassPattern)
  | [] => .ok []
  | ((pattern, elementType), directive) :: more =>
    match PatternEngine.compile (PatternEngine.anchored pattern) with
    | .error fault => .error (.invalidPattern directive (PatternEngine.describe fault))
    | .ok compiled => do
      return ⟨directive, pattern, elementType, compiled⟩ :: (← compilePatterns more)

/-- The directives of a header; `defaultBase` is the class to extend when the header
names none. -/
def read (header : Option Text) (defaultBase : Text) : Except Error Directives := do
  let t := header.getD []
  let declared := (Text.find? baseClass? t).map Prod.fst
  let patterns ← compilePatterns (Text.findAll extends? t)
  return {
    baseClass := ClassName.ofDotted (declared.getD defaultBase)
    baseClassDeclared := declared.isSome
    overrides := (Text.find? overrides? t).map fun hit => ClassName.ofDotted hit.1
    subclassPatterns := patterns
    existingImports := match Text.find? imports? t with
      | some (list, _) => (Text.findAll string? list).map Prod.fst
      | none => [] }

def fixes (d : Directives) (ruleName : Text) : Bool := d.subclassPatterns.any (·.accepts ruleName)

def parentModule (d : Directives) : Option ClassName :=
  d.overrides.map (·.withSuffix "Util".toList)

def notes (d : Directives) : List Note :=
  let overrides := match d.overrides with
    | some c => "Some(".toList ++ Text.quote c.display ++ [')']
    | none => "None".toList
  [.debug ["header directives: base=".toList, d.baseClass.display, " overrides=".toList, overrides,
    " patterns=".toList, Text.decimal d.subclassPatterns.length,
    " imports=".toList, Text.decimal d.existingImports.length]]

end Directives
end OpenGrammar
