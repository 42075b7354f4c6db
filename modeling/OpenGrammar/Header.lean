import OpenGrammar.Directives
import OpenGrammar.GrammarNames
import OpenGrammar.ImportSet

/-! The header of the composed grammar. It names the generated classes and packages
first, keeps the rest of the given header, and lists the imports. -/
namespace OpenGrammar
namespace Header

/-- The header text behind its opening brace; a line on which nothing follows the brace
is left out. -/
def afterBrace (header : Text) : Text :=
  let rest := match header.dropWhile (· != '{') with
    | _ :: cs => cs
    | [] => header
  match Text.rawLines rest with
  | line :: lines => if Text.allBlank line then lines.flatten else rest
  | [] => rest

def baseClassDirective? (t : Text) : Option (Unit × Text) := do
  let '"' :: body ← Directives.afterKey? "parserUtilClass".toList t | none
  let '"' :: rest := body.dropWhile (· != '"') | none
  return ((), Directives.upTo t rest)

/-- A line without its base class directives; one that holds nothing else is dropped. -/
def dropBaseClass (line : Text) : Text :=
  if (Text.find? baseClassDirective? line).isNone then line
  else
    let rest := Text.eraseAll baseClassDirective? line
    if Text.allBlank rest then [] else rest

def keptText (header : Option Text) : Text :=
  (Text.rawLines (afterBrace (header.getD "\x7b\n\x7d".toList))).flatMap dropBaseClass

def property (key value : Text) : Text :=
  "  ".toList ++ key ++ "=\"".toList ++ value ++ "\"\n".toList

def generated (names : GrammarNames) : Text :=
  property "parserUtilClass".toList names.dispatchModule.display ++
  property "parserClass".toList names.parserClass.display ++
  property "elementTypeHolderClass".toList names.elementHolder.display ++
  property "psiPackage".toList names.psiPackage ++
  property "psiImplPackage".toList names.psiImplPackage

def importEntry (item : Text) : Text := "    \"".toList ++ item ++ ['"']

/-- The kept text with the new imports: at the start of its import list, or else in a
list of their own before it. -/
def withImports (kept : Text) (items : List Text) : Text :=
  match Text.splitAtFind? Directives.importsOpen? kept with
  | some (before, start, after) =>
    before ++ start ++ items.flatMap (fun item => '\n' :: importEntry item) ++ after
  | none =>
    if items.isEmpty then kept
    else "  parserImports=[\n".toList ++ items.flatMap (fun item => importEntry item ++ ['\n']) ++
      "  ]\n".toList ++ kept

/-- The composed header. Imports that the given header lists already are not repeated. -/
def emit (header : Option Text) (names : GrammarNames) (imports : ImportSet)
    (existing : List Text) : Text :=
  let items := imports.items.filter (!existing.contains ·)
  Text.trimEnd ("\x7b\n".toList ++ generated names ++ withImports (keptText header) items) ++ ['\n']

end Header
end OpenGrammar
