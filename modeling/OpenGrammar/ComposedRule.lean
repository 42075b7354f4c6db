import OpenGrammar.AttributeBlock
import OpenGrammar.Linkage

/-! Rules of the composed grammar. A rule that can be overridden, and a hidden one, is
written twice: as a `fake` rule that shows the body, and as a real production
whose references are linked. A fixed rule is written once. -/
namespace OpenGrammar

structure ComposedRule where
  name : Text
  bare : Text
  kind : RuleKind
  /-- The lines of the rule in the composed grammar. -/
  text : Text
  /-- Whether the body asks for the rule to be bound to the grammar it overrides. -/
  overrideEnabled : Bool

namespace ComposedRule

/-- The entries that are written from other sources or not at all. -/
def consumed : List Text :=
  ["elementType".toList, "pin".toList, "recoverWhile".toList, "override".toList]

/-- The opening of a block behind a production. A line comment at the end of the
production would swallow a brace on its line. -/
def blockOpener (production : Text) : Text :=
  if Token.endsWithLineComment production then "\n\x7b\n".toList else " \x7b\n".toList

def blockText (production : Text) (entries : List Text) : Text :=
  blockOpener production ++ entries.flatMap (fun e => "  ".toList ++ e ++ ['\n']) ++
    "\x7d\n".toList

def recoverEntry (value : Text) : Text := "recoverWhile=".toList ++ value

/-- The entries of a real production: its element type, the first pin, the first
recovery rule, and the entries that are passed on as they are. -/
def realEntries (link : Linkage) (bare : Text) (block : AttributeBlock) : List Text :=
  ("elementType = ".toList ++ bare) ::
    (((block.get? "pin".toList).map Attribute.text).toList ++
    ((block.get? "recoverWhile".toList).map fun a =>
      recoverEntry (link.linkReferences a.value)).toList ++
    (block.entries.filter (!consumed.contains ·.name)).map Attribute.text)

def fixedEntries (link : Linkage) (block : AttributeBlock) : List Text :=
  block.entries.map fun a =>
    if a.name = "recoverWhile".toList then recoverEntry (link.linkDirect a.value) else a.text

/-- The `fake` rule and the real production of a rule. -/
def ofOpen (link : Linkage) (rule : Rule) (kind : RuleKind) : ComposedRule :=
  let body := Text.trimEnd (link.linkExternals rule.body)
  let parts := AttributeBlock.splitBody body
  let block := (parts.2.map AttributeBlock.parse).getD {}
  let production := link.linkReferences parts.1
  { name := rule.name
    bare := rule.bareName
    kind
    text :=
      "fake ".toList ++ rule.name ++ " ::= ".toList ++ body ++ '\n' ::
        (Naming.realName rule.name ++ " ::= ".toList ++ production ++
          blockText production (realEntries link rule.bareName block))
    overrideEnabled := block.overrideEnabled }

def ofFixed (link : Linkage) (rule : Rule) : ComposedRule :=
  let parts := AttributeBlock.splitBody (link.linkExternals rule.body)
  let block := parts.2.map AttributeBlock.parse
  let production := link.linkDirect parts.1
  { name := rule.name
    bare := rule.bareName
    kind := .subclass
    text :=
      rule.name ++ " ::= ".toList ++ production ++
        match block with
        | some block => blockText production (fixedEntries link block)
        | none => ['\n']
    overrideEnabled := block.any AttributeBlock.overrideEnabled }

def ofRule (link : Linkage) (rule : Rule) (kind : RuleKind) : ComposedRule :=
  match kind with
  | .subclass => ofFixed link rule
  | kind => ofOpen link rule kind

def rootName : Text := "root".toList

/-- The rule that the parser starts with; it calls the first rule of the grammar. -/
def rootRule (link : Linkage) (firstBare : Text) : Text :=
  rootName ++ " ::= ".toList ++ (link.reference firstBare).getD firstBare ++ ['\n']

end ComposedRule
end OpenGrammar
