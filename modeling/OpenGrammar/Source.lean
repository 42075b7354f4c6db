import OpenGrammar.Diagnostics
import OpenGrammar.Rule

/-! Grammar texts. A line with the separator `::=` opens a rule; the lines up to the
next such line belong to its body, and what stands before the first one is the
header. -/
namespace OpenGrammar

structure Source where
  /-- The text before the first rule, from its first opening brace on. -/
  header : Option Text
  rules : RuleTable
  /-- The name of the rule that is declared first. -/
  firstRule : Text
  /-- The name of each declaration that replaced an earlier one, in order. -/
  duplicates : List Text

namespace Source

def separator : Text := "::=".toList

def fromBrace? (t : Text) : Option Text :=
  match t.dropWhile (· != '{') with
  | [] => none
  | rest => some rest

/-- What a scan has read so far: the closed rules, the re-declarations among them,
and the declaration whose lines are still being read. Before the first rule
there is none, and the open text is that of the header. -/
structure Progress where
  rules : RuleTable := RuleTable.empty
  duplicates : List Text := []
  header : Option Text := none
  firstRule : Option Text := none
  current : Option Text := none
  openText : Text := []

namespace Progress

def close (p : Progress) : Progress :=
  match p.current with
  | none => p
  | some name =>
    { p with
      rules := p.rules.insert name p.openText
      duplicates := if p.rules.contains name then p.duplicates ++ [name] else p.duplicates
      current := none
      openText := [] }

/-- Opens the declaration of `name`. The first one ends the header. -/
def declare (p : Progress) (name body : Text) : Progress :=
  match p.current with
  | none =>
    { p with
      header := fromBrace? p.openText
      firstRule := some name
      current := some name
      openText := body }
  | some _ => { p.close with current := some name, openText := body }

/-- Appends a line to the open text. Empty lines before the header are dropped. -/
def extend (p : Progress) (line : Text) : Progress :=
  if p.current.isSome ∨ p.openText ≠ [] then { p with openText := p.openText ++ '\n' :: line }
  else { p with openText := line }

def step (p : Progress) (line : Text) : Progress :=
  match Text.cut? separator line with
  | some (before, after) =>
    p.declare (Text.trim before) (after.dropWhile fun c => c == ' ' || c == '\t')
  | none => p.extend line

end Progress

/-- Reads a grammar text; `path` says where it comes from, for the error alone. -/
def scan (text : Text) (path : Option Text) : Except Error Source :=
  let last := (Text.lines text).foldl Progress.step {}
  match last.firstRule with
  | none => .error (.noRules path)
  | some firstRule =>
    let closed := last.close
    .ok ⟨closed.header, closed.rules, firstRule, closed.duplicates⟩

def notes (source : Source) : List Note :=
  source.duplicates.map (fun name =>
    .warn ["rule `".toList, name, "` is declared more than once; last declaration wins".toList]) ++
  [.debug ["scanned ".toList, Text.decimal source.rules.size, " rules, first rule `".toList,
    source.firstRule, "`".toList]]

end Source
end OpenGrammar
