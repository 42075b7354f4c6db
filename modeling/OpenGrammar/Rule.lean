import OpenGrammar.Text.Basic

/-! Rules of a grammar and the ordered table that holds them. A table keeps each
name at the place of its first declaration, with the body of its last one. -/
namespace OpenGrammar

/-- A rule: its name as written, marker included, and the text of its body. -/
structure Rule where
  name : Text
  body : Text
  deriving DecidableEq, Repr

namespace Rule

def afterMarker? (name : Text) : Option Text :=
  match "private".toList.isPrefixOf? name with
  | some (c :: cs) => if Text.isBlank c then some (c :: cs) else none
  | _ => none

def isPrivateName (name : Text) : Bool := (afterMarker? name).isSome

def bareNameOf (name : Text) : Text :=
  match afterMarker? name with
  | some rest => Text.trimStart rest
  | none => name

def isPrivate (rule : Rule) : Bool := isPrivateName rule.name

def bareName (rule : Rule) : Text := bareNameOf rule.name

end Rule

/-- Rules in the order of their first declaration. No two have the same name. -/
structure RuleTable where
  rules : List Rule
  nodup : (rules.map Rule.name).Nodup := by simp

namespace RuleTable

def empty : RuleTable where
  rules := []

def names (table : RuleTable) : List Text := table.rules.map Rule.name

def size (table : RuleTable) : Nat := table.rules.length

def isEmpty (table : RuleTable) : Bool := table.rules.isEmpty

def get? (table : RuleTable) (name : Text) : Option Rule :=
  table.rules.find? (·.name == name)

def contains (table : RuleTable) (name : Text) : Bool := table.names.contains name

theorem map_name_replace (rules : List Rule) (name body : Text) :
    (rules.map fun r => if r.name = name then { r with body } else r).map Rule.name =
      rules.map Rule.name := by
  simp only [List.map_map]
  apply List.map_congr_left
  intro r _
  simp only [Function.comp]
  split <;> rfl

/-- Declares a rule: a name that is there keeps its place and takes the new body,
any other name comes last. -/
def insert (table : RuleTable) (name body : Text) : RuleTable :=
  if h : name ∈ table.rules.map Rule.name then
    { rules := table.rules.map fun r => if r.name = name then { r with body } else r
      nodup := by rw [map_name_replace]; exact table.nodup }
  else
    { rules := table.rules ++ [⟨name, body⟩]
      nodup := by
        rw [List.map_append, List.nodup_append]
        refine ⟨table.nodup, by simp, ?_⟩
        intro a ha b hb
        simp only [List.map_cons, List.map_nil, List.mem_singleton] at hb
        rintro rfl
        exact h (hb ▸ ha) }

end RuleTable
end OpenGrammar
