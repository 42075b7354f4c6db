import OpenGrammar.Diagnostics
import OpenGrammar.Text.Uppercase

/-! Names that the composed grammar and its module share. Both take them from here, so
that they agree. -/
namespace OpenGrammar
namespace Naming

/-- Joins the parts of a name between low lines, each part behind a low line with its
first character in upper case. The flag says that a low line was just passed;
further ones count as part of it, and one that ends the name is kept. -/
def camelFrom : (passed : Bool) → Text → Text
  | true, [] => ['_']
  | false, [] => []
  | passed, c :: cs =>
    if c = '_' then camelFrom true cs
    else if passed then Text.uppercase c ++ camelFrom false cs
    else c :: camelFrom false cs

def camelCase (name : Text) : Text := camelFrom false name

def titleCase : Text → Text
  | [] => []
  | c :: cs => Text.uppercase c ++ cs

def realSuffix : Text := "_real".toList

/-- The name of the production that holds the body of a rule. -/
def realName (bare : Text) : Text := bare ++ realSuffix

/-- The name through which a rule is called so that it can be overridden. -/
def accessor (suffix bare : Text) : Text := camelCase bare ++ suffix

/-- Accessors in use, each with the rule that has it. -/
abbrev Claims := List (Text × Text)

/-- Takes the accessor of a rule into use. No other rule may have it already. -/
def claim (suffix : Text) (claims : Claims) (bare : Text) : Except Error (Text × Claims) :=
  let name := accessor suffix bare
  match claims.lookup name with
  | some owner =>
    if owner = bare then .ok (name, claims) else .error (.accessorCollision owner bare name)
  | none => .ok (name, (name, bare) :: claims)

def claimAll (suffix : Text) : Claims → List Text → Except Error (List Text)
  | _, [] => .ok []
  | claims, bare :: rest => do
    let (name, claims) ← claim suffix claims bare
    return name :: (← claimAll suffix claims rest)

end Naming
end OpenGrammar
