import OpenGrammar.Token

/-! Attribute blocks. A rule body may end with a block `{ key=value ... }`; the text
before it is the production. -/
namespace OpenGrammar

structure Attribute where
  /-- The name, without an argument in parentheses. -/
  name : Text
  /-- The name with its argument. -/
  key : Text
  value : Text
  /-- The whole entry. -/
  text : Text
  deriving DecidableEq, Repr

structure AttributeBlock where
  entries : List Attribute := []
  deriving DecidableEq, Repr

namespace AttributeBlock

open Token (spell tokenize)

def isWhite (tok : Token) : Bool := tok.kind == .whitespace

def parensAfter (depth : Nat) (tok : Token) : Nat :=
  if tok.isSymbol '(' then depth + 1 else if tok.isSymbol ')' then depth - 1 else depth

/-- Tokens up to the parenthesis that closes `depth` open ones, and the rest. -/
def closeParens? (depth : Nat) : List Token → Option (List Token × List Token)
  | [] => none
  | tok :: toks =>
    if parensAfter depth tok = 0 then some ([tok], toks)
    else (closeParens? (parensAfter depth tok) toks).map (Prod.map (tok :: ·) id)

/-- The equals sign of an entry, with white space before it, and the rest. A doubled
sign makes no entry. -/
def equalsSign? (toks : List Token) : Option (List Token × List Token) :=
  match toks.dropWhile isWhite with
  | eq :: rest =>
    if eq.text = ['='] ∧ rest.head?.map Token.text ≠ some ['='] then
      some (toks.takeWhile isWhite ++ [eq], rest)
    else none
  | [] => none

/-- What follows the name of an entry: its argument in parentheses if there is one, its
equals sign, and the rest. -/
def entryKey? (toks : List Token) : Option (List Token × List Token × List Token) :=
  match toks.dropWhile isWhite with
  | tok :: more =>
    if tok.text = ['('] then
      match closeParens? 1 more with
      | some (inside, rest) =>
        (equalsSign? rest).map fun p => (toks.takeWhile isWhite ++ tok :: inside, p)
      | none => none
    else (equalsSign? toks).map fun p => ([], p)
  | [] => none

theorem closeParens?_append {depth : Nat} {toks inside rest : List Token}
    (h : closeParens? depth toks = some (inside, rest)) : inside ++ rest = toks := by
  induction toks generalizing depth inside rest with
  | nil => simp [closeParens?] at h
  | cons tok toks ih =>
    rw [closeParens?] at h
    split at h
    · simp only [Option.some.injEq, Prod.mk.injEq] at h
      simp [← h.1, ← h.2]
    · obtain ⟨⟨a, b⟩, hab, he⟩ := Option.map_eq_some_iff.1 h
      simp only [Prod.map, id, Prod.mk.injEq] at he
      simp [← he.1, ← he.2, ih hab]

theorem equalsSign?_append {toks sign rest : List Token}
    (h : equalsSign? toks = some (sign, rest)) : sign ++ rest = toks := by
  unfold equalsSign? at h
  split at h
  · rename_i eq more hd
    split at h
    · simp only [Option.some.injEq, Prod.mk.injEq] at h
      rw [← h.1, ← h.2, List.append_assoc, List.singleton_append, ← hd,
        List.takeWhile_append_dropWhile]
    · simp at h
  · simp at h

theorem entryKey?_append {toks key sign rest : List Token}
    (h : entryKey? toks = some (key, sign, rest)) : key ++ (sign ++ rest) = toks := by
  unfold entryKey? at h
  split at h
  · rename_i tok more hd
    split at h
    · split at h
      · rename_i inside behind hp
        obtain ⟨⟨a, b⟩, hab, he⟩ := Option.map_eq_some_iff.1 h
        simp only [Prod.mk.injEq] at he
        rw [← he.1, ← he.2.1, ← he.2.2, equalsSign?_append hab, List.append_assoc, List.cons_append,
          closeParens?_append hp, ← hd, List.takeWhile_append_dropWhile]
      · simp at h
    · obtain ⟨⟨a, b⟩, hab, he⟩ := Option.map_eq_some_iff.1 h
      simp only [Prod.mk.injEq] at he
      rw [← he.1, ← he.2.1, ← he.2.2, List.nil_append, equalsSign?_append hab]
  · simp at h

/-- The tokens of an entry: its name, its argument, its equals sign and its value. -/
structure Entry where
  name : Token
  key : List Token
  sign : List Token
  value : List Token

namespace Entry

def tokens (e : Entry) : List Token := e.name :: (e.key ++ (e.sign ++ e.value))

def toAttribute (e : Entry) : Attribute where
  name := e.name.text
  key := Text.trim (e.name.text ++ spell e.key)
  value := Text.trim (spell e.value)
  text := Text.trim (spell e.tokens)

end Entry

/-- The nesting depth behind a token. A closing bracket too many leaves it at zero. -/
def depthAfter (depth : Nat) (tok : Token) : Nat :=
  if tok.isSymbol '(' || tok.isSymbol '[' || tok.isSymbol '{' then depth + 1
  else if tok.isSymbol ')' || tok.isSymbol ']' || tok.isSymbol '}' then depth - 1
  else depth

/-- The tokens before the first entry, and the entries. Outside of all brackets each
identifier that an equals sign follows starts an entry, which runs up to the next. -/
def split (depth : Nat) (toks : List Token) : List Token × List Entry :=
  match toks with
  | [] => ([], [])
  | tok :: toks =>
    if depth = 0 ∧ tok.kind = .identifier then
      match _h : entryKey? toks with
      | some (key, sign, rest) =>
        let p := split 0 rest
        ([], ⟨tok, key, sign, p.1⟩ :: p.2)
      | none => (split 0 toks).map (tok :: ·) id
    else (split (depthAfter depth tok) toks).map (tok :: ·) id
termination_by toks.length
decreasing_by
  · have h := congrArg List.length (entryKey?_append _h)
    simp only [List.length_append, List.length_cons] at h ⊢
    omega
  all_goals simp

def parse (inner : Text) : AttributeBlock :=
  ⟨(split 0 (tokenize inner)).2.map Entry.toAttribute⟩

def get? (block : AttributeBlock) (name : Text) : Option Attribute :=
  block.entries.find? (·.name == name)

def overrideEnabled (block : AttributeBlock) : Bool :=
  (block.get? "override".toList).any (·.value == "true".toList)

/-- Walks back over tokens, the last one first, to the brace that opens the block which
the last closing brace ends. Yields the tokens behind that brace and those before
it, the latter still reversed. -/
def openingBrace? : (depth : Nat) → (behind : List Token) → List Token → Option (List Token × List Token)
  | _, _, [] => none
  | depth, behind, tok :: toks =>
    if tok.isSymbol '}' then openingBrace? (depth + 1) (tok :: behind) toks
    else if tok.isSymbol '{' then
      match depth with
      | 0 => none
      | 1 => some (behind, toks)
      | d + 2 => openingBrace? (d + 1) (tok :: behind) toks
    else openingBrace? depth (tok :: behind) toks

/-- Splits a body into its production and the text between the braces of its block. -/
def splitBody (body : Text) : Text × Option Text :=
  let trimmed := Text.trimEnd body
  if trimmed.getLast? = some '}' then
    match openingBrace? 0 [] (tokenize trimmed).reverse with
    | some (behind, before) => (Text.trimEnd (spell before.reverse), some (spell behind).dropLast)
    | none => (trimmed, none)
  else (trimmed, none)

end AttributeBlock
end OpenGrammar
