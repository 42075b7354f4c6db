import OpenGrammar.Text.Basic

/-! Tokens of rule bodies. A body is cut into identifiers, literals, comments and
single symbols, so that names inside literals and comments are never taken for
references. Nothing is dropped: the texts of the tokens join to the body. -/
namespace OpenGrammar

inductive TokenKind
  | identifier | literal | lineComment | blockComment | whitespace | number | symbol
  deriving DecidableEq, Repr

structure Token where
  kind : TokenKind
  text : Text
  deriving DecidableEq, Repr

namespace Token

def isIdentStart (c : Char) : Bool := c.isAlpha || c == '_'

def isIdentPart (c : Char) : Bool := c.isAlphanum || c == '_'

/-- White space between tokens: space, tab, line feed, form feed, carriage return. -/
def isGap (c : Char) : Bool :=
  c == ' ' || c == '\t' || c == '\n' || c == '\x0c' || c == '\r'

/-- What follows the opening quote of a literal, up to and with its closing quote,
and the rest. A backslash takes the next character with it, and a literal
without closing quote runs to the end. -/
def literalTail (quote : Char) : Text → Text × Text
  | [] => ([], [])
  | c :: cs =>
    if c = quote then ([c], cs)
    else if c = '\\' then
      match cs with
      | [] => ([c], [])
      | d :: ds => (literalTail quote ds).map (c :: d :: ·) id
    else (literalTail quote cs).map (c :: ·) id

/-- What follows the opening mark of a block comment, up to and with the first
closing mark, and the rest. -/
def blockTail : Text → Text × Text
  | [] => ([], [])
  | '*' :: '/' :: cs => (['*', '/'], cs)
  | c :: cs => (blockTail cs).map (c :: ·) id

/-- The kind of the first token of the text `c :: cs`, the characters of that
token behind `c`, and the rest of the text. -/
def first (c : Char) (cs : Text) : TokenKind × Text × Text :=
  if isIdentStart c then (.identifier, cs.takeWhile isIdentPart, cs.dropWhile isIdentPart)
  else if c.isDigit then (.number, cs.takeWhile isIdentPart, cs.dropWhile isIdentPart)
  else if c = '\'' ∨ c = '"' then (.literal, literalTail c cs)
  else if c = '/' ∧ cs.head? = some '/' then
    (.lineComment, cs.takeWhile (· != '\n'), cs.dropWhile (· != '\n'))
  else if c = '/' ∧ cs.head? = some '*' then
    (.blockComment, (blockTail cs.tail).map ('*' :: ·) id)
  else if isGap c then (.whitespace, cs.takeWhile isGap, cs.dropWhile isGap)
  else (.symbol, [], cs)

theorem literalTail_append (quote : Char) (cs : Text) :
    (literalTail quote cs).1 ++ (literalTail quote cs).2 = cs := by
  fun_induction literalTail quote cs <;> simp_all

theorem blockTail_append (cs : Text) : (blockTail cs).1 ++ (blockTail cs).2 = cs := by
  fun_induction blockTail cs <;> simp_all

theorem first_append (c : Char) (cs : Text) : (first c cs).2.1 ++ (first c cs).2.2 = cs := by
  unfold first
  split
  · simp
  split
  · simp
  split
  · simp [literalTail_append]
  split
  · simp
  split
  · rename_i h
    cases cs with
    | nil => simp at h
    | cons d ds =>
      have hd : d = '*' := by simpa using h.2
      simp [hd, blockTail_append]
  split <;> simp

theorem length_first_rest (c : Char) (cs : Text) : (first c cs).2.2.length ≤ cs.length := by
  have h := congrArg List.length (first_append c cs)
  simp only [List.length_append] at h
  omega

def tokenize : Text → List Token
  | [] => []
  | c :: cs => ⟨(first c cs).1, c :: (first c cs).2.1⟩ :: tokenize (first c cs).2.2
termination_by t => t.length
decreasing_by
  have := length_first_rest c cs
  simp only [List.length_cons]
  omega

def spell (tokens : List Token) : Text := tokens.flatMap Token.text

/-- Tokens with the byte offsets at which they start and end. -/
def spans : Nat → List Token → List (Token × Nat × Nat)
  | _, [] => []
  | start, tok :: toks =>
    let stop := start + Text.utf8Size tok.text
    (tok, start, stop) :: spans stop toks

@[simp] theorem spell_tokenize (t : Text) : spell (tokenize t) = t := by
  induction h : t.length using Nat.strongRecOn generalizing t with
  | ind n ih =>
    cases t with
    | nil => simp [tokenize, spell]
    | cons c cs =>
      have hlen := length_first_rest c cs
      have hn : (first c cs).2.2.length < n := by
        simp only [List.length_cons] at h
        omega
      have hrest := ih _ hn (first c cs).2.2 rfl
      rw [tokenize]
      simp only [spell, List.flatMap_cons] at hrest ⊢
      rw [hrest, List.cons_append, first_append]

def isSymbol (tok : Token) (c : Char) : Bool := tok.kind == .symbol && tok.text == [c]

/-- Whether the last token that is not white space is a line comment. -/
def endsWithLineComment (t : Text) : Bool :=
  match (tokenize t).reverse.find? (·.kind != .whitespace) with
  | some tok => tok.kind == .lineComment
  | none => false

/-- The text with each identifier `x` for which `f x` is given replaced by it. -/
def mapIdentifiers (f : Text → Option Text) (t : Text) : Text :=
  (tokenize t).flatMap fun tok =>
    if tok.kind = .identifier then (f tok.text).getD tok.text else tok.text

def identifiers (t : Text) : List Text :=
  ((tokenize t).filter (·.kind == .identifier)).map Token.text

/-- A run of tokens cut at the external references in it. An external reference is
an identifier alone between braces, with nothing else inside. -/
inductive Piece
  | plain (tok : Token)
  | external (name : Text)
  deriving DecidableEq, Repr

def pieces : List Token → List Piece
  | op :: name :: cl :: toks =>
    if op.text = ['{'] ∧ name.kind = .identifier ∧ cl.text = ['}'] then
      .external name.text :: pieces toks
    else .plain op :: pieces (name :: cl :: toks)
  | op :: toks => .plain op :: pieces toks
  | [] => []

def mapExternals (f : Text → Text) (t : Text) : Text :=
  (pieces (tokenize t)).flatMap fun
    | .plain tok => tok.text
    | .external name => f name

def externals (t : Text) : List Text :=
  (pieces (tokenize t)).filterMap fun
    | .plain _ => none
    | .external name => some name

end Token
end OpenGrammar
