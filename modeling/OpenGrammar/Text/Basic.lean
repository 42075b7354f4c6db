/-! Texts as lists of characters. Every stage of the library reads and writes
texts of this form, so that each law about them is an induction on a list. -/
namespace OpenGrammar

/-- A text is the list of its characters. -/
abbrev Text := List Char

namespace Text

instance decidableMem (t : Text) (ts : List Text) : Decidable (t ∈ ts) := inferInstance

/-- The characters of the Unicode property White_Space. -/
def isBlank (c : Char) : Bool :=
  let n := c.toNat
  (9 ≤ n && n ≤ 13) || n == 0x20 || n == 0x85 || n == 0xA0 || n == 0x1680 ||
    (0x2000 ≤ n && n ≤ 0x200A) || n == 0x2028 || n == 0x2029 || n == 0x202F ||
    n == 0x205F || n == 0x3000

def trimStart (t : Text) : Text := t.dropWhile isBlank

def trimEnd (t : Text) : Text := (t.reverse.dropWhile isBlank).reverse

def trim (t : Text) : Text := trimEnd (trimStart t)

def allBlank (t : Text) : Bool := t.all isBlank

def decimal (n : Nat) : Text := Nat.toDigits 10 n

def hexDigit? (c : Char) : Option Nat :=
  if c.isDigit then some (c.toNat - '0'.toNat)
  else if 'a' ≤ c ∧ c ≤ 'f' then some (c.toNat - 'a'.toNat + 10)
  else if 'A' ≤ c ∧ c ≤ 'F' then some (c.toNat - 'A'.toNat + 10)
  else none

def join (sep : Text) (parts : List Text) : Text := List.intercalate sep parts

/-- The segments between the dots of a text that are not empty. -/
def dotSegments (t : Text) : List Text := (t.splitOn '.').filter (!·.isEmpty)

def utf8Size (t : Text) : Nat := t.foldr (fun c n => c.utf8Size + n) 0

def encode (t : Text) : List UInt8 := t.flatMap String.utf8EncodeChar

def decode? (bytes : List UInt8) : Option Text :=
  (ByteArray.mk bytes.toArray).utf8Decode?.map Array.toList

/-- The text before and the text after the first occurrence of `mark`. -/
def cut? (mark : Text) : Text → Option (Text × Text)
  | [] => if mark.isEmpty then some ([], []) else none
  | c :: cs =>
    match mark.isPrefixOf? (c :: cs) with
    | some rest => some ([], rest)
    | none => (cut? mark cs).map fun p => (c :: p.1, p.2)

/-- The lines of a text, each with its line feed; only the last may have none. -/
def rawLines : Text → List Text
  | [] => []
  | c :: cs =>
    if c = '\n' then [c] :: rawLines cs
    else
      match rawLines cs with
      | [] => [[c]]
      | line :: lines => (c :: line) :: lines

/-- Drops a final line feed and one carriage return before it. Without the line
feed the carriage return is part of the line. -/
def chopLineEnd (line : Text) : Text :=
  match line.reverse with
  | '\n' :: '\r' :: rest => rest.reverse
  | '\n' :: rest => rest.reverse
  | _ => line

def lines (t : Text) : List Text := (rawLines t).map chopLineEnd

/-- Gathers what `recognise` finds, from left to right and without overlaps: a
find is a value with the text it stands for, and the search goes on behind that
text. The number counts the characters of the last find still to be skipped. -/
def findAllFrom {α : Type} (recognise : Text → Option (α × Text)) : Nat → Text → List (α × Text)
  | _, [] => []
  | skip + 1, _ :: cs => findAllFrom recognise skip cs
  | 0, c :: cs =>
    match recognise (c :: cs) with
    | some hit => hit :: findAllFrom recognise (hit.2.length - 1) cs
    | none => findAllFrom recognise 0 cs

def findAll {α : Type} (recognise : Text → Option (α × Text)) (t : Text) : List (α × Text) :=
  findAllFrom recognise 0 t

def find? {α : Type} (recognise : Text → Option (α × Text)) : Text → Option (α × Text)
  | [] => none
  | c :: cs =>
    match recognise (c :: cs) with
    | some hit => some hit
    | none => find? recognise cs

def eraseAllFrom {α : Type} (recognise : Text → Option (α × Text)) : Nat → Text → Text
  | _, [] => []
  | skip + 1, _ :: cs => eraseAllFrom recognise skip cs
  | 0, c :: cs =>
    match recognise (c :: cs) with
    | some hit => eraseAllFrom recognise (hit.2.length - 1) cs
    | none => c :: eraseAllFrom recognise 0 cs

def eraseAll {α : Type} (recognise : Text → Option (α × Text)) (t : Text) : Text :=
  eraseAllFrom recognise 0 t

/-- The text in front of the first find, and that text with the find itself. -/
def splitAtFind? {α : Type} (recognise : Text → Option (α × Text)) : Text → Option (Text × Text × Text)
  | [] => none
  | c :: cs =>
    match recognise (c :: cs) with
    | some hit => some ([], hit.2, (c :: cs).drop hit.2.length)
    | none => (splitAtFind? recognise cs).map fun p => (c :: p.1, p.2)

end Text
end OpenGrammar
