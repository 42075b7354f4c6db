import OpenGrammar.Text.Basic

/-! JSON values and their strict reader. The reader keeps repeated keys and the order of
members, and of numbers only what a count needs. -/
namespace OpenGrammar

inductive JsonValue
  | null
  | bool (b : Bool)
  /-- A number; its value is kept if it is written as a natural number. -/
  | number (value : Option Nat)
  /-- A string; one with half of a surrogate pair has no text. -/
  | string (text : Option Text)
  | array (items : List JsonValue)
  | object (members : List (Option Text × JsonValue))
  deriving Inhabited

namespace JsonValue

def isSpace (c : Char) : Bool := c == ' ' || c == '\n' || c == '\t' || c == '\r'

def skip (t : Text) : Text := t.dropWhile isSpace

def shortEscape? : Char → Option Char
  | '"' => some '"'
  | '\\' => some '\\'
  | '/' => some '/'
  | 'b' => some '\x08'
  | 'f' => some '\x0c'
  | 'n' => some '\n'
  | 'r' => some '\r'
  | 't' => some '\t'
  | _ => none

/-- The numbers of the characters of a string, up to its closing quotation mark, and the
rest. An escape by number may give half of a surrogate pair. -/
def stringUnits? : Text → Option (List Nat × Text)
  | [] => none
  | '"' :: cs => some ([], cs)
  | '\\' :: 'u' :: a :: b :: c :: d :: cs => do
    let n := (((← Text.hexDigit? a) * 16 + (← Text.hexDigit? b)) * 16 + (← Text.hexDigit? c)) * 16 + (← Text.hexDigit? d)
    let (units, rest) ← stringUnits? cs
    return (n :: units, rest)
  | '\\' :: e :: cs => do
    let c ← shortEscape? e
    let (units, rest) ← stringUnits? cs
    return (c.toNat :: units, rest)
  | c :: cs =>
    if c.toNat < 32 || c == '\\' then none
    else do
      let (units, rest) ← stringUnits? cs
      return (c.toNat :: units, rest)

def isHighHalf (n : Nat) : Bool := 0xD800 ≤ n && n < 0xDC00

def isLowHalf (n : Nat) : Bool := 0xDC00 ≤ n && n < 0xE000

/-- The text of a string: two halves that follow each other make one character, and a
half on its own makes none. -/
def joinUnits? : List Nat → Option Text
  | [] => some []
  | hi :: lo :: units =>
    if isHighHalf hi then
      if isLowHalf lo then
        (joinUnits? units).map (Char.ofNat (0x10000 + (hi - 0xD800) * 1024 + (lo - 0xDC00)) :: ·)
      else none
    else if isLowHalf hi then none
    else (joinUnits? (lo :: units)).map (Char.ofNat hi :: ·)
  | [u] => if isHighHalf u || isLowHalf u then none else some [Char.ofNat u]

def string? (t : Text) : Option (Option Text × Text) :=
  (stringUnits? t).map fun p => (joinUnits? p.1, p.2)

def digits? (t : Text) : Option (Text × Text) :=
  let digits := t.takeWhile Char.isDigit
  if digits.isEmpty then none else some (digits, t.dropWhile Char.isDigit)

def exponent? (t : Text) : Option (Bool × Text) :=
  match t with
  | c :: cs =>
    if c == 'e' || c == 'E' then
      let cs := match cs with
        | '+' :: ds | '-' :: ds => ds
        | ds => ds
      (digits? cs).map fun p => (true, p.2)
    else some (false, t)
  | [] => some (false, t)

/-- A number. A leading zero stands alone, and point and exponent need digits. -/
def number? (t : Text) : Option (JsonValue × Text) := do
  let (negative, body) := match t with
    | '-' :: cs => (true, cs)
    | cs => (false, cs)
  let (digits, rest) ← digits? body
  if digits.head? = some '0' && digits.length ≠ 1 then none
  let (fraction, rest) ← match rest with
    | '.' :: cs => (digits? cs).map fun p => (true, p.2)
    | cs => some (false, cs)
  let (scaled, rest) ← exponent? rest
  let n := digits.foldl (fun n c => n * 10 + (c.toNat - '0'.toNat)) 0
  return (.number (if negative || fraction || scaled then none else some n), rest)

def scalar? (t : Text) : Option (JsonValue × Text) :=
  match "null".toList.isPrefixOf? t, "true".toList.isPrefixOf? t, "false".toList.isPrefixOf? t with
  | some rest, _, _ => some (.null, rest)
  | _, some rest, _ => some (.bool true, rest)
  | _, _, some rest => some (.bool false, rest)
  | _, _, _ => number? t

mutual

/-- A value. Each call takes a character, so that the length of the text bounds the
depth of calls. -/
def value? : (fuel : Nat) → Text → Option (JsonValue × Text)
  | 0, _ => none
  | n + 1, t =>
    match skip t with
    | '"' :: cs => (string? cs).map fun p => (.string p.1, p.2)
    | '[' :: cs =>
      match skip cs with
      | ']' :: rest => some (.array [], rest)
      | cs => (items? n cs).map fun p => (.array p.1, p.2)
    | '{' :: cs =>
      match skip cs with
      | '}' :: rest => some (.object [], rest)
      | cs => (members? n cs).map fun p => (.object p.1, p.2)
    | cs => scalar? cs

def items? : (fuel : Nat) → Text → Option (List JsonValue × Text)
  | 0, _ => none
  | n + 1, t => do
    let (item, rest) ← value? n t
    match skip rest with
    | ',' :: cs =>
      let (items, rest) ← items? n cs
      return (item :: items, rest)
    | ']' :: cs => return ([item], cs)
    | _ => none

def members? : (fuel : Nat) → Text → Option (List (Option Text × JsonValue) × Text)
  | 0, _ => none
  | n + 1, t => do
    let '"' :: cs := skip t | none
    let (key, rest) ← string? cs
    let ':' :: cs := skip rest | none
    let (item, rest) ← value? n cs
    match skip rest with
    | ',' :: cs =>
      let (members, rest) ← members? n cs
      return ((key, item) :: members, rest)
    | '}' :: cs => return ([(key, item)], cs)
    | _ => none

end

def parse? (t : Text) : Option JsonValue := do
  let (v, rest) ← value? (2 * t.length + 2) t
  if (skip rest).isEmpty then return v else none

/-- The values given for the fields of a record: by position in an array, by name in an
object. Other names are passed over; a repeated field, an item too many and a
name without text are refused. -/
def fields? (names : List Text) : JsonValue → Option (List (Option JsonValue))
  | .array items =>
    if items.length ≤ names.length then some (names.mapIdx fun i _ => items[i]?) else none
  | .object members =>
    if members.any (·.1.isNone) then none
    else names.mapM fun name =>
      match members.filter (·.1 == some name) with
      | [] => some none
      | [member] => some (some member.2)
      | _ => none
  | _ => none

end JsonValue
end OpenGrammar
