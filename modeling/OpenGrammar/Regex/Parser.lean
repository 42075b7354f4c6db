import OpenGrammar.PatternEngine
import OpenGrammar.Regex.Basic

/-! An engine for patterns: a text is read as an expression or refused. Classes of characters by
Unicode property are not read, and there is no limit on the size or the depth of a pattern. -/
namespace OpenGrammar
namespace Regex

/-- What inline flags such as `(?i)` switch on and off. -/
structure Flags where
  ignoreCase : Bool := false
  multiLine : Bool := false
  dotAll : Bool := false
  crlf : Bool := false
  /-- Blanks and comments in the pattern do not count. -/
  spaced : Bool := false
  unicode : Bool := true

/-- Drops blanks and comments; a comment runs from `#` to the end of its line. -/
def dropSpacing : (inComment : Bool) → Text → Text
  | _, [] => []
  | true, c :: cs => dropSpacing (c != '\n') cs
  | false, c :: cs =>
    if Text.isBlank c then dropSpacing false cs
    else if c = '#' then dropSpacing true cs
    else c :: cs

namespace Flags

def skip (f : Flags) (t : Text) : Text := if f.spaced then dropSpacing false t else t

def set? (f : Flags) (flag : Char) (on : Bool) : Option Flags :=
  match flag with
  | 'i' => some { f with ignoreCase := on }
  | 'm' => some { f with multiLine := on }
  | 's' => some { f with dotAll := on }
  | 'R' => some { f with crlf := on }
  | 'x' => some { f with spaced := on }
  | 'u' => some { f with unicode := on }
  | 'U' => some f
  | _ => none

def fold (f : Flags) (s : CharSet) : CharSet :=
  if !f.ignoreCase then s else if f.unicode then .folded s else .foldedAscii s

/-- Sets may leave ASCII only when all scripts are considered. -/
def admits (f : Flags) (s : CharSet) : Bool := f.unicode || !s.contains '\x80'

end Flags

inductive Atom
  | char (c : Char)
  | set (s : CharSet)
  | look (cond : Look)

def hexNumber? (digits : Text) : Option Nat :=
  digits.foldlM (fun n c => (Text.hexDigit? c).map (n * 16 + ·)) 0

def charOfNat? (n : Nat) : Option Char := if n.isValidChar then some (Char.ofNat n) else none

/-- The rest of an escape by number: `width` digits, or any number of them in braces. -/
def hexEscape (f : Flags) (width : Nat) (t : Text) : Option (Atom × Text) := do
  let (digits, rest) ← match t with
    | '{' :: cs => (Text.cut? ['}'] cs)
    | cs => if cs.length < width then none else some (cs.take width, cs.drop width)
  if digits.isEmpty then none
  let c ← charOfNat? (← hexNumber? digits)
  if !f.unicode && t.head? != some '{' && width == 2 && 128 ≤ c.toNat then none
  return (.char c, rest)

/-- Characters that mean themselves behind a backslash: all of ASCII but letters,
digits and angle brackets. -/
def isEscapable (c : Char) : Bool := c.toNat < 128 && !c.isAlphanum && c != '<' && c != '>'

def classEscape (f : Flags) (c : Char) : Option CharSet :=
  let s := match c.toLower with
    | 'd' => if f.unicode then CharSet.digit else CharSet.asciiDigit
    | 's' => if f.unicode then CharSet.blank else CharSet.asciiBlank
    | _ => if f.unicode then CharSet.word else CharSet.asciiWord
  let s := if c.isUpper then CharSet.compl s else s
  if f.admits s then some s else none

def isBoundaryNamePart (c : Char) : Bool := c.isAlpha || c == '-'

def boundaryEscape (f : Flags) (t : Text) : Option (Atom × Text) :=
  let named := match t with
    | '{' :: cs => (f.skip cs).head?.any isBoundaryNamePart
    | _ => false
  if !named then
    if t.head? == some '{' && (f.skip t.tail).isEmpty then none
    else some (.look (.boundary f.unicode), t)
  else
    let body := f.skip t.tail
    match body.dropWhile isBoundaryNamePart with
    | '}' :: rest =>
      match String.ofList (body.takeWhile isBoundaryNamePart) with
      | "start" => some (.look (.wordStart f.unicode), rest)
      | "end" => some (.look (.wordEnd f.unicode), rest)
      | "start-half" => some (.look (.halfStart f.unicode), rest)
      | "end-half" => some (.look (.halfEnd f.unicode), rest)
      | _ => none
    | _ => none

def escape (f : Flags) : Text → Option (Atom × Text)
  | [] => none
  | c :: cs =>
    if isEscapable c then some (.char c, cs)
    else
      match c with
      | 'x' => hexEscape f 2 cs
      | 'u' => hexEscape f 4 cs
      | 'U' => hexEscape f 8 cs
      | 'a' => some (.char '\x07', cs)
      | 'f' => some (.char '\x0c', cs)
      | 't' => some (.char '\t', cs)
      | 'n' => some (.char '\n', cs)
      | 'r' => some (.char '\r', cs)
      | 'v' => some (.char '\x0b', cs)
      | 'A' => some (.look .startText, cs)
      | 'z' => some (.look .endText, cs)
      | 'b' => boundaryEscape f cs
      | 'B' => some (.look (.notBoundary f.unicode), cs)
      | '<' => some (.look (.wordStart f.unicode), cs)
      | '>' => some (.look (.wordEnd f.unicode), cs)
      | c =>
        if c ∈ ['d', 'D', 's', 'S', 'w', 'W'] then (classEscape f c).map fun s => (.set s, cs)
        else none

/-! Bracketed classes -/

inductive ClassOp
  | inter | diff | symmDiff

def ClassOp.apply (op : ClassOp) (s t : CharSet) : CharSet :=
  match op with
  | .inter => .inter s t
  | .diff => .diff s t
  | .symmDiff => .symmDiff s t

/-- The part of a class read so far: the operation that waits for its right side, and
the union of the items behind it. -/
structure ClassState where
  pending : Option (ClassOp × CharSet) := none
  items : CharSet := .empty

namespace ClassState

def add (st : ClassState) (s : CharSet) : ClassState := { st with items := .union st.items s }

def value (f : Flags) (st : ClassState) : CharSet :=
  match st.pending with
  | none => st.items
  | some (op, lhs) => op.apply (f.fold lhs) (f.fold st.items)

def operate (f : Flags) (st : ClassState) (op : ClassOp) : ClassState :=
  { pending := some (op, st.value f) }

end ClassState

/-- A class of a name, such as `[:alpha:]`, from behind its opening bracket on. -/
def namedClass? (t : Text) : Option (CharSet × Text) := do
  let ':' :: cs := t | none
  let (negated, cs) := match cs with
    | '^' :: ds => (true, ds)
    | ds => (false, ds)
  let (name, rest) ← Text.cut? [':'] cs
  let ']' :: rest := rest | none
  let s ← CharSet.named? name
  return (if negated then .compl s else s, rest)

def classAtom (f : Flags) : Text → Option (Atom × Text)
  | [] => none
  | '\\' :: cs => escape f cs
  | c :: cs => some (.char c, cs)

def Atom.classChar? (f : Flags) : Atom → Option Char
  | .char c => if f.unicode || c.toNat < 128 then some c else none
  | _ => none

def Atom.classSet? (f : Flags) : Atom → Option CharSet
  | .char c => ((Atom.char c).classChar? f).map CharSet.single
  | .set s => some s
  | .look _ => none

/-- One item of a class: a character, an escape, or a range. A hyphen before the closing
bracket or before another hyphen makes no range. -/
def classItem (f : Flags) (t : Text) : Option (CharSet × Text) := do
  let (a, rest) ← classAtom f t
  let rest := f.skip rest
  let next := match rest with
    | '-' :: cs => (f.skip cs).head?
    | _ => none
  if rest.isEmpty then none
  if rest.head? != some '-' || next == some ']' || next == some '-' then
    return (← a.classSet? f, rest)
  let (b, rest) ← classAtom f (f.skip rest.tail)
  let lo ← a.classChar? f
  let hi ← b.classChar? f
  if hi < lo then none
  return (.range lo hi, rest)

/-- The leading hyphens of a class, and a leading closing bracket, mean themselves. -/
def classStart (f : Flags) : (fuel : Nat) → (first : Bool) → ClassState → Text → ClassState × Text
  | 0, _, st, t => (st, t)
  | n + 1, first, st, t =>
    match f.skip t with
    | '-' :: cs => classStart f n false (st.add (.single '-')) cs
    | ']' :: cs => if first then (st.add (.single ']'), cs) else (st, ']' :: cs)
    | cs => (st, cs)

/-- A class from behind its opening bracket on. Each round takes a character, so that
the length of the pattern bounds their number. -/
def classBody (f : Flags) : (fuel : Nat) → ClassState → (negated : Bool) → Text → Option (CharSet × Text)
  | 0, _, _, _ => none
  | n + 1, st, negated, t =>
    match f.skip t with
    | [] => none
    | ']' :: rest =>
      let s := f.fold (st.value f)
      let s := if negated then .compl s else s
      if f.admits s then some (s, rest) else none
    | '[' :: cs =>
      match namedClass? cs with
      | some (s, rest) => classBody f n (st.add s) negated rest
      | none => do
        let (inverted, body) := match f.skip cs with
          | '^' :: ds => (true, ds)
          | ds => (false, ds)
        let (start, body) := classStart f n true {} body
        let (s, rest) ← classBody f n start inverted body
        classBody f n (st.add s) negated rest
    | '&' :: '&' :: cs => classBody f n (st.operate f .inter) negated cs
    | '-' :: '-' :: cs => classBody f n (st.operate f .diff) negated cs
    | '~' :: '~' :: cs => classBody f n (st.operate f .symmDiff) negated cs
    | cs => do
      let (s, rest) ← classItem f cs
      classBody f n (st.add s) negated rest

def bracketed (f : Flags) (t : Text) : Option (CharSet × Text) :=
  let (negated, body) := match f.skip t with
    | '^' :: cs => (true, cs)
    | cs => (false, cs)
  let (start, body) := classStart f (t.length + 1) true {} body
  classBody f (t.length + 1) start negated body

/-! Groups, alternatives and repetitions -/

/-- An element of a sequence; a flag setting matches nothing and cannot be repeated. -/
inductive Item
  | regex (r : Regex)
  | setting

/-- An open group: the flags outside of it, and what stands before it. -/
structure Group where
  flags : Flags
  alts : List Regex
  items : List Item

/-- What a parse has read: alternatives and items in reverse, the open groups from
the innermost on, and the names given to groups. -/
structure ParseState where
  flags : Flags := {}
  alts : List Regex := []
  items : List Item := []
  groups : List Group := []
  names : List Text := []

def seqOf (items : List Item) : Regex :=
  items.foldl (fun r item =>
    match item with
    | .regex s => .seq s r
    | .setting => r) .empty

def altOf (alts : List Regex) (last : Regex) : Regex := alts.foldl (fun r s => .alt s r) last

namespace ParseState

def value (st : ParseState) : Regex := altOf st.alts (seqOf st.items)

def push (st : ParseState) (r : Regex) : ParseState := { st with items := .regex r :: st.items }

def openGroup (st : ParseState) (inner : Flags) : ParseState :=
  { st with
    flags := inner
    alts := []
    items := []
    groups := ⟨st.flags, st.alts, st.items⟩ :: st.groups }

def closeGroup (st : ParseState) : Option ParseState :=
  match st.groups with
  | [] => none
  | g :: groups =>
    some { st with
      flags := g.flags
      alts := g.alts
      items := .regex st.value :: g.items
      groups }

def repeatLast (st : ParseState) (lo : Nat) (hi : Option Nat) : Option ParseState :=
  match st.items with
  | .regex r :: items => some { st with items := .regex (.times r lo hi) :: items }
  | _ => none

end ParseState

def setOf (f : Flags) (c : Char) : Regex := .one (f.fold (.single c))

/-- A mark behind a repetition that makes it lazy; it does not change what matches. -/
def dropLazy : Text → Text
  | '?' :: cs => cs
  | cs => cs

def count (t : Text) : Option Nat × Text :=
  let t := Text.trimStart t
  let digits := t.takeWhile Char.isDigit
  let n := digits.foldl (fun n c => n * 10 + (c.toNat - '0'.toNat)) 0
  (if digits.isEmpty || 0xFFFFFFFF < n then none else some n,
    Text.trimStart (t.dropWhile Char.isDigit))

/-- A counted repetition, from behind its opening brace on: `n}`, `n,}` or `n,m}`. -/
def counts (f : Flags) (t : Text) : Option (Nat × Option Nat × Text) := do
  let (lo?, rest) := count (f.skip t)
  let lo ← lo?
  match rest with
  | '}' :: rest => return (lo, some lo, rest)
  | ',' :: rest =>
    match f.skip rest with
    | '}' :: rest => return (lo, none, rest)
    | rest =>
      let (hi?, rest) := count rest
      let hi ← hi?
      let '}' :: rest := rest | none
      if hi < lo then none
      return (lo, some hi, rest)
  | _ => none

def inlineFlags (f : Flags) (seen : List Char) (last : Option Char) :
    Text → Option (Flags × List Char × Char × Text)
  | [] => none
  | c :: cs =>
    if c = ':' ∨ c = ')' then
      if last = some '-' then none else some (f, seen, c, cs)
    else if c ∈ seen then none
    else if c = '-' then inlineFlags f (c :: seen) (some c) cs
    else
      match f.set? c (!seen.contains '-') with
      | some f => inlineFlags f (c :: seen) (some c) cs
      | none => none

def isGroupNamePart (c : Char) : Bool :=
  c == '_' || c == '.' || c == '[' || c == ']' || Text.isAlphabetic c || Text.isNumeric c

def groupName (t : Text) : Option (Text × Text) := do
  let name := t.takeWhile isGroupNamePart
  let '>' :: rest := t.dropWhile isGroupNamePart | none
  let first ← name.head?
  if first == '_' || Text.isAlphabetic first then return (name, rest) else none

def group (st : ParseState) (t : Text) : Option (ParseState × Text) :=
  let f := st.flags
  let named (cs : Text) : Option (ParseState × Text) := do
    let (name, rest) ← groupName cs
    if st.names.contains name then none
    return ({ st with names := name :: st.names }.openGroup f, rest)
  match f.skip t with
  | '?' :: 'P' :: '<' :: cs => named cs
  | '?' :: '<' :: '=' :: _ | '?' :: '<' :: '!' :: _ => none
  | '?' :: '<' :: cs => named cs
  | '?' :: cs => do
    let (inner, seen, close, rest) ← inlineFlags f [] none cs
    if close = ':' then return (st.openGroup inner, rest)
    if seen.isEmpty then none
    return ({ st with flags := inner, items := .setting :: st.items }, rest)
  | cs => some (st.openGroup f, cs)

def anyChar (f : Flags) : Option Regex :=
  if !f.unicode then none
  else if f.dotAll then some (.one CharSet.all)
  else if f.crlf then some (.one (.compl (.union (.single '\r') (.single '\n'))))
  else some (.one (.compl (.single '\n')))

def readPart (st : ParseState) (c : Char) (cs : Text) : Option (ParseState × Text) :=
  let f := st.flags
  match c with
  | '(' => group st cs
  | ')' => st.closeGroup.map (·, cs)
  | '|' => some ({ st with alts := seqOf st.items :: st.alts, items := [] }, cs)
  | '[' => (bracketed f cs).map fun (s, rest) => (st.push (.one s), rest)
  | '?' => (st.repeatLast 0 (some 1)).map (·, dropLazy cs)
  | '*' => (st.repeatLast 0 none).map (·, dropLazy cs)
  | '+' => (st.repeatLast 1 none).map (·, dropLazy cs)
  | '{' => do
    let (lo, hi, rest) ← counts f cs
    return (← st.repeatLast lo hi, dropLazy (f.skip rest))
  | '.' => (anyChar f).map fun r => (st.push r, cs)
  | '^' => some (st.push (.look (if f.multiLine then .startLine f.crlf else .startText)), cs)
  | '$' => some (st.push (.look (if f.multiLine then .endLine f.crlf else .endText)), cs)
  | '\\' => do
    let (a, rest) ← escape f cs
    let r := match a with
      | .char c => setOf f c
      | .set s => .one s
      | .look cond => .look cond
    return (st.push r, rest)
  | c => some (st.push (setOf f c), cs)

/-- Reads a pattern to its end. Each round takes a character. -/
def readAll : (fuel : Nat) → ParseState → Text → Option Regex
  | 0, _, _ => none
  | n + 1, st, t =>
    match st.flags.skip t with
    | [] => if st.groups.isEmpty then some st.value else none
    | c :: cs => do
      let (st, rest) ← readPart st c cs
      readAll n st rest

def parse? (pattern : Text) : Option Regex := readAll (pattern.length + 1) {} pattern

/-- Whether a reading comes to a closing parenthesis while no group is open. -/
def closesNone : (fuel : Nat) → ParseState → Text → Bool
  | 0, _, _ => false
  | n + 1, st, t =>
    match st.flags.skip t with
    | [] => false
    | c :: cs =>
      if c = ')' ∧ st.groups.isEmpty then true
      else
        match readPart st c cs with
        | some (st, rest) => closesNone n st rest
        | none => false

def straysOut (pattern : Text) : Bool := closesNone (pattern.length + 1) {} pattern

inductive Fault
  | unopenedGroup
  /-- Any other fault. -/
  | malformed
  deriving DecidableEq, Repr

instance engine : PatternEngine where
  Pattern := Regex
  Fault := Fault
  compile pattern :=
    match parse? pattern with
    | some r => .ok r
    | none => .error (if straysOut pattern then .unopenedGroup else .malformed)
  isMatch := isMatch
  describe
    | .unopenedGroup => "unopened group".toList
    | .malformed => "malformed pattern".toList

end Regex
end OpenGrammar
