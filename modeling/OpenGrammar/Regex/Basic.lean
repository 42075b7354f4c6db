import OpenGrammar.Regex.CharSet

/-! Regular expressions and the search for a match. A match reaches from one position
of a text to another; only whether there is one matters here, so expressions have
no notion of a preferred match. -/
namespace OpenGrammar

inductive Look
  | startText | endText
  /-- At a line's start or end; with the flag, a carriage return ends a line too. -/
  | startLine (crlf : Bool) | endLine (crlf : Bool)
  /-- Conditions on the word characters next to the position; with the flag unset,
  the word characters of ASCII alone. -/
  | boundary (unicode : Bool) | notBoundary (unicode : Bool)
  | wordStart (unicode : Bool) | wordEnd (unicode : Bool)
  | halfStart (unicode : Bool) | halfEnd (unicode : Bool)
  deriving DecidableEq, Repr

inductive Regex
  | empty
  | one (set : CharSet)
  | look (cond : Look)
  | seq (r s : Regex)
  | alt (r s : Regex)
  /-- At least `lo` and at most `hi` times, or without upper limit. -/
  | times (r : Regex) (lo : Nat) (hi : Option Nat)
  deriving DecidableEq, Repr

namespace Look

def wordSet (unicode : Bool) : CharSet := if unicode then .word else CharSet.asciiWord

def holds (cond : Look) (before after : Option Char) : Bool :=
  let word (unicode : Bool) (c : Option Char) : Bool := c.any (wordSet unicode).contains
  match cond with
  | .startText => before.isNone
  | .endText => after.isNone
  | .startLine false => before.isNone || before == some '\n'
  | .startLine true =>
    before.isNone || before == some '\n' || (before == some '\r' && after != some '\n')
  | .endLine false => after.isNone || after == some '\n'
  | .endLine true =>
    after.isNone || after == some '\r' || (after == some '\n' && before != some '\r')
  | .boundary u => word u before != word u after
  | .notBoundary u => word u before == word u after
  | .wordStart u => !word u before && word u after
  | .wordEnd u => word u before && !word u after
  | .halfStart u => !word u before
  | .halfEnd u => !word u after

def holdsAt (cond : Look) (t : Text) (i : Nat) : Bool :=
  cond.holds (if i = 0 then none else t[i - 1]?) t[i]?

end Look

namespace Regex

def stepsOf (step : Nat → List Nat) : Nat → List Nat → List Nat
  | 0, is => is
  | n + 1, is => stepsOf step n (is.flatMap step).eraseDups

def upTo (step : Nat → List Nat) : Nat → List Nat → List Nat
  | 0, is => is
  | n + 1, is => upTo step n (is ++ is.flatMap step).eraseDups

/-- The positions of `t` at which a match that starts at position `i` can end. Past the
length of the text further repetitions reach no new position, so that many are
enough for a repetition without upper limit. -/
def ends (t : Text) : Regex → Nat → List Nat
  | .empty, i => [i]
  | .one set, i =>
    match t[i]? with
    | some c => if set.contains c then [i + 1] else []
    | none => []
  | .look cond, i => if cond.holdsAt t i then [i] else []
  | .seq r s, i => ((ends t r i).flatMap (ends t s)).eraseDups
  | .alt r s, i => (ends t r i ++ ends t s i).eraseDups
  | .times r lo hi, i =>
    let more := match hi with
      | some hi => min (hi - lo) (t.length + 1)
      | none => t.length + 1
    upTo (ends t r) more (stepsOf (ends t r) lo [i])

/-- Whether the expression matches some part of the text. -/
def isMatch (r : Regex) (t : Text) : Bool :=
  (List.range (t.length + 1)).any fun i => !(ends t r i).isEmpty

end Regex
end OpenGrammar
