import OpenGrammar.Text.CaseFold
import OpenGrammar.Text.Word

/-! Sets of characters as patterns write them: ranges, classes and the operations on
them. -/
namespace OpenGrammar

inductive CharSet
  | empty
  | range (lo hi : Char)
  /-- Decimal digits of all scripts. -/
  | digit
  | blank
  | word
  | union (s t : CharSet)
  | inter (s t : CharSet)
  | diff (s t : CharSet)
  | symmDiff (s t : CharSet)
  | compl (s : CharSet)
  /-- The characters that differ from a member in case only. -/
  | folded (s : CharSet)
  /-- The same for the letters of ASCII alone. -/
  | foldedAscii (s : CharSet)
  deriving DecidableEq, Repr

namespace CharSet

def contains : CharSet → Char → Bool
  | .empty, _ => false
  | .range lo hi, c => lo ≤ c && c ≤ hi
  | .digit, c => Text.isDecimalDigit c
  | .blank, c => Text.isBlank c
  | .word, c => Text.isWord c
  | .union s t, c => s.contains c || t.contains c
  | .inter s t, c => s.contains c && t.contains c
  | .diff s t, c => s.contains c && !t.contains c
  | .symmDiff s t, c => s.contains c != t.contains c
  | .compl s, c => !s.contains c
  | .folded s, c => (Text.caseVariants c).any s.contains
  | .foldedAscii s, c => s.contains c || s.contains c.toLower || s.contains c.toUpper

def single (c : Char) : CharSet := .range c c

def all : CharSet := .compl .empty

def ofRanges (ranges : List (Char × Char)) : CharSet :=
  ranges.foldr (fun r s => .union (.range r.1 r.2) s) .empty

def named? (name : Text) : Option CharSet :=
  match String.ofList name with
  | "alnum" => some (ofRanges [('0', '9'), ('A', 'Z'), ('a', 'z')])
  | "alpha" => some (ofRanges [('A', 'Z'), ('a', 'z')])
  | "ascii" => some (ofRanges [('\x00', '\x7f')])
  | "blank" => some (ofRanges [('\t', '\t'), (' ', ' ')])
  | "cntrl" => some (ofRanges [('\x00', '\x1f'), ('\x7f', '\x7f')])
  | "digit" => some (ofRanges [('0', '9')])
  | "graph" => some (ofRanges [('!', '~')])
  | "lower" => some (ofRanges [('a', 'z')])
  | "print" => some (ofRanges [(' ', '~')])
  | "punct" => some (ofRanges [('!', '/'), (':', '@'), ('[', '\x60'), ('{', '~')])
  | "space" => some (ofRanges [('\t', '\r'), (' ', ' ')])
  | "upper" => some (ofRanges [('A', 'Z')])
  | "word" => some (ofRanges [('0', '9'), ('A', 'Z'), ('a', 'z'), ('_', '_')])
  | "xdigit" => some (ofRanges [('0', '9'), ('A', 'F'), ('a', 'f')])
  | _ => none

def asciiDigit : CharSet := ofRanges [('0', '9')]

def asciiBlank : CharSet := ofRanges [('\t', '\r'), (' ', ' ')]

def asciiWord : CharSet := ofRanges [('0', '9'), ('A', 'Z'), ('a', 'z'), ('_', '_')]

end CharSet
end OpenGrammar
