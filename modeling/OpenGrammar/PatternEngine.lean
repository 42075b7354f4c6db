import OpenGrammar.Text.Basic

/-! Patterns, the written form of regular expressions. What reads and matches them is no part of
the library, which works with any engine; compiled patterns are kept for later use, each under
the text it was compiled from. -/
namespace OpenGrammar

class PatternEngine where
  Pattern : Type
  /-- Why a text is no pattern. -/
  Fault : Type
  compile : Text → Except Fault Pattern
  /-- Whether some part of a text matches. -/
  isMatch : Pattern → Text → Bool
  describe : Fault → Text

open PatternEngine (Pattern Fault compile)

/-- The pattern that is to match a whole text. -/
def PatternEngine.anchored (pattern : Text) : Text := "^(?:".toList ++ pattern ++ ")$".toList

structure PatternCache [PatternEngine] where
  entries : List (Text × Pattern) := []

inductive CacheRequest
  | plain (pattern : Text)
  /-- For what matches exactly the whole texts of the pattern. -/
  | anchored (pattern : Text)
  /-- To forget all patterns. -/
  | clear
  deriving DecidableEq, Repr

namespace PatternCache

variable [PatternEngine]

def size (cache : PatternCache) : Nat := cache.entries.length

def get? (cache : PatternCache) (pattern : Text) : Option Pattern := cache.entries.lookup pattern

/-- What a text is compiled to, and the cache that knows it from now on. A text that is no
pattern leaves the cache as it is. -/
def fetch (cache : PatternCache) (pattern : Text) : Except Fault Pattern × PatternCache :=
  match cache.get? pattern with
  | some r => (.ok r, cache)
  | none =>
    match compile pattern with
    | .ok r => (.ok r, ⟨(pattern, r) :: cache.entries⟩)
    | .error e => (.error e, cache)

def fetchAnchored (cache : PatternCache) (pattern : Text) : Except Fault Pattern × PatternCache :=
  cache.fetch (PatternEngine.anchored pattern)

/-- The answer to a request, and the cache after it. Forgetting answers nothing. -/
def perform (cache : PatternCache) : CacheRequest → Option (Except Fault Pattern) × PatternCache
  | .plain pattern => (cache.fetch pattern).map some id
  | .anchored pattern => (cache.fetchAnchored pattern).map some id
  | .clear => (none, {})

def run (cache : PatternCache) :
    List CacheRequest → List (Option (Except Fault Pattern)) × PatternCache
  | [] => ([], cache)
  | request :: requests =>
    let (answer, cache) := cache.perform request
    let (answers, cache) := run cache requests
    (answer :: answers, cache)

end PatternCache
end OpenGrammar
