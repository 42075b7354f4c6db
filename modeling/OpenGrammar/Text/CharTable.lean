import OpenGrammar.Text.Basic

/-! Tables of characters: sets given by their boundaries, and maps given by runs of
characters that move by the same distance. -/
namespace OpenGrammar
namespace CharTable

/-- Membership in the set that starts at the first boundary, ends before the
second, starts again at the third, and so on: a character is in the set when it
has passed an odd number of boundaries. -/
def within (boundaries : List Nat) (c : Char) : Bool :=
  boundaries.countP (· ≤ c.toNat) % 2 == 1

/-- The characters `first`, `first + stride`, up to `last`, each of which is mapped
to the character at the distance `shift`. -/
structure Run where
  first : Nat
  last : Nat
  stride : Nat
  shift : Int

def Run.covers (run : Run) (n : Nat) : Bool :=
  run.first ≤ n && n ≤ run.last && (n - run.first) % run.stride == 0

def image (runs : List Run) (c : Char) : Char :=
  match runs.find? (·.covers c.toNat) with
  | some run => Char.ofNat ((c.toNat : Int) + run.shift).toNat
  | none => c

def preimages (runs : List Run) (c : Char) : List Char :=
  runs.filterMap fun run =>
    let n := ((c.toNat : Int) - run.shift).toNat
    if run.covers n then some (Char.ofNat n) else none

end CharTable
end OpenGrammar
