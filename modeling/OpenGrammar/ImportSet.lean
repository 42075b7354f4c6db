import OpenGrammar.Text.Basic

/-! Import lists without repetitions, in the order in which the imports were first
required. -/
namespace OpenGrammar

structure ImportSet where
  items : List Text
  nodup : items.Nodup := by simp

namespace ImportSet

def empty : ImportSet where
  items := []

def contains (set : ImportSet) (item : Text) : Bool := set.items.contains item

def size (set : ImportSet) : Nat := set.items.length

def isEmpty (set : ImportSet) : Bool := set.items.isEmpty

def insert (set : ImportSet) (item : Text) : ImportSet :=
  if h : item ∈ set.items then set
  else
    { items := set.items ++ [item]
      nodup := by
        rw [List.nodup_append]
        refine ⟨set.nodup, by simp, ?_⟩
        intro a ha b hb
        rintro rfl
        exact h (List.mem_singleton.1 hb ▸ ha) }

def insertAll (set : ImportSet) (items : List Text) : ImportSet := items.foldl insert set

end ImportSet
end OpenGrammar
