import OpenGrammar.AttributeBlock

/-! Brackets among the tokens of a text. They are properly nested where each opening one is
closed by one of its kind and none is closed that is not open; a reader with a stack
decides this. -/
namespace OpenGrammar

inductive Bracket
  | round | square | curly
  deriving DecidableEq, Repr

def Bracket.all : List Bracket := [.round, .square, .curly]

theorem Bracket.mem_all (b : Bracket) : b ∈ Bracket.all := by
  cases b <;> decide

inductive BracketEnd
  | opens (kind : Bracket)
  | closes (kind : Bracket)
  deriving DecidableEq, Repr

namespace BracketEnd

def kind : BracketEnd → Bracket
  | opens kind => kind
  | closes kind => kind

def sign : BracketEnd → Char
  | opens .round => '('
  | opens .square => '['
  | opens .curly => '{'
  | closes .round => ')'
  | closes .square => ']'
  | closes .curly => '}'

def all : List BracketEnd :=
  [opens .round, opens .square, opens .curly, closes .round, closes .square, closes .curly]

end BracketEnd

namespace Token

theorem isSymbol_iff {tok : Token} {c : Char} :
    tok.isSymbol c = true ↔ tok.kind = .symbol ∧ tok.text = [c] := by
  simp [isSymbol]

def bracketEnd? (tok : Token) : Option BracketEnd := BracketEnd.all.find? (tok.isSymbol ·.sign)

theorem bracketEnd?_eq_some_iff {tok : Token} {e : BracketEnd} :
    tok.bracketEnd? = some e ↔ tok.isSymbol e.sign = true := by
  constructor
  · intro h
    unfold bracketEnd? at h
    exact List.find?_some (p := fun e : BracketEnd => tok.isSymbol e.sign) h
  · intro h
    obtain ⟨kind, text⟩ := tok
    obtain ⟨rfl, rfl⟩ := isSymbol_iff.1 h
    cases e with
    | opens kind => cases kind <;> rfl
    | closes kind => cases kind <;> rfl

def endIn? (kinds : List Bracket) (tok : Token) : Option BracketEnd :=
  tok.bracketEnd?.filter (kinds.contains ·.kind)

theorem endIn?_eq_some_iff {kinds : List Bracket} {tok : Token} {e : BracketEnd} :
    tok.endIn? kinds = some e ↔ tok.isSymbol e.sign = true ∧ e.kind ∈ kinds := by
  simp [endIn?, Option.filter_eq_some_iff, bracketEnd?_eq_some_iff]

theorem endIn?_of_not_mem {kinds : List Bracket} {tok : Token} {e : BracketEnd}
    (h : tok.isSymbol e.sign = true) (hk : e.kind ∉ kinds) : tok.endIn? kinds = none := by
  rw [endIn?, bracketEnd?_eq_some_iff.2 h]
  simp [hk]

theorem endIn?_of_kind {kinds : List Bracket} {tok : Token} (h : tok.kind ≠ .symbol) :
    tok.endIn? kinds = none := by
  rw [Option.eq_none_iff_forall_ne_some]
  intro e he
  exact h (isSymbol_iff.1 (endIn?_eq_some_iff.1 he).1).1

theorem endIn?_of_text {kinds : List Bracket} {tok : Token} (h : ∀ e : BracketEnd, tok.text ≠ [e.sign]) :
    tok.endIn? kinds = none := by
  rw [Option.eq_none_iff_forall_ne_some]
  intro e he
  exact h e (isSymbol_iff.1 (endIn?_eq_some_iff.1 he).1).2

/-- Brackets of the kinds are properly nested; other tokens do not matter. -/
inductive Nested (kinds : List Bracket) : List Token → Prop
  | nil : Nested kinds []
  | skip {tok : Token} {toks : List Token} :
    tok.endIn? kinds = none → Nested kinds toks → Nested kinds (tok :: toks)
  | wrap {b : Bracket} {op cl : Token} {inside toks : List Token} :
    op.endIn? kinds = some (.opens b) → cl.endIn? kinds = some (.closes b) →
      Nested kinds inside → Nested kinds toks → Nested kinds (op :: (inside ++ cl :: toks))

namespace Nested

variable {kinds : List Bracket}

theorem append {a b : List Token} (ha : Nested kinds a) (hb : Nested kinds b) :
    Nested kinds (a ++ b) := by
  induction ha with
  | nil => exact hb
  | skip ht _ ih => exact skip ht ih
  | wrap ho hc hi _ _ ih =>
    rw [List.cons_append, List.append_assoc, List.cons_append]
    exact wrap ho hc hi ih

theorem of_forall {toks : List Token} (h : ∀ tok ∈ toks, tok.endIn? kinds = none) :
    Nested kinds toks := by
  induction toks with
  | nil => exact nil
  | cons tok toks ih => exact skip (h tok (by simp)) (ih fun t ht => h t (List.mem_cons_of_mem _ ht))

theorem of_subset {kinds' : List Bracket} {toks : List Token} (h : Nested kinds toks)
    (hsub : kinds' ⊆ kinds) : Nested kinds' toks := by
  have hend : ∀ {tok : Token} {e : BracketEnd}, tok.endIn? kinds' = some e → tok.endIn? kinds = some e := by
    intro tok e he
    rw [endIn?_eq_some_iff] at he ⊢
    exact ⟨he.1, hsub he.2⟩
  induction h with
  | nil => exact nil
  | skip ht _ ih =>
    refine skip ?_ ih
    rw [Option.eq_none_iff_forall_ne_some] at ht ⊢
    exact fun e he => ht e (hend he)
  | @wrap b op cl inside toks ho hc _ _ ihi ih =>
    rw [endIn?_eq_some_iff] at ho hc
    by_cases hb : b ∈ kinds'
    · exact wrap (endIn?_eq_some_iff.2 ⟨ho.1, hb⟩) (endIn?_eq_some_iff.2 ⟨hc.1, hb⟩) ihi ih
    · have hwrap : Nested kinds' ([op] ++ (inside ++ ([cl] ++ toks))) :=
        append (skip (endIn?_of_not_mem ho.1 hb) nil)
          (append ihi (append (skip (endIn?_of_not_mem hc.1 hb) nil) ih))
      simpa using hwrap

end Nested

/-- Reads brackets against those that are still to be closed, the next one first. -/
def balances (kinds : List Bracket) : List Bracket → List Token → Bool
  | awaited, [] => awaited.isEmpty
  | awaited, tok :: toks =>
    match tok.endIn? kinds with
    | none => balances kinds awaited toks
    | some (.opens b) => balances kinds (b :: awaited) toks
    | some (.closes b) =>
      match awaited with
      | [] => false
      | next :: awaited => decide (b = next) && balances kinds awaited toks

theorem Nested.balances_append {kinds : List Bracket} {toks : List Token} (h : Nested kinds toks)
    (awaited : List Bracket) (rest : List Token) :
    balances kinds awaited (toks ++ rest) = balances kinds awaited rest := by
  induction h generalizing awaited rest with
  | nil => rfl
  | skip ht _ ih => simp [balances, ht, ih]
  | wrap ho hc _ _ ihi ih => simp [balances, ho, hc, ihi, ih]

/-- The tokens close, one after the other, the brackets that are awaited. -/
def Closes (kinds : List Bracket) : List Bracket → List Token → Prop
  | [], toks => Nested kinds toks
  | b :: awaited, toks => ∃ inside cl rest, toks = inside ++ cl :: rest ∧ Nested kinds inside ∧
      cl.endIn? kinds = some (.closes b) ∧ Closes kinds awaited rest

theorem Closes.prepend {kinds : List Bracket} {awaited : List Bracket} {front toks : List Token}
    (hf : Nested kinds front) (h : Closes kinds awaited toks) : Closes kinds awaited (front ++ toks) := by
  cases awaited with
  | nil => exact hf.append h
  | cons b awaited =>
    obtain ⟨inside, cl, rest, rfl, hi, hc, hr⟩ := h
    exact ⟨front ++ inside, cl, rest, by simp, hf.append hi, hc, hr⟩

theorem closes_of_balances {kinds : List Bracket} {awaited : List Bracket} {toks : List Token}
    (h : balances kinds awaited toks = true) : Closes kinds awaited toks := by
  induction toks generalizing awaited with
  | nil =>
    cases awaited with
    | nil => exact .nil
    | cons b awaited => cases h
  | cons tok toks ih =>
    rw [balances] at h
    split at h
    · rename_i ht
      have htok : Nested kinds [tok] := .skip ht .nil
      exact (ih h).prepend htok
    · rename_i b ht
      obtain ⟨inside, cl, rest, rfl, hi, hc, hr⟩ := ih h
      have hpair : Nested kinds (tok :: (inside ++ [cl])) := .wrap ht hc hi .nil
      simpa using hr.prepend hpair
    · rename_i b ht
      split at h
      · cases h
      · rename_i next awaited
        simp only [Bool.and_eq_true, decide_eq_true_eq] at h
        obtain ⟨rfl, h⟩ := h
        exact ⟨[], tok, toks, rfl, .nil, ht, ih h⟩

theorem nested_iff_balances {kinds : List Bracket} {toks : List Token} :
    Nested kinds toks ↔ balances kinds [] toks = true := by
  constructor
  · intro h
    have ht := h.balances_append [] []
    rwa [List.append_nil] at ht
  · exact fun h => closes_of_balances h

instance decidableNested (kinds : List Bracket) (toks : List Token) : Decidable (Nested kinds toks) :=
  decidable_of_iff _ nested_iff_balances.symm

theorem Nested.append_iff {kinds : List Bracket} {a b : List Token} (ha : Nested kinds a) :
    Nested kinds (a ++ b) ↔ Nested kinds b := by
  rw [nested_iff_balances, ha.balances_append, nested_iff_balances]

theorem balances_concat {kinds : List Bracket} {tok : Token} (h : tok.endIn? kinds = none)
    (awaited : List Bracket) (toks : List Token) :
    balances kinds awaited (toks ++ [tok]) = balances kinds awaited toks := by
  induction toks generalizing awaited with
  | nil => simp [balances, h]
  | cons first toks ih =>
    rw [List.cons_append, balances, balances]
    split
    · exact ih awaited
    · exact ih _
    · cases awaited with
      | nil => rfl
      | cons next awaited => simp only [ih]

theorem nested_concat_iff {kinds : List Bracket} {toks : List Token} {tok : Token}
    (h : tok.endIn? kinds = none) : Nested kinds (toks ++ [tok]) ↔ Nested kinds toks := by
  rw [nested_iff_balances, balances_concat h, nested_iff_balances]

theorem Nested.of_opens {kinds : List Bracket} {op : Token} {toks : List Token} {b : Bracket}
    (h : Nested kinds (op :: toks)) (ho : op.endIn? kinds = some (.opens b)) :
    ∃ inside cl rest, toks = inside ++ cl :: rest ∧ Nested kinds inside ∧
      cl.endIn? kinds = some (.closes b) ∧ Nested kinds rest := by
  cases h with
  | skip ht _ =>
    rw [ht] at ho
    cases ho
  | wrap ho' hc hi hr =>
    rw [ho] at ho'
    obtain rfl : b = _ := BracketEnd.opens.inj (Option.some.inj ho')
    exact ⟨_, _, _, rfl, hi, hc, hr⟩

end Token
end OpenGrammar
