import Mathlib.Data.Prod.Basic
import OpenGrammar.Proofs.Blocks
import OpenGrammar.Proofs.Brackets
import OpenGrammar.Proofs.TokenBoundaries

/-! How a block is cut into entries. Where brackets are nested an entry begins at each name in
front of an equals sign outside of them, whatever stands before it. So blocks put one
behind the other have the entries of both. -/
namespace OpenGrammar
namespace AttributeBlock

open Token (spell tokenize Nested)

/-! Brackets and depths -/

theorem isSymbol_false_of_none {kinds : List Bracket} {tok : Token} (h : tok.endIn? kinds = none)
    (e : BracketEnd) (he : e.kind ∈ kinds) : tok.isSymbol e.sign = false := by
  by_contra hs
  rw [Token.endIn?_eq_some_iff.2 ⟨by simpa using hs, he⟩] at h
  cases h

theorem depthAfter_of_none {tok : Token} (h : tok.endIn? Bracket.all = none) (depth : Nat) :
    depthAfter depth tok = depth := by
  have hno : ∀ e : BracketEnd, tok.isSymbol e.sign = false := fun e =>
    isSymbol_false_of_none h e (Bracket.mem_all _)
  have ho : (tok.isSymbol '(' || tok.isSymbol '[' || tok.isSymbol '\x7b') = false := by
    simpa [Bool.or_assoc] using ⟨hno (.opens .round), hno (.opens .square), hno (.opens .curly)⟩
  have hc : (tok.isSymbol ')' || tok.isSymbol ']' || tok.isSymbol '\x7d') = false := by
    simpa [Bool.or_assoc] using ⟨hno (.closes .round), hno (.closes .square), hno (.closes .curly)⟩
  rw [depthAfter, ho, hc]
  rfl

theorem depthAfter_opens {tok : Token} {b : Bracket} (h : tok.endIn? Bracket.all = some (.opens b))
    (depth : Nat) : depthAfter depth tok = depth + 1 := by
  obtain ⟨kind, text⟩ := tok
  obtain ⟨rfl, rfl⟩ := Token.isSymbol_iff.1 (Token.endIn?_eq_some_iff.1 h).1
  cases b <;> rfl

theorem depthAfter_closes {tok : Token} {b : Bracket} (h : tok.endIn? Bracket.all = some (.closes b))
    (depth : Nat) : depthAfter depth tok = depth - 1 := by
  obtain ⟨kind, text⟩ := tok
  obtain ⟨rfl, rfl⟩ := Token.isSymbol_iff.1 (Token.endIn?_eq_some_iff.1 h).1
  cases b <;> rfl

theorem not_identifier_of_end {kinds : List Bracket} {tok : Token} {e : BracketEnd}
    (h : tok.endIn? kinds = some e) (depth : Nat) : ¬ (depth = 0 ∧ tok.kind = .identifier) := by
  rintro ⟨-, hk⟩
  rw [Token.endIn?_of_kind (by rw [hk]; decide)] at h
  cases h

/-- Inside of brackets no entry begins. -/
theorem split_nested {inside : List Token} (h : Nested Bracket.all inside) (d : Nat) (toks : List Token) :
    split (d + 1) (inside ++ toks) = (split (d + 1) toks).map (inside ++ ·) id := by
  induction h generalizing d toks with
  | nil => simp [Prod.map_def]
  | skip ht _ ih =>
    rw [List.cons_append, split_other (by simp), depthAfter_of_none ht, ih]
    simp [Prod.map_def]
  | wrap ho hc _ _ ihi ih =>
    rw [List.cons_append, List.append_assoc, List.cons_append, split_other (by simp),
      depthAfter_opens ho, ihi, split_other (by simp), depthAfter_closes hc, Nat.add_sub_cancel, ih]
    simp [Prod.map_def]

theorem split_pair {op cl : Token} {b : Bracket} {inside : List Token}
    (ho : op.endIn? Bracket.all = some (.opens b)) (hc : cl.endIn? Bracket.all = some (.closes b))
    (hi : Nested Bracket.all inside) (toks : List Token) :
    split 0 (op :: (inside ++ cl :: toks)) = (split 0 toks).map (op :: (inside ++ [cl]) ++ ·) id := by
  rw [split_other (not_identifier_of_end ho 0), depthAfter_opens ho, split_nested hi,
    split_other (not_identifier_of_end hc _), depthAfter_closes hc]
  simp [Prod.map_def]

theorem closeParens?_nested {inside : List Token} (h : Nested [.round] inside) (d : Nat)
    (toks : List Token) :
    closeParens? (d + 1) (inside ++ toks) =
      (closeParens? (d + 1) toks).map (Prod.map (inside ++ ·) id) := by
  have hopens : ∀ {op : Token} {b}, op.endIn? [.round] = some (.opens b) → ∀ d, parensAfter d op = d + 1 := by
    intro op b ho d
    obtain ⟨hs, hb⟩ := Token.endIn?_eq_some_iff.1 ho
    obtain rfl : b = .round := List.mem_singleton.1 hb
    simp only [BracketEnd.sign] at hs
    rw [parensAfter, if_pos hs]
  have hcloses : ∀ {cl : Token} {b}, cl.endIn? [.round] = some (.closes b) →
      ∀ d, parensAfter d cl = d - 1 := by
    intro cl b hc d
    obtain ⟨hs, hb⟩ := Token.endIn?_eq_some_iff.1 hc
    obtain rfl : b = .round := List.mem_singleton.1 hb
    obtain ⟨kind, text⟩ := cl
    obtain ⟨rfl, rfl⟩ := Token.isSymbol_iff.1 hs
    rfl
  have hother : ∀ {tok : Token}, tok.endIn? [.round] = none → ∀ d, parensAfter d tok = d := by
    intro tok ht d
    have ho := isSymbol_false_of_none ht (.opens .round) (by simp [BracketEnd.kind])
    have hc := isSymbol_false_of_none ht (.closes .round) (by simp [BracketEnd.kind])
    simp only [BracketEnd.sign] at ho hc
    simp [parensAfter, ho, hc]
  induction h generalizing d toks with
  | nil => simp [Prod.map_def]
  | skip ht _ ih =>
    rw [List.cons_append, closeParens?, hother ht, if_neg (by omega), ih]
    simp [Prod.map_def, Function.comp_def]
  | wrap ho hc _ _ ihi ih =>
    rw [List.cons_append, List.append_assoc, List.cons_append, closeParens?, hopens ho,
      if_neg (by omega), ihi, closeParens?, hcloses hc, Nat.add_sub_cancel, if_neg (by omega), ih]
    simp [Prod.map_def, Function.comp_def]

/-! Tokens behind others -/

/-- Tokens that do not make an entry of a name that stands before them. -/
structure Blunt (next : List Token) : Prop where
  head : ∀ tok ∈ next.head?, tok.text ≠ ['=']
  solid : ∀ tok ∈ (next.dropWhile isWhite).head?, tok.text ≠ ['('] ∧ tok.text ≠ ['=']

theorem dropWhile_append_cases (p : Token → Bool) (toks next : List Token) :
    ((∀ tok ∈ toks, p tok = true) ∧ toks.dropWhile p = [] ∧ (toks ++ next).dropWhile p = next.dropWhile p) ∨
      ∃ tok more, toks.dropWhile p = tok :: more ∧ (toks ++ next).dropWhile p = tok :: (more ++ next) ∧
        (toks ++ next).takeWhile p = toks.takeWhile p := by
  induction toks with
  | nil => exact Or.inl ⟨by simp, rfl, rfl⟩
  | cons first toks ih =>
    cases hf : p first with
    | false => exact Or.inr ⟨first, toks, by simp [hf], by simp [hf], by simp [hf]⟩
    | true =>
      rcases ih with ⟨hall, hd, hn⟩ | ⟨tok, more, hd, hn, ht⟩
      · exact Or.inl ⟨by simpa [hf] using hall, by simpa [hf] using hd, by simpa [hf] using hn⟩
      · exact Or.inr ⟨tok, more, by simpa [hf] using hd, by simpa [hf] using hn, by simpa [hf] using ht⟩

theorem equalsSign?_blunt {next : List Token} (hb : Blunt next) (toks : List Token) :
    equalsSign? (toks ++ next) = (equalsSign? toks).map (Prod.map id (· ++ next)) := by
  unfold equalsSign?
  rcases dropWhile_append_cases isWhite toks next with ⟨-, hd, hn⟩ | ⟨tok, more, hd, hn, ht⟩
  · rw [hd, hn]
    cases hs : next.dropWhile isWhite with
    | nil => rfl
    | cons tok more => simp [(hb.solid tok (by simp [hs])).2]
  · rw [hd, hn, ht]
    have hhead : (more ++ next).head?.map Token.text ≠ some ['='] ↔ more.head?.map Token.text ≠ some ['='] := by
      cases more with
      | nil =>
        simp only [List.nil_append, List.head?_nil, Option.map_none, ne_eq, reduceCtorEq,
          not_false_eq_true, iff_true, Option.map_eq_some_iff, not_exists, not_and]
        exact fun tok htok => hb.head tok htok
      | cons first more => simp
    simp only [hhead]
    split <;> rfl

theorem closeParens?_behind {depth : Nat} {toks inside rest : List Token}
    (h : closeParens? depth toks = some (inside, rest)) (next : List Token) :
    closeParens? depth (toks ++ next) = some (inside, rest ++ next) := by
  induction toks generalizing depth inside rest with
  | nil => simp [closeParens?] at h
  | cons tok toks ih =>
    rw [closeParens?] at h
    rw [List.cons_append, closeParens?]
    split at h
    · rename_i hd
      obtain ⟨rfl, rfl⟩ := Prod.mk.inj (Option.some.inj h)
      rw [if_pos hd]
    · rename_i hd
      obtain ⟨⟨a, b⟩, hab, he⟩ := Option.map_eq_some_iff.1 h
      obtain ⟨rfl, rfl⟩ := Prod.mk.inj he
      rw [if_neg hd, ih hab]
      rfl

theorem nested_takeWhile_isWhite (kinds : List Bracket) (toks : List Token) :
    Nested kinds (toks.takeWhile isWhite) := by
  refine Nested.of_forall fun tok ht => Token.endIn?_of_kind ?_
  have hw := List.all_eq_true.1 (@List.all_takeWhile _ isWhite toks) tok ht
  simp only [isWhite, beq_iff_eq] at hw
  rw [hw]
  decide

theorem nested_of_equalsSign? (kinds : List Bracket) {toks sign rest : List Token}
    (h : equalsSign? toks = some (sign, rest)) : Nested kinds sign := by
  unfold equalsSign? at h
  split at h
  · rename_i eq more _
    split at h
    · rename_i heq
      obtain ⟨rfl, -⟩ := Prod.mk.inj (Option.some.inj h)
      have hnone : eq.endIn? kinds = none := by
        refine Token.endIn?_of_text fun e he => ?_
        rw [heq.1] at he
        revert he
        rcases e with b | b <;> cases b <;> decide
      exact (nested_takeWhile_isWhite kinds toks).append (.skip hnone .nil)
    · cases h
  · cases h

/-- An entry's equals sign stands behind its name or behind an argument in parentheses. -/
theorem entryKey?_eq_some {toks key sign rest : List Token}
    (h : entryKey? toks = some (key, sign, rest)) :
    (key = [] ∧ equalsSign? toks = some (sign, rest)) ∨
      ∃ op more inside behind, toks.dropWhile isWhite = op :: more ∧ op.text = ['('] ∧
        closeParens? 1 more = some (inside, behind) ∧ key = toks.takeWhile isWhite ++ op :: inside ∧
        equalsSign? behind = some (sign, rest) := by
  unfold entryKey? at h
  split at h
  · rename_i op more hd
    split at h
    · rename_i hop
      split at h
      · rename_i inside behind hclose
        obtain ⟨p, hp, he⟩ := Option.map_eq_some_iff.1 h
        obtain ⟨rfl, rfl⟩ := Prod.mk.inj he
        exact Or.inr ⟨op, more, inside, behind, hd, hop, hclose, rfl, hp⟩
      · cases h
    · obtain ⟨p, hp, he⟩ := Option.map_eq_some_iff.1 h
      obtain ⟨rfl, rfl⟩ := Prod.mk.inj he
      exact Or.inl ⟨rfl, hp⟩
  · cases h

/-- What follows a name makes an entry of it or not, if an argument that is not closed is not
closed behind it either. -/
theorem entryKey?_append_blunt {toks next : List Token} (hb : Blunt next)
    (hclose : ∀ op more, toks.dropWhile isWhite = op :: more → op.text = ['('] →
      closeParens? 1 (more ++ next) = (closeParens? 1 more).map (Prod.map id (· ++ next))) :
    entryKey? (toks ++ next) = (entryKey? toks).map fun p => (p.1, p.2.1, p.2.2 ++ next) := by
  have hsign : ∀ l, equalsSign? (l ++ next) = (equalsSign? l).map (Prod.map id (· ++ next)) :=
    equalsSign?_blunt hb
  unfold entryKey?
  rcases dropWhile_append_cases isWhite toks next with ⟨-, hd, hnext⟩ | ⟨tok, more, hd, hnext, ht⟩
  · rw [hd, hnext]
    cases hs : next.dropWhile isWhite with
    | nil => rfl
    | cons tok more =>
      have hnone : equalsSign? toks = none := by
        unfold equalsSign?
        rw [hd]
      simp [(hb.solid tok (by simp [hs])).1, hsign, hnone]
  · rw [hd, hnext, ht]
    by_cases hop : tok.text = ['(']
    · simp only [hop, if_true, hclose tok more hd hop]
      cases closeParens? 1 more with
      | none => rfl
      | some p =>
        simp only [Option.map_some, Prod.map, id, hsign, Option.map_map]
        rfl
    · simp only [hop, if_false, hsign, Option.map_map]
      rfl

section Lexed

variable {toks : List Token} (hn : Nested Bracket.all toks) (hl : ∀ tok ∈ toks, tok.Leads [])
include hn hl

/-- The argument that follows a name is closed. -/
theorem closeParens?_eq_some {op : Token} {more : List Token}
    (hd : toks.dropWhile isWhite = op :: more) (hop : op.text = ['(']) :
    ∃ inside rest, closeParens? 1 more = some (inside, rest) ∧
      Nested Bracket.all (op :: inside) ∧ Nested Bracket.all rest := by
  have hsplit : toks.takeWhile isWhite ++ (op :: more) = toks := by
    rw [← hd, List.takeWhile_append_dropWhile]
  rw [← hsplit, (nested_takeWhile_isWhite _ toks).append_iff] at hn
  have hsymbol := Token.eq_symbol_of_text (hl op (by rw [← hsplit]; simp)) (by decide) hop
  have hopens : op.endIn? Bracket.all = some (.opens .round) :=
    Token.endIn?_eq_some_iff.2 ⟨by rw [hsymbol]; rfl, by decide⟩
  obtain ⟨inside, cl, rest, rfl, hi, hc, hr⟩ := hn.of_opens hopens
  have hround := closeParens?_nested (hi.of_subset (by decide)) 0 (cl :: rest)
  have hclose : parensAfter 1 cl = 0 := by
    obtain ⟨kind, text⟩ := cl
    obtain ⟨rfl, rfl⟩ := Token.isSymbol_iff.1 (Token.endIn?_eq_some_iff.1 hc).1
    rfl
  rw [closeParens?, if_pos hclose] at hround
  exact ⟨inside ++ [cl], rest, hround, by simpa using Nested.wrap hopens hc hi .nil, hr⟩

theorem entryKey?_blunt {next : List Token} (hb : Blunt next) :
    entryKey? (toks ++ next) = (entryKey? toks).map fun p => (p.1, p.2.1, p.2.2 ++ next) := by
  refine entryKey?_append_blunt hb fun op more hd hop => ?_
  obtain ⟨inside, rest, hclose, -, -⟩ := closeParens?_eq_some hn hl hd hop
  rw [closeParens?_behind hclose next, hclose]
  rfl

/-- Before and behind the equals sign of an entry brackets are nested. -/
theorem nested_of_entryKey? {key sign rest : List Token} (h : entryKey? toks = some (key, sign, rest)) :
    Nested Bracket.all (key ++ sign) ∧ Nested Bracket.all rest := by
  have hrest : ∀ {l}, Nested Bracket.all l → equalsSign? l = some (sign, rest) →
      Nested Bracket.all sign ∧ Nested Bracket.all rest := by
    intro l hnl hs
    have hsign := nested_of_equalsSign? Bracket.all hs
    rw [← equalsSign?_append hs, hsign.append_iff] at hnl
    exact ⟨hsign, hnl⟩
  rcases entryKey?_eq_some h with ⟨rfl, hs⟩ | ⟨op, more, inside, behind, hd, hop, hclose, rfl, hs⟩
  · exact hrest hn hs
  · obtain ⟨inside', behind', hclose', hkey, hbehind⟩ := closeParens?_eq_some hn hl hd hop
    rw [hclose] at hclose'
    obtain ⟨rfl, rfl⟩ := Prod.mk.inj (Option.some.inj hclose')
    obtain ⟨hsign, hr⟩ := hrest hbehind hs
    exact ⟨((nested_takeWhile_isWhite _ toks).append hkey).append hsign, hr⟩

end Lexed

/-- Induction along the cuts. Where brackets are nested a run of tokens begins with a name that
is no entry's, with the name and the sign of an entry, with a token of no meaning, or with
a pair of brackets, and what follows is nested again. -/
theorem split_induction {motive : List Token → Prop} (nil : motive [])
    (word : ∀ {tok toks}, tok.endIn? Bracket.all = none → tok.kind = .identifier →
      (∀ t ∈ toks, t.Leads []) → entryKey? toks = none → Nested Bracket.all toks → motive toks →
      motive (tok :: toks))
    (entry : ∀ {tok toks key sign rest}, tok.kind = .identifier → (∀ t ∈ toks, t.Leads []) →
      entryKey? toks = some (key, sign, rest) → Nested Bracket.all toks → motive rest →
      motive (tok :: toks))
    (other : ∀ {tok toks}, tok.endIn? Bracket.all = none → tok.kind ≠ .identifier → motive toks →
      motive (tok :: toks))
    (pair : ∀ {op cl b inside toks}, op.endIn? Bracket.all = some (.opens b) →
      cl.endIn? Bracket.all = some (.closes b) → Nested Bracket.all inside → motive toks →
      motive (op :: (inside ++ cl :: toks)))
    {toks : List Token} (hn : Nested Bracket.all toks) (hl : ∀ tok ∈ toks, tok.Leads []) :
    motive toks := by
  -- The entry's value follows its sign at some distance, so the induction is on the length.
  induction hlen : toks.length using Nat.strongRecOn generalizing toks with
  | ind n ih =>
    subst hlen
    cases hn with
    | nil => exact nil
    | @skip tok toks ht hn =>
      have hl' : ∀ t ∈ toks, t.Leads [] := fun t hm => hl t (List.mem_cons_of_mem _ hm)
      by_cases hk : tok.kind = .identifier
      · cases he : entryKey? toks with
        | none => exact word ht hk hl' he hn (ih _ (by simp) hn hl' rfl)
        | some p =>
          obtain ⟨key, sign, rest⟩ := p
          have hparts := entryKey?_append he
          have hrest : rest.length < (tok :: toks).length := by
            rw [← hparts]
            simp
            omega
          have hlr : ∀ t ∈ rest, t.Leads [] := fun t hm => hl' t (by rw [← hparts]; simp [hm])
          exact entry hk hl' he hn (ih _ hrest (nested_of_entryKey? hn hl' he).2 hlr rfl)
      · exact other ht hk (ih _ (by simp) hn hl' rfl)
    | @wrap b op cl inside toks ho hc hi hn =>
      have hl' : ∀ t ∈ toks, t.Leads [] := fun t hm => hl t (by simp [hm])
      exact pair ho hc hi (ih _ (by simp; omega) hn hl' rfl)

/-- Entries and what stands before them, with those of more tokens behind. What stands before
the first of those belongs to the value of the last entry. -/
def glue (front : List Token) (entries : List Entry) (p : List Token × List Entry) :
    List Token × List Entry :=
  match entries with
  | [] => (front ++ p.1, p.2)
  | e :: es => (front, { e with value := (glue e.value es p).1 } :: (glue e.value es p).2)

theorem glue_append (more front : List Token) (entries : List Entry) (p : List Token × List Entry) :
    glue (more ++ front) entries p = (glue front entries p).map (more ++ ·) id := by
  cases entries with
  | nil => simp [glue]
  | cons e es => rfl

/-- Where brackets are nested a run of tokens has its own entries first. -/
theorem split_append_blunt {toks next : List Token} (hn : Nested Bracket.all toks)
    (hl : ∀ tok ∈ toks, tok.Leads []) (hb : Blunt next) :
    split 0 (toks ++ next) = glue (split 0 toks).1 (split 0 toks).2 (split 0 next) := by
  refine split_induction
    (motive := fun toks => split 0 (toks ++ next) = glue (split 0 toks).1 (split 0 toks).2 (split 0 next))
    ?nil ?word ?entry ?other ?pair hn hl
  case nil => simp [split, glue]
  case word =>
    intro tok toks _ hk hl he hn ih
    have hkey := entryKey?_blunt hn hl hb
    rw [he] at hkey
    rw [List.cons_append, split_word hk hkey, split_word hk he, ih]
    exact (glue_append [tok] _ _ _).symm
  case entry =>
    intro tok toks key sign rest hk hl he hn ih
    have hkey := entryKey?_blunt hn hl hb
    rw [he] at hkey
    rw [List.cons_append, split_entry hk hkey, split_entry hk he, ih]
    rfl
  case other =>
    intro tok toks ht hk ih
    rw [List.cons_append, split_other (by simp [hk]), split_other (by simp [hk]),
      depthAfter_of_none ht, ih]
    exact (glue_append [tok] _ _ _).symm
  case pair =>
    intro op cl b inside toks ho hc hi ih
    have hassoc : op :: (inside ++ cl :: toks) ++ next = op :: (inside ++ cl :: (toks ++ next)) := by simp
    rw [hassoc, split_pair ho hc hi, split_pair ho hc hi, ih]
    exact (glue_append (op :: (inside ++ [cl])) _ _ _).symm

/-! Entries by themselves -/

theorem blunt_nil : Blunt [] where
  head := by simp
  solid := by simp

theorem ne_of_identifier {tok : Token} {c : Char} (hk : tok.kind = .identifier) (hl : tok.Leads [])
    (hc : Token.isPlain c = true) : tok.text ≠ [c] := by
  intro ht
  rw [Token.eq_symbol_of_text hl hc ht] at hk
  cases hk

theorem blunt_of_identifier {tok : Token} (hk : tok.kind = .identifier) (hl : tok.Leads [])
    (toks : List Token) : Blunt (tok :: toks) where
  head := by simpa using ne_of_identifier hk hl (by decide)
  solid := by
    have hw : isWhite tok = false := by simp [isWhite, hk]
    simpa [hw] using ⟨ne_of_identifier hk hl (by decide), ne_of_identifier hk hl (by decide)⟩

theorem blunt_of_white {tok : Token} {next : List Token} (hk : tok.kind = .whitespace)
    (ht : tok.text ≠ ['=']) (hb : Blunt next) : Blunt (tok :: next) where
  head := by simpa using ht
  solid := by
    have hw : isWhite tok = true := by simp [isWhite, hk]
    simpa [hw] using hb.solid

theorem blunt_entries {toks : List Token} (hl : ∀ tok ∈ toks, tok.Leads []) {depth : Nat} :
    Blunt ((split depth toks).2.flatMap Entry.tokens) := by
  have hsplit := split_append depth toks
  have hkind : ∀ e ∈ (split depth toks).2, e.name.kind = .identifier := fun e he =>
    name_kind_of_mem_split he
  generalize (split depth toks).2 = entries at hsplit hkind ⊢
  cases entries with
  | nil => exact blunt_nil
  | cons e es =>
    refine blunt_of_identifier (hkind e (by simp)) (hl e.name ?_) _
    rw [← hsplit]
    simp [Entry.tokens]

structure Alone (e : Entry) : Prop where
  nested : Nested Bracket.all e.tokens
  split_tokens : split 0 e.tokens = ([], [e])

theorem alone_of_entryKey? {tok : Token} {toks key sign rest : List Token} (hn : Nested Bracket.all toks)
    (hl : ∀ t ∈ toks, t.Leads []) (hk : tok.kind = .identifier)
    (he : entryKey? toks = some (key, sign, rest)) (hfront : Nested Bracket.all (split 0 rest).1)
    (hsame : split 0 (split 0 rest).1 = ((split 0 rest).1, [])) :
    Alone ⟨tok, key, sign, (split 0 rest).1⟩ := by
  have hkeys := entryKey?_append he
  have hparts := split_append 0 rest
  have hvalue : Nested Bracket.all (key ++ (sign ++ (split 0 rest).1)) := by
    rw [← List.append_assoc]
    exact (nested_of_entryKey? hn hl he).1.append hfront
  have hcut : toks = key ++ (sign ++ (split 0 rest).1) ++ (split 0 rest).2.flatMap Entry.tokens := by
    rw [List.append_assoc, List.append_assoc, hparts, hkeys]
  have hlr : ∀ t ∈ rest, t.Leads [] := fun t hm => hl t (by rw [← hkeys]; simp [hm])
  have hlv : ∀ t ∈ key ++ (sign ++ (split 0 rest).1), t.Leads [] := fun t hm =>
    hl t (by rw [hcut]; exact List.mem_append_left _ hm)
  have hkey : entryKey? (key ++ (sign ++ (split 0 rest).1)) = some (key, sign, (split 0 rest).1) := by
    have hb := entryKey?_blunt hvalue hlv (@blunt_entries rest hlr 0)
    rw [← hcut, he] at hb
    obtain ⟨⟨a, b, c⟩, hc, hab⟩ := Option.map_eq_some_iff.1 hb.symm
    simp only [Prod.mk.injEq] at hab
    obtain ⟨rfl, rfl, hrest⟩ := hab
    rw [hc, List.append_cancel_right (hrest.trans hparts.symm)]
  refine ⟨.skip (Token.endIn?_of_kind (by rw [hk]; decide)) hvalue, ?_⟩
  rw [Entry.tokens, split_entry hk hkey, hsame]

/-- The cuts of tokens stay as they are when they are made in one piece only: each entry by
itself is that entry alone, and there is none in what stands before them. -/
structure CutsApart (toks : List Token) : Prop where
  front_nested : Nested Bracket.all (split 0 toks).1
  split_front : split 0 (split 0 toks).1 = ((split 0 toks).1, [])
  alone : ∀ e ∈ (split 0 toks).2, Alone e

theorem cutsApart {toks : List Token} (hn : Nested Bracket.all toks)
    (hl : ∀ tok ∈ toks, tok.Leads []) : CutsApart toks := by
  refine split_induction (motive := CutsApart) ?nil ?word ?entry ?other ?pair hn hl
  case nil => exact ⟨by simpa [split] using Nested.nil, by simp [split], by simp [split]⟩
  case word =>
    rintro tok toks ht hk hl he _ ⟨hfront, hsame, hentries⟩
    have hparts := split_append 0 toks
    have hlf : ∀ t ∈ (split 0 toks).1, t.Leads [] := fun t hm => hl t (by rw [← hparts]; simp [hm])
    have hkey := entryKey?_blunt hfront hlf (@blunt_entries toks hl 0)
    rw [hparts, he] at hkey
    have hsplit := split_word hk he
    refine ⟨?_, ?_, ?_⟩ <;> rw [hsplit]
    · exact .skip ht hfront
    · show split 0 (tok :: (split 0 toks).1) = (tok :: (split 0 toks).1, [])
      rw [split_word hk (Option.map_eq_none_iff.1 hkey.symm), hsame]
      rfl
    · exact hentries
  case entry =>
    rintro tok toks key sign rest hk hl he hn ⟨hfront, hsame, hentries⟩
    have hsplit := split_entry hk he
    refine ⟨?_, ?_, ?_⟩ <;> rw [hsplit]
    · exact .nil
    · simp [split]
    · intro e hm
      rcases List.mem_cons.1 hm with rfl | hm
      · exact alone_of_entryKey? hn hl hk he hfront hsame
      · exact hentries e hm
  case other =>
    rintro tok toks ht hk ⟨hfront, hsame, hentries⟩
    have hsplit := @split_other 0 tok toks (by simp [hk])
    rw [depthAfter_of_none ht] at hsplit
    refine ⟨?_, ?_, ?_⟩ <;> rw [hsplit]
    · exact .skip ht hfront
    · show split 0 (tok :: (split 0 toks).1) = (tok :: (split 0 toks).1, [])
      rw [split_other (by simp [hk]), depthAfter_of_none ht, hsame]
      rfl
    · exact hentries
  case pair =>
    rintro op cl b inside toks ho hc hi ⟨hfront, hsame, hentries⟩
    have hsplit := split_pair ho hc hi toks
    have hassoc : op :: (inside ++ [cl]) ++ (split 0 toks).1 =
        op :: (inside ++ cl :: (split 0 toks).1) := by simp
    rw [Prod.map, hassoc] at hsplit
    refine ⟨?_, ?_, ?_⟩ <;> rw [hsplit]
    · exact .wrap ho hc hi hfront
    · rw [split_pair ho hc hi, hsame, Prod.map, hassoc]
      rfl
    · exact hentries

theorem exists_sign_of_entryKey? {toks key sign rest : List Token}
    (h : entryKey? toks = some (key, sign, rest)) : ∃ tok ∈ toks, tok.text = ['='] := by
  have hsign : ∀ {l}, equalsSign? l = some (sign, rest) → ∃ tok ∈ sign, tok.text = ['='] := by
    intro l hs
    unfold equalsSign? at hs
    split at hs
    · split at hs
      · rename_i eq _ _ heq
        obtain ⟨rfl, -⟩ := Prod.mk.inj (Option.some.inj hs)
        exact ⟨eq, by simp, heq.1⟩
      · cases hs
    · cases hs
  obtain ⟨tok, ht, heq⟩ : ∃ tok ∈ sign, tok.text = ['='] := by
    rcases entryKey?_eq_some h with ⟨-, hs⟩ | ⟨op, more, inside, behind, -, -, -, -, hs⟩
    · exact hsign hs
    · exact hsign hs
  exact ⟨tok, by rw [← entryKey?_append h]; simp [ht], heq⟩

/-- Tokens without an equals sign have no entries. -/
theorem split_of_no_sign {toks : List Token} (h : ∀ tok ∈ toks, tok.text ≠ ['=']) (depth : Nat) :
    split depth toks = (toks, []) := by
  induction toks generalizing depth with
  | nil => simp [split]
  | cons tok toks ih =>
    have hrest : ∀ t ∈ toks, t.text ≠ ['='] := fun t hm => h t (List.mem_cons_of_mem _ hm)
    by_cases hk : depth = 0 ∧ tok.kind = .identifier
    · obtain ⟨rfl, hk⟩ := hk
      have hkey : entryKey? toks = none := by
        cases he : entryKey? toks with
        | none => rfl
        | some p =>
          obtain ⟨t, ht, heq⟩ := exists_sign_of_entryKey? he
          exact absurd heq (hrest t ht)
      rw [split_word hk hkey, ih hrest]
      rfl
    · rw [split_other hk, ih hrest]
      rfl

end AttributeBlock
end OpenGrammar
