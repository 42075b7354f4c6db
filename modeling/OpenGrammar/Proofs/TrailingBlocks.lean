import OpenGrammar.Proofs.Brackets
import OpenGrammar.Proofs.TokenBoundaries

/-! The block that ends a body. The walk back over the tokens of a body passes over pairs of
braces that are closed, so that it stops at the brace that the last closing one matches. That
closing brace is the last token, unless a comment or a literal behind it hides that it is not. -/
namespace OpenGrammar
namespace Token

/-- Whether a token takes what comes behind it into itself, as a comment on its line does, and
a literal or a block comment without its end. -/
def runsOn (tok : Token) : Bool := tok.kind == .lineComment || !tok.isClosed

theorem runsOn_of_last_brace {tok : Token} (h : Shape tok)
    (hk : tok.kind = .literal ∨ tok.kind = .blockComment) (hb : tok.text.getLast? = some '}') :
    tok.runsOn = true := by
  by_contra hruns
  simp only [runsOn, Bool.or_eq_true, not_or, Bool.not_eq_true', Bool.not_eq_false] at hruns
  obtain ⟨c, hc, hend⟩ := last_of_isClosed h hk hruns.2
  obtain rfl : '}' = c := by simpa [hb] using hc
  exact absurd hend (by decide)

/-- A token that ends in a closing brace is that brace, or it runs on. -/
theorem isSymbol_or_runsOn {tok : Token} (h : Shape tok) (hb : tok.text.getLast? = some '}') :
    tok.isSymbol '}' = true ∨ tok.runsOn = true := by
  have hmem : '}' ∈ tok.text := List.mem_of_getLast? hb
  cases h with
  | @identifier c cs hc hcs =>
    rcases List.mem_cons.1 hmem with rfl | hm
    · exact absurd hc (by decide)
    · exact absurd (hcs _ hm) (by decide)
  | @number c cs _ hc hcs =>
    rcases List.mem_cons.1 hmem with rfl | hm
    · exact absurd hc (by decide)
    · exact absurd (hcs _ hm) (by decide)
  | literal hq hl => exact Or.inr (runsOn_of_last_brace (.literal hq hl) (Or.inl rfl) hb)
  | lineComment => exact Or.inr rfl
  | blockComment hl => exact Or.inr (runsOn_of_last_brace (.blockComment hl) (Or.inr rfl) hb)
  | whitespace hcs => exact absurd (hcs _ hmem) (by decide)
  | slash => simp at hmem
  | @symbol c _ =>
    obtain rfl : '}' = c := by simpa using hmem
    exact Or.inl rfl

end Token

namespace AttributeBlock

open Token (spell tokenize Nested)

/-! The walk back -/

theorem openingBrace?_closes {tok : Token} (h : tok.endIn? [.curly] = some (.closes .curly))
    (depth : Nat) (behind toks : List Token) :
    openingBrace? depth behind (tok :: toks) = openingBrace? (depth + 1) (tok :: behind) toks := by
  have hcl : tok.isSymbol '}' = true := (Token.endIn?_eq_some_iff.1 h).1
  rw [openingBrace?.eq_def]
  simp [hcl]

theorem openingBrace?_opens {tok : Token} (h : tok.endIn? [.curly] = some (.opens .curly))
    (depth : Nat) (behind toks : List Token) :
    openingBrace? depth behind (tok :: toks) =
      match depth with
      | 0 => none
      | 1 => some (behind, toks)
      | d + 2 => openingBrace? (d + 1) (tok :: behind) toks := by
  obtain ⟨kind, text⟩ := tok
  obtain ⟨rfl, rfl⟩ := Token.isSymbol_iff.1 (Token.endIn?_eq_some_iff.1 h).1
  rw [openingBrace?.eq_def]
  rfl

theorem openingBrace?_other {tok : Token} (h : tok.endIn? [.curly] = none)
    (depth : Nat) (behind toks : List Token) :
    openingBrace? depth behind (tok :: toks) = openingBrace? depth (tok :: behind) toks := by
  have hne : ∀ e : BracketEnd, e.kind = .curly → tok.isSymbol e.sign = false := by
    intro e he
    by_contra hs
    rw [Token.endIn?_eq_some_iff.2 ⟨by simpa using hs, by simp [he]⟩] at h
    cases h
  rw [openingBrace?.eq_def]
  have hcl : tok.isSymbol '}' = false := hne (.closes .curly) rfl
  have hop : tok.isSymbol '{' = false := hne (.opens .curly) rfl
  simp [hcl, hop]

theorem brace_cases (tok : Token) :
    tok.endIn? [.curly] = none ∨ tok.endIn? [.curly] = some (.opens .curly) ∨
      tok.endIn? [.curly] = some (.closes .curly) := by
  cases h : tok.endIn? [.curly] with
  | none => exact Or.inl rfl
  | some e =>
    have hk := (Token.endIn?_eq_some_iff.1 h).2
    cases e <;> simp_all [BracketEnd.kind]

/-- Behind a closing brace the walk goes through braces that are nested. -/
theorem openingBrace?_nested {inside : List Token} (h : Nested [.curly] inside) (d : Nat)
    (behind toks : List Token) :
    openingBrace? (d + 1) behind (inside.reverse ++ toks) =
      openingBrace? (d + 1) (inside ++ behind) toks := by
  induction h generalizing d behind toks with
  | nil => rfl
  | skip ht _ ih =>
    rw [List.reverse_cons, List.append_assoc, ih, List.singleton_append, openingBrace?_other ht]
    rfl
  | @wrap b op cl inside rest ho hc _ _ ihi ih =>
    obtain rfl : b = .curly := List.mem_singleton.1 (Token.endIn?_eq_some_iff.1 ho).2
    have hrev : (op :: (inside ++ cl :: rest)).reverse ++ toks =
        rest.reverse ++ (cl :: (inside.reverse ++ (op :: toks))) := by simp
    rw [hrev, ih, openingBrace?_closes hc, ihi, openingBrace?_opens ho]
    simp

theorem openingBrace?_succ_eq_some {d : Nat} {behind toks inside before : List Token}
    (h : openingBrace? (d + 1) behind toks = some (inside, before)) :
    ∃ op front rest, toks = front.reverse ++ op :: rest ∧ Nested [.curly] front ∧
      op.endIn? [.curly] = some (.opens .curly) ∧
      openingBrace? (d + 1) (front ++ behind) (op :: rest) = some (inside, before) := by
  induction hn : toks.length using Nat.strongRecOn generalizing d behind toks with
  | ind n ih =>
    cases toks with
    | nil => simp [openingBrace?] at h
    | cons tok toks =>
      simp only [List.length_cons] at hn
      rcases brace_cases tok with ht | ht | ht
      · rw [openingBrace?_other ht] at h
        obtain ⟨op, front, rest, rfl, hf, ho, hr⟩ := ih _ (by omega) h rfl
        refine ⟨op, front ++ [tok], rest, by simp, hf.append (.skip ht .nil), ho, ?_⟩
        simpa using hr
      · exact ⟨tok, [], toks, rfl, .nil, ht, h⟩
      · -- the inner pair first, then what stands before it
        rw [openingBrace?_closes ht] at h
        obtain ⟨op, inner, rest, rfl, hi, ho, hr⟩ := ih _ (by omega) h rfl
        rw [openingBrace?_opens ho] at hr
        simp only [List.length_append, List.length_cons, List.length_reverse] at hn
        obtain ⟨op', front, rest', rfl, hf, ho', hr'⟩ := ih _ (by omega) hr rfl
        have hpair : Nested [.curly] (op :: (inner ++ [tok])) := .wrap ho ht hi .nil
        refine ⟨op', front ++ op :: (inner ++ [tok]), rest', by simp, hf.append hpair, ho', ?_⟩
        simpa using hr'

/-- The last closing brace of a run of tokens and the one that it matches, with what stands
before both, between them and behind them. -/
structure LastPair (toks : List Token) where
  before : List Token
  op : Token
  inside : List Token
  cl : Token
  tail : List Token
  parts : toks = before ++ op :: (inside ++ cl :: tail)
  opens : op.isSymbol '{' = true
  closes : cl.isSymbol '}' = true
  nested : Nested [.curly] inside
  last : ∀ tok ∈ tail, tok.endIn? [.curly] = none

def LastPair.behind {toks : List Token} (pair : LastPair toks) : List Token :=
  pair.inside ++ pair.cl :: pair.tail

theorem openingBrace?_zero_eq_some {behind toks inner before : List Token}
    (h : openingBrace? 0 behind toks = some (inner, before)) :
    ∃ cl tail rest, toks = tail.reverse ++ cl :: rest ∧ (∀ tok ∈ tail, tok.endIn? [.curly] = none) ∧
      cl.endIn? [.curly] = some (.closes .curly) ∧
      openingBrace? 1 (cl :: (tail ++ behind)) rest = some (inner, before) := by
  induction toks generalizing behind with
  | nil => simp [openingBrace?] at h
  | cons tok toks ih =>
    rcases brace_cases tok with ht | ht | ht
    · rw [openingBrace?_other ht] at h
      obtain ⟨cl, tail, rest, rfl, hl, hc, hr⟩ := ih h
      refine ⟨cl, tail ++ [tok], rest, by simp, ?_, hc, by simpa using hr⟩
      intro other ho
      rcases List.mem_append.1 ho with ho | ho
      · exact hl other ho
      · rwa [List.mem_singleton.1 ho]
    · rw [openingBrace?_opens ht] at h
      cases h
    · rw [openingBrace?_closes ht] at h
      exact ⟨tok, [], toks, rfl, by simp, ht, h⟩

theorem openingBrace?_tail {tail : List Token} (h : ∀ tok ∈ tail, tok.endIn? [.curly] = none)
    (depth : Nat) (behind toks : List Token) :
    openingBrace? depth behind (tail.reverse ++ toks) = openingBrace? depth (tail ++ behind) toks := by
  induction tail generalizing behind toks with
  | nil => rfl
  | cons tok tail ih =>
    rw [List.reverse_cons, List.append_assoc, ih fun t ht => h t (List.mem_cons_of_mem _ ht),
      List.singleton_append, openingBrace?_other (h tok (by simp))]
    rfl

/-- The walk back over a run of tokens finds their last pair of braces. -/
theorem openingBrace?_eq_some_iff {toks behind before : List Token} :
    openingBrace? 0 [] toks.reverse = some (behind, before) ↔
      ∃ pair : LastPair toks, pair.behind = behind ∧ pair.before.reverse = before := by
  constructor
  · intro h
    obtain ⟨cl, tail, rest, hrest, hl, hc, hwalk⟩ := openingBrace?_zero_eq_some h
    obtain ⟨op, inside, front, rfl, hi, ho, hstop⟩ := openingBrace?_succ_eq_some hwalk
    rw [openingBrace?_opens ho] at hstop
    obtain ⟨rfl, rfl⟩ := Prod.mk.inj (Option.some.inj hstop)
    have hparts : toks = front.reverse ++ op :: (inside ++ cl :: tail) := by
      have hrev := congrArg List.reverse hrest
      simpa using hrev
    refine ⟨⟨front.reverse, op, inside, cl, tail, hparts, (Token.endIn?_eq_some_iff.1 ho).1,
      (Token.endIn?_eq_some_iff.1 hc).1, hi, hl⟩, by simp [LastPair.behind], by simp⟩
  · rintro ⟨⟨before, op, inside, cl, tail, rfl, ho, hc, hi, hl⟩, rfl, rfl⟩
    have hop : op.endIn? [.curly] = some (.opens .curly) :=
      Token.endIn?_eq_some_iff.2 ⟨ho, by simp [BracketEnd.kind]⟩
    have hcl : cl.endIn? [.curly] = some (.closes .curly) :=
      Token.endIn?_eq_some_iff.2 ⟨hc, by simp [BracketEnd.kind]⟩
    have hrev : (before ++ op :: (inside ++ cl :: tail)).reverse =
        tail.reverse ++ cl :: (inside.reverse ++ op :: before.reverse) := by simp
    rw [hrev, openingBrace?_tail hl, openingBrace?_closes hcl, openingBrace?_nested hi,
      openingBrace?_opens hop]
    simp [LastPair.behind]

/-! The block of a body -/

/-- The body ends in a block: its last token is a closing brace, and `inner` is what stands
between that and the brace which it matches. The production stands before both. -/
def EndsInBlock (body production inner : Text) : Prop :=
  ∃ before op cl, tokenize (Text.trimEnd body) = before ++ op :: (tokenize inner ++ [cl]) ∧
    op.isSymbol '{' = true ∧ cl.isSymbol '}' = true ∧ Nested [.curly] (tokenize inner) ∧
    production = Text.trimEnd (spell before)

/-- What stands behind the last pair of braces ends in a closing brace that is no token: the end
of a line comment, or of a literal or a block comment without its end. -/
def LastPair.HidesBrace {toks : List Token} (pair : LastPair toks) : Prop :=
  ∃ tok ∈ pair.tail.getLast?, tok.runsOn = true ∧ tok.text.getLast? = some '}'

def EndsInHiddenBrace (body production inner : Text) : Prop :=
  ∃ pair : LastPair (tokenize (Text.trimEnd body)), pair.HidesBrace ∧
    production = Text.trimEnd (spell pair.before) ∧ inner ++ ['}'] = spell pair.behind

theorem endsInBlock_iff {body production inner : Text} :
    EndsInBlock body production inner ↔
      ∃ pair : LastPair (tokenize (Text.trimEnd body)), pair.tail = [] ∧
        production = Text.trimEnd (spell pair.before) ∧ inner = spell pair.inside := by
  constructor
  · rintro ⟨before, op, cl, hparts, ho, hc, hn, rfl⟩
    exact ⟨⟨before, op, tokenize inner, cl, [], hparts, ho, hc, hn, by simp⟩, rfl, rfl, by simp⟩
  · rintro ⟨⟨before, op, inside, cl, tail, hparts, ho, hc, hn, -⟩, rfl, rfl, rfl⟩
    have hinside : tokenize (spell inside) = inside := by
      apply Token.tokenize_spell_of_tokenize (a := before ++ [op]) (c := [cl])
      simpa using hparts
    rw [← hinside] at hparts hn
    exact ⟨before, op, cl, hparts, ho, hc, hn, rfl⟩

theorem LastPair.getLast?_eq {t : Text} (pair : LastPair (tokenize t)) :
    t.getLast? = (spell pair.behind).getLast? := by
  have hcl := (Token.isSymbol_iff.1 pair.closes).2
  have hne : spell pair.behind ≠ [] := by simp [LastPair.behind, Token.spell_append, hcl]
  have ht : t = spell (pair.before ++ [pair.op]) ++ spell pair.behind := by
    have hs := congrArg spell pair.parts
    rw [Token.spell_tokenize] at hs
    simpa [LastPair.behind, Token.spell_append] using hs
  conv_lhs => rw [ht]
  exact List.getLast?_append_of_ne_nil _ hne

/-- The text behind a pair ends in a closing brace if nothing stands behind the pair, and
otherwise only if what stands there hides one. -/
theorem LastPair.getLast?_behind_iff {t : Text} (pair : LastPair (tokenize t)) :
    (spell pair.behind).getLast? = some '}' ↔ pair.tail = [] ∨ pair.HidesBrace := by
  have hcl := (Token.isSymbol_iff.1 pair.closes).2
  rcases List.eq_nil_or_concat' pair.tail with htail | ⟨tail, tok, htail⟩
  · have hlast : (spell pair.behind).getLast? = some '}' := by
      simp [LastPair.behind, htail, Token.spell_append, hcl]
    simp [hlast, htail]
  · have hlead : tok.Leads [] := Token.leads_of_mem_tokenize (t := t) (by rw [pair.parts, htail]; simp)
    have hlast : (spell pair.behind).getLast? = tok.text.getLast? := by
      have hbehind : pair.behind = (pair.inside ++ pair.cl :: tail) ++ [tok] := by
        simp [LastPair.behind, htail]
      rw [hbehind]
      exact Token.getLast?_spell_concat hlead.ne_nil
    have hnone : tok.endIn? [.curly] = none := pair.last tok (by simp [htail])
    have hruns : tok.text.getLast? = some '}' → tok.runsOn = true := by
      intro hb
      rcases Token.isSymbol_or_runsOn (Token.leads_nil_iff.1 hlead) hb with hs | hr
      · rw [Token.endIn?_eq_some_iff (e := .closes .curly) |>.2 ⟨hs, by simp [BracketEnd.kind]⟩] at hnone
        cases hnone
      · exact hr
    rw [hlast]
    simpa [LastPair.HidesBrace, htail] using hruns

theorem splitBody_eq_some_iff_pair {body production inner : Text} :
    splitBody body = (production, some inner) ↔
      ∃ pair : LastPair (tokenize (Text.trimEnd body)), (pair.tail = [] ∨ pair.HidesBrace) ∧
        production = Text.trimEnd (spell pair.before) ∧ inner ++ ['}'] = spell pair.behind := by
  have hinner : ∀ pair : LastPair (tokenize (Text.trimEnd body)),
      (spell pair.behind).getLast? = some '}' →
        (spell pair.behind).dropLast ++ ['}'] = spell pair.behind := fun pair hlast =>
    List.dropLast_append_getLast? _ hlast
  unfold splitBody
  simp only
  constructor
  · intro h
    split at h
    · rename_i hlast
      split at h
      · rename_i behind before hwalk
        obtain ⟨pair, rfl, rfl⟩ := openingBrace?_eq_some_iff.1 hwalk
        obtain ⟨rfl, hi⟩ := Prod.mk.inj h
        rw [pair.getLast?_eq] at hlast
        refine ⟨pair, pair.getLast?_behind_iff.1 hlast, by simp, ?_⟩
        rw [← Option.some.inj hi, hinner pair hlast]
      · cases (Prod.mk.inj h).2
    · cases (Prod.mk.inj h).2
  · rintro ⟨pair, htail, rfl, hi⟩
    have hwalk := openingBrace?_eq_some_iff.2 ⟨pair, rfl, rfl⟩
    have hlast := pair.getLast?_behind_iff.2 htail
    rw [← pair.getLast?_eq] at hlast
    simp [hlast, hwalk, ← hi]

theorem splitBody_eq_some_iff {body production inner : Text} :
    splitBody body = (production, some inner) ↔
      EndsInBlock body production inner ∨ EndsInHiddenBrace body production inner := by
  have hbehind : ∀ pair : LastPair (tokenize (Text.trimEnd body)), pair.tail = [] →
      (inner ++ ['}'] = spell pair.behind ↔ inner = spell pair.inside) := by
    intro pair htail
    simp [LastPair.behind, htail, Token.spell_append, (Token.isSymbol_iff.1 pair.closes).2]
  rw [splitBody_eq_some_iff_pair, endsInBlock_iff]
  constructor
  · rintro ⟨pair, htail | hh, hp, hi⟩
    · exact Or.inl ⟨pair, htail, hp, (hbehind pair htail).1 hi⟩
    · exact Or.inr ⟨pair, hh, hp, hi⟩
  · rintro (⟨pair, htail, hp, hi⟩ | ⟨pair, hh, hp, hi⟩)
    · exact ⟨pair, Or.inl htail, hp, (hbehind pair htail).2 hi⟩
    · exact ⟨pair, Or.inr hh, hp, hi⟩

theorem splitBody_none_or_some (body : Text) :
    splitBody body = (Text.trimEnd body, none) ∨
      ∃ production inner, splitBody body = (production, some inner) := by
  rcases splitBody_cases body with h | ⟨before, brace, inside, -, h⟩
  · exact Or.inl h
  · exact Or.inr ⟨_, _, h⟩

theorem EndsInBlock.not_hidden {body production inner p i : Text}
    (h : EndsInBlock body production inner) : ¬ EndsInHiddenBrace body p i := by
  rintro ⟨pair, ⟨tok, htok, hruns, -⟩, -, -⟩
  obtain ⟨before, op, cl, hparts, -, hc, -, -⟩ := h
  obtain ⟨tail, htail⟩ := List.getLast?_eq_some_iff.1 htok
  have hlast : (tokenize (Text.trimEnd body)).getLast? = some tok := by
    rw [pair.parts, htail]
    simp [List.getLast?_cons]
  rw [hparts] at hlast
  obtain rfl : cl = tok := by simpa [List.getLast?_cons] using hlast
  obtain ⟨kind, text⟩ := cl
  obtain ⟨rfl, rfl⟩ := Token.isSymbol_iff.1 hc
  cases hruns

theorem EndsInHiddenBrace.not_nested {body production inner : Text}
    (h : EndsInHiddenBrace body production inner) : ¬ Nested [.curly] (tokenize inner) := by
  obtain ⟨pair, ⟨tok, htok, hruns, hbrace⟩, -, hinner⟩ := h
  obtain ⟨tail, htail⟩ := List.getLast?_eq_some_iff.1 htok
  obtain ⟨covered, hcovered⟩ := List.getLast?_eq_some_iff.1 hbrace
  have hlead : tok.Leads [] :=
    Token.leads_of_mem_tokenize (t := Text.trimEnd body) (by rw [pair.parts, htail]; simp)
  have hne : covered ≠ [] := by
    rintro rfl
    rw [Token.eq_symbol_of_text hlead (by decide) hcovered] at hruns
    cases hruns
  have hrest : inner = spell (pair.inside ++ [pair.cl]) ++ (spell tail ++ covered) := by
    rw [LastPair.behind, htail] at hinner
    have hlast : inner ++ ['\x7d'] =
        spell (pair.inside ++ [pair.cl]) ++ (spell tail ++ covered) ++ ['\x7d'] := by
      rw [hinner]
      simp [Token.spell_append, hcovered]
    exact List.append_cancel_right hlast
  have hparted : Token.Parted (pair.inside ++ [pair.cl]) (spell tail ++ covered) := by
    have hp := Token.parted_tokenize (Text.trimEnd body)
    have hassoc : pair.before ++ pair.op :: (pair.inside ++ pair.cl :: pair.tail) =
        (pair.before ++ [pair.op]) ++ ((pair.inside ++ [pair.cl]) ++ (tail ++ [tok])) := by simp [htail]
    rw [pair.parts, hassoc] at hp
    have hfront := Token.parted_iff.1 (Token.parted_append.1 (Token.parted_append.1 hp).2).1
    refine Token.parted_iff.2 ⟨hfront.1, fun other ho => ?_⟩
    have hstops := hfront.2 other ho
    have hspell : spell (tail ++ [tok]) ++ [] = spell tail ++ covered ++ ['\x7d'] := by
      simp [Token.spell_append, hcovered]
    rwa [hspell, Token.stops_append_iff (by simp [hne])] at hstops
  intro hn
  rw [hrest, Token.tokenize_of_parted hparted, List.append_assoc, pair.nested.append_iff,
    Token.nested_iff_balances] at hn
  have hcl : pair.cl.endIn? [.curly] = some (.closes .curly) :=
    Token.endIn?_eq_some_iff.2 ⟨pair.closes, by simp [BracketEnd.kind]⟩
  simp [Token.balances, hcl] at hn

/-- A body is split at the block that it ends in. The split takes nothing else for a block
exactly if the body does not end in a hidden brace. -/
theorem splitBody_some_iff_endsInBlock_iff (body : Text) :
    (∀ production inner, splitBody body = (production, some inner) ↔
      EndsInBlock body production inner ∨ EndsInHiddenBrace body production inner) ∧
    (splitBody body = (Text.trimEnd body, none) ∨
      ∃ production inner, splitBody body = (production, some inner)) ∧
    ((∀ production inner, splitBody body = (production, some inner) ↔
      EndsInBlock body production inner) ↔
        ¬ ∃ production inner, EndsInHiddenBrace body production inner) := by
  refine ⟨fun _ _ => splitBody_eq_some_iff, splitBody_none_or_some body, ?_⟩
  constructor
  · rintro h ⟨p, i, hh⟩
    exact ((h p i).1 (splitBody_eq_some_iff.2 (Or.inr hh))).not_hidden hh
  · intro hno p i
    rw [splitBody_eq_some_iff]
    exact or_iff_left fun hh => hno ⟨p, i, hh⟩

/-- The brace that ends a comment makes a block of the braces before it, which end nothing. -/
theorem splitBody_comment_brace :
    splitBody "x \x7b pin=1 \x7d // \x7d".toList = ("x".toList, some " pin=1 \x7d // ".toList) ∧
      ¬ ∃ production inner, EndsInBlock "x \x7b pin=1 \x7d // \x7d".toList production inner := by
  refine ⟨by decide +kernel, ?_⟩
  rintro ⟨p, i, before, op, cl, hparts, -, hc, -, -⟩
  have hlast := congrArg List.getLast? hparts
  have hcomment : (tokenize (Text.trimEnd "x \x7b pin=1 \x7d // \x7d".toList)).getLast? =
      some ⟨.lineComment, "// \x7d".toList⟩ := by decide +kernel
  rw [hcomment] at hlast
  obtain rfl : ⟨.lineComment, "// \x7d".toList⟩ = cl := by
    simpa [List.getLast?_cons] using hlast
  cases hc

end AttributeBlock
end OpenGrammar
