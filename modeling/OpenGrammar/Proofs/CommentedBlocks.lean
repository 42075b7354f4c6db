import OpenGrammar.Proofs.EntryTexts
import OpenGrammar.Proofs.TrailingBlocks

/-! Blocks with a comment behind them. If the comment ends in a closing brace, that brace is taken
for the end of the block, and the block grows up to it: its own closing brace and the comment
become part of its last entry. -/
namespace OpenGrammar
namespace Token

/-! Tokens of a text with a comment behind it -/

/-- Blank characters behind a text are tokens of their own, but for those at their start that the
last token of the text takes into itself. -/
theorem tokenize_append_allBlank {t gap : Text} {init : List Token} {tok : Token}
    (ht : tokenize t = init ++ [tok]) (hgap : Text.allBlank gap = true) :
    ∃ grown rest, (grown = [] ∨ tok.kind ≠ .symbol) ∧ (∀ r ∈ rest, Text.allBlank r.text = true) ∧
      tokenize (t ++ gap) = init ++ ⟨tok.kind, tok.text ++ grown⟩ :: rest := by
  induction gap using List.reverseRecOn with
  | nil => exact ⟨[], [], Or.inl rfl, by simp, by simpa using ht⟩
  | append_singleton gap c ih =>
    simp only [Text.allBlank, List.all_append, Bool.and_eq_true, List.all_cons, List.all_nil,
      Bool.and_true] at hgap
    obtain ⟨grown, rest, hgrown, hrest, he⟩ := ih hgap.1
    rw [← List.append_assoc]
    rcases tokenize_concat_blank (t ++ gap) hgap.2 with ⟨kind, hnew⟩ | ⟨init', last, hinit, hshape, hc, hlast⟩
    · refine ⟨grown, rest ++ [⟨kind, [c]⟩], hgrown, fun r hr => ?_, by rw [hnew, he]; simp⟩
      rcases List.mem_append.1 hr with hr | hr
      · exact hrest r hr
      · rw [List.mem_singleton.1 hr]
        simp [Text.allBlank, hgap.2]
    · have hkind := (hshape.concat (Text.isIdentPart_of_isBlank hgap.2)
        ⟨Text.ne_of_isBlank hgap.2 (by decide), Text.ne_of_isBlank hgap.2 (by decide)⟩ hc).2
      rw [he] at hinit
      rcases List.eq_nil_or_concat' rest with rfl | ⟨rest, r, rfl⟩
      · obtain ⟨rfl, hl⟩ := List.append_inj' hinit rfl
        obtain rfl := (List.cons.inj hl).1
        exact ⟨grown ++ [c], [], Or.inr hkind.2.2, by simp, by rw [hlast]; simp⟩
      · rw [← List.cons_append, ← List.append_assoc] at hinit
        obtain ⟨rfl, hl⟩ := List.append_inj' hinit rfl
        obtain rfl := (List.cons.inj hl).1
        refine ⟨grown, rest ++ [⟨r.kind, r.text ++ [c]⟩], hgrown, fun r' hr => ?_, by rw [hlast]; simp⟩
        rcases List.mem_append.1 hr with hr | hr
        · exact hrest r' (List.mem_append_left _ hr)
        · have hblank := hrest r (by simp)
          rw [List.mem_singleton.1 hr]
          simp only [Text.allBlank, List.all_append, Bool.and_eq_true] at hblank ⊢
          simp [hblank, hgap.2]

theorem tokenize_comment {t comment : Text} (ht : ∀ tok ∈ tokenize t, tok.isClosed = true)
    (hc : '\n' ∉ comment) :
    tokenize (t ++ '\n' :: '/' :: '/' :: comment) =
      tokenize (t ++ ['\n']) ++ [⟨.lineComment, '/' :: '/' :: comment⟩] := by
  have hline : tokenize ('/' :: '/' :: comment) = [⟨.lineComment, '/' :: '/' :: comment⟩] := by
    have hlead := leads_nil_iff.2 (Shape.lineComment hc)
    have htoks := tokenize_of_leads hlead
    rwa [List.append_nil, tokenize] at htoks
  have hassoc : t ++ '\n' :: '/' :: '/' :: comment = (t ++ ['\n']) ++ '/' :: '/' :: comment := by simp
  rw [hassoc, tokenize_append, hline]
  intro tok hlast
  rw [stops_cons]
  rcases tokenize_concat_blank t (c := '\n') (by decide) with ⟨kind, hnew⟩ | ⟨init, last, hinit, hshape, hends, hnew⟩
  · have hgap : tokenize ['\n'] = [⟨.whitespace, ['\n']⟩] := by decide +kernel
    have hlead : Leads ⟨kind, ['\n']⟩ [] := leads_of_mem_tokenize (t := t ++ ['\n']) (by rw [hnew]; simp)
    have hself := tokenize_of_leads hlead
    rw [List.append_nil, hgap] at hself
    rw [hnew, List.getLast?_concat] at hlast
    obtain rfl := Option.some.inj hlast
    rw [← (List.cons.inj hself).1]
    exact (by decide : isGap '/' = false)
  · -- only white space takes the line feed into itself
    rw [hnew, List.getLast?_concat] at hlast
    obtain rfl := Option.some.inj hlast
    have hclosed := ht last (by rw [hinit]; simp)
    cases hshape with
    | identifier => exact absurd (by decide : isIdentPart '\n' = false) hends
    | number => exact absurd (by decide : isIdentPart '\n' = false) hends
    | literal => exact absurd hclosed hends
    | lineComment => exact absurd rfl hends
    | blockComment => exact absurd hclosed hends
    | whitespace => exact (by decide : isGap '/' = false)
    | slash => exact absurd (fun _ => by decide) hends
    | symbol => exact absurd (fun _ => by decide) hends

theorem tokenize_shorten {t comment : Text} {a b : List Token} {c : Char}
    (h : tokenize t = a ++ (b ++ [⟨.lineComment, '/' :: '/' :: (comment ++ [c])⟩])) :
    tokenize (spell (b ++ [⟨.lineComment, '/' :: '/' :: comment⟩])) =
      b ++ [⟨.lineComment, '/' :: '/' :: comment⟩] := by
  have hp := parted_tokenize t
  rw [h, parted_append, parted_append, @parted_iff b] at hp
  obtain ⟨-, ⟨hb, hstops⟩, hcomment, -⟩ := hp
  have hshape : Shape ⟨.lineComment, '/' :: '/' :: comment⟩ := by
    cases leads_nil_iff.1 hcomment.alone with
    | lineComment hc => exact .lineComment fun hm => hc (List.mem_append_left _ hm)
  refine tokenize_spell (parted_append.2 ⟨parted_iff.2 ⟨hb, fun tok ht => ?_⟩, ?_, parted_nil _⟩)
  · have hs := hstops tok ht
    simp only [spell_cons, List.cons_append, stops_cons] at hs ⊢
    exact hs
  · exact leads_nil_iff.2 hshape

end Token

namespace AttributeBlock

open Token (Nested spell tokenize)

/-! Tokens behind the last entry -/

/-- A token that neither makes an entry nor closes the argument of one. -/
structure Mute (tok : Token) : Prop where
  sign : tok.text ≠ ['=']
  opens : tok.text ≠ ['(']
  closes : tok.text ≠ [')']

theorem mute_of_head {tok : Token} (h : ∀ c ∈ tok.text.head?, c ≠ '=' ∧ c ≠ '(' ∧ c ≠ ')') :
    Mute tok where
  sign ht := (h '=' (by simp [ht])).1 rfl
  opens ht := (h '(' (by simp [ht])).2.1 rfl
  closes ht := (h ')' (by simp [ht])).2.2 rfl

theorem mute_of_allBlank {tok : Token} (h : Text.allBlank tok.text = true) : Mute tok :=
  mute_of_head fun c hc => by
    have hblank := List.all_eq_true.1 h c (List.mem_of_head? hc)
    exact ⟨Text.ne_of_isBlank hblank (by decide), Text.ne_of_isBlank hblank (by decide),
      Text.ne_of_isBlank hblank (by decide)⟩

theorem mute_of_comment (comment : Text) : Mute ⟨.lineComment, '/' :: '/' :: comment⟩ :=
  mute_of_head fun c hc => by
    obtain rfl : '/' = c := by simpa using hc
    decide

theorem mute_of_brace {tok : Token} (h : tok.isSymbol '\x7d' = true) : Mute tok :=
  mute_of_head fun c hc => by
    rw [(Token.isSymbol_iff.1 h).2] at hc
    obtain rfl : '\x7d' = c := by simpa using hc
    decide

theorem blunt_of_mute {next : List Token} (h : ∀ tok ∈ next, Mute tok) : Blunt next where
  head tok ht := (h tok (List.mem_of_head? ht)).sign
  solid tok ht := by
    have hm := h tok ((List.dropWhile_suffix isWhite).subset (List.mem_of_head? ht))
    exact ⟨hm.opens, hm.sign⟩

theorem closeParens?_mute {next : List Token} (h : ∀ tok ∈ next, Mute tok) {depth : Nat}
    (hd : 0 < depth) (toks : List Token) :
    closeParens? depth (toks ++ next) = (closeParens? depth toks).map (Prod.map id (· ++ next)) := by
  induction toks generalizing depth with
  | nil =>
    rw [List.nil_append, closeParens?, Option.map_none]
    induction next generalizing depth with
    | nil => rfl
    | cons tok next ih =>
      have hclose : tok.isSymbol ')' = false := by
        simp [Token.isSymbol, (h tok (by simp)).closes]
      have hpos : 0 < parensAfter depth tok := by
        unfold parensAfter
        rw [hclose]
        split
        · exact Nat.succ_pos _
        · exact hd
      rw [closeParens?, if_neg (Nat.ne_of_gt hpos), ih (fun t ht => h t (List.mem_cons_of_mem _ ht)) hpos]
      rfl
  | cons tok toks ih =>
    rw [List.cons_append, closeParens?, closeParens?]
    by_cases hz : parensAfter depth tok = 0
    · rw [if_pos hz, if_pos hz]
      rfl
    · rw [if_neg hz, if_neg hz, ih (Nat.pos_of_ne_zero hz), Option.map_map, Option.map_map]
      rfl

theorem entryKey?_mute {next : List Token} (h : ∀ tok ∈ next, Mute tok) (toks : List Token) :
    entryKey? (toks ++ next) = (entryKey? toks).map fun p => (p.1, p.2.1, p.2.2 ++ next) :=
  entryKey?_append_blunt (blunt_of_mute h) fun _ more _ _ => closeParens?_mute h Nat.one_pos more

/-- The entries are the same with such tokens behind them, which belong to the value of the
last one. -/
theorem split_append_mute {next : List Token} (h : ∀ tok ∈ next, Mute tok) (depth : Nat)
    (toks : List Token) :
    split depth (toks ++ next) = glue (split depth toks).1 (split depth toks).2 (next, []) := by
  induction depth, toks using split.induct with
  | case1 depth =>
    rw [List.nil_append, split_of_no_sign fun tok ht => (h tok ht).sign]
    simp [split, glue]
  | case2 depth tok toks hd key sign rest he ih =>
    obtain ⟨rfl, hk⟩ := hd
    have hkey := entryKey?_mute h toks
    rw [he, Option.map_some] at hkey
    rw [List.cons_append, split_entry hk hkey, split_entry hk he, ih]
    rfl
  | case3 depth tok toks hd he ih =>
    obtain ⟨rfl, hk⟩ := hd
    have hkey := entryKey?_mute h toks
    rw [he, Option.map_none] at hkey
    rw [List.cons_append, split_word hk hkey, split_word hk he, ih]
    exact (glue_append [tok] _ _ _).symm
  | case4 depth tok toks hd ih =>
    rw [List.cons_append, split_other hd, split_other hd, ih]
    exact (glue_append [tok] _ _ _).symm

theorem glue_concat (front : List Token) (entries : List Entry) (e : Entry) (next : List Token) :
    glue front (entries ++ [e]) (next, []) = (front, entries ++ [{ e with value := e.value ++ next }]) := by
  induction entries generalizing front with
  | nil => rfl
  | cons e' es ih => rw [List.cons_append, glue, ih]; rfl

/-! Entries that have grown -/

/-- An entry with more behind its value, in which there is a closing brace. -/
structure Grown (a b : Attribute) : Prop where
  name : b.name = a.name
  value : a.value.count '\x7d' < b.value.count '\x7d'
  text : a.text.count '\x7d' < b.text.count '\x7d'

inductive LastGrown : List Attribute → List Attribute → Prop
  | none : LastGrown [] []
  | last {a b : Attribute} (front : List Attribute) : Grown a b → LastGrown (front ++ [a]) (front ++ [b])

theorem count_trim {c : Char} (hc : Text.isBlank c = false) (t : Text) :
    (Text.trim t).count c = t.count c := by
  have hblank : ∀ gap : Text, Text.allBlank gap = true → gap.count c = 0 := fun gap hgap =>
    List.count_eq_zero.2 fun hm => by
      rw [List.all_eq_true.1 hgap c hm] at hc
      cases hc
  have hstart : t.count c = (Text.trimStart t).count c := by
    have htake : Text.allBlank (t.takeWhile Text.isBlank) = true := List.all_takeWhile
    conv_lhs => rw [← List.takeWhile_append_dropWhile (p := Text.isBlank) (l := t)]
    rw [List.count_append, hblank _ htake, Nat.zero_add]
    rfl
  obtain ⟨gap, hgap, he⟩ := Text.exists_trimEnd_append (Text.trimStart t)
  have hend := congrArg (List.count c) he
  rw [List.count_append, hblank gap hgap, Nat.add_zero] at hend
  rw [hstart, hend, Text.trim]

theorem grown_toAttribute {e : Entry} {n m : List Token} {more : Text}
    (hmore : spell m = spell n ++ more) (hb : '\x7d' ∈ more) :
    Grown { e with value := e.value ++ n }.toAttribute { e with value := e.value ++ m }.toAttribute := by
  have hcount : (spell n).count '\x7d' < (spell m).count '\x7d' := by
    have hpos := List.count_pos_iff.2 hb
    rw [hmore, List.count_append]
    omega
  have htrim := fun t => count_trim (c := '\x7d') (by decide) t
  refine ⟨rfl, ?_, ?_⟩
  · simp only [Entry.toAttribute, htrim, Token.spell_append, List.count_append]
    omega
  · simp only [Entry.toAttribute, Entry.tokens, htrim, Token.spell_cons, Token.spell_append,
      List.count_append]
    omega

theorem lastGrown_parse {inner more : Text} {a n m : List Token} (hn : ∀ tok ∈ n, Mute tok)
    (hm : ∀ tok ∈ m, Mute tok) (hinner : tokenize inner = a ++ n) (hall : tokenize (inner ++ more) = a ++ m)
    (hb : '\x7d' ∈ more) : LastGrown (parse inner).entries (parse (inner ++ more)).entries := by
  have hmore : spell m = spell n ++ more := by
    have hs := congrArg spell hinner
    have hs' := congrArg spell hall
    rw [Token.spell_tokenize, Token.spell_append] at hs hs'
    rw [hs, List.append_assoc] at hs'
    exact (List.append_cancel_left hs').symm
  unfold parse
  rw [hinner, hall, split_append_mute hn, split_append_mute hm]
  rcases List.eq_nil_or_concat' (split 0 a).2 with he | ⟨es, e, he⟩
  · rw [he]
    exact .none
  · rw [he, glue_concat, glue_concat]
    simp only [List.map_append, List.map_cons, List.map_nil]
    exact .last _ (grown_toAttribute hmore hb)

/-! Bodies with a comment behind the block -/

theorem splitBody_trimEnd (t : Text) : splitBody (Text.trimEnd t) = splitBody t := by
  have htrim : Text.trimEnd (Text.trimEnd t) = Text.trimEnd t :=
    Text.trimEnd_of_last fun c hc => Text.last_trimEnd hc
  unfold splitBody
  rw [htrim]

section Commented

variable {t comment : Text} (pair : LastPair (tokenize (Text.trimEnd t)))

def commented (t comment : Text) : Text := t ++ '\n' :: '/' :: '/' :: (comment ++ ['\x7d'])

/-- The text behind the last pair of braces is taken for a block up to the end of the comment. -/
theorem splitBody_of_tail {tail : List Token} {inner : Text}
    (htoks : tokenize (commented t comment) =
      pair.before ++ pair.op :: (pair.inside ++ pair.cl ::
        (tail ++ [⟨.lineComment, '/' :: '/' :: (comment ++ ['\x7d'])⟩])))
    (hlast : ∀ tok ∈ tail, tok.endIn? [.curly] = none)
    (hinner : inner ++ ['\x7d'] = spell pair.behind) :
    ∃ more, '\x7d' ∈ more ∧
      splitBody (commented t comment) = (Text.trimEnd (spell pair.before), some (inner ++ more)) ∧
      tokenize (inner ++ more) = pair.inside ++ pair.cl :: (tail ++ [⟨.lineComment, '/' :: '/' :: comment⟩]) := by
  obtain ⟨gap, -, hgap⟩ := Text.exists_trimEnd_append t
  have htrim : Text.trimEnd (commented t comment) = commented t comment :=
    Text.trimEnd_of_last fun c hc => by
      obtain rfl : '\x7d' = c := by simpa [commented, List.getLast?_cons] using hc
      decide
  have hends : spell (pair.inside ++ pair.cl ::
      (tail ++ [⟨.lineComment, '/' :: '/' :: (comment ++ ['\x7d'])⟩])) =
        inner ++ '\x7d' :: (gap ++ '\n' :: '/' :: '/' :: comment) ++ ['\x7d'] := by
    have hall := congrArg spell htoks
    have htrimmed := congrArg spell pair.parts
    rw [Token.spell_tokenize, Token.spell_append, Token.spell_cons] at hall htrimmed
    rw [← LastPair.behind, ← hinner] at htrimmed
    refine @List.append_cancel_left _ (spell pair.before ++ pair.op.text) _ _ ?_
    rw [List.append_assoc, ← hall, commented]
    conv_lhs => rw [hgap, htrimmed]
    simp
  have hspell : spell (pair.inside ++ pair.cl :: (tail ++ [⟨.lineComment, '/' :: '/' :: comment⟩])) =
      inner ++ '\x7d' :: (gap ++ '\n' :: '/' :: '/' :: comment) := by
    refine @List.append_cancel_right _ _ ['\x7d'] _ ?_
    rw [← hends]
    simp [Token.spell_append]
  let grown : LastPair (tokenize (Text.trimEnd (commented t comment))) :=
    { before := pair.before
      op := pair.op
      inside := pair.inside
      cl := pair.cl
      tail := tail ++ [⟨.lineComment, '/' :: '/' :: (comment ++ ['\x7d'])⟩]
      parts := by rw [htrim, htoks]
      opens := pair.opens
      closes := pair.closes
      nested := pair.nested
      last := fun tok ht => by
        rcases List.mem_append.1 ht with ht | ht
        · exact hlast tok ht
        · rw [List.mem_singleton.1 ht]
          exact Token.endIn?_of_kind (by simp) }
  have hhides : grown.HidesBrace := ⟨_, List.getLast?_concat .., rfl, by simp [List.getLast?_cons]⟩
  refine ⟨'\x7d' :: (gap ++ '\n' :: '/' :: '/' :: comment), by simp, ?_, ?_⟩
  · exact splitBody_eq_some_iff_pair.2 ⟨grown, Or.inr hhides, rfl, hends.symm⟩
  · have hassoc : ∀ last : Token, pair.inside ++ pair.cl :: (tail ++ [last]) =
        (pair.inside ++ pair.cl :: tail) ++ [last] := fun last => by simp
    rw [← hspell, hassoc]
    refine Token.tokenize_shorten (t := commented t comment) (a := pair.before ++ [pair.op]) (c := '\x7d') ?_
    rw [htoks]
    simp

end Commented

theorem endIn?_of_allBlank {tok : Token} (h : Text.allBlank tok.text = true) :
    tok.endIn? [.curly] = none := by
  refine Token.endIn?_of_text fun e he => ?_
  rw [he] at h
  revert h
  rcases e with b | b <;> cases b <;> decide

theorem exists_comment_of_hidden {tok : Token} (hl : tok.Leads []) (hclosed : tok.isClosed = true)
    (hruns : tok.runsOn = true) (hb : tok.text.getLast? = some '\x7d') :
    ∃ comment, tok = ⟨.lineComment, '/' :: '/' :: (comment ++ ['\x7d'])⟩ := by
  have hk : tok.kind = .lineComment := by simpa [Token.runsOn, hclosed] using hruns
  cases Token.leads_nil_iff.1 hl with
  | @lineComment cs hcs =>
    rcases List.eq_nil_or_concat' cs with rfl | ⟨comment, c, rfl⟩
    · simp at hb
    · obtain rfl : c = '\x7d' := by simpa [List.getLast?_cons] using hb
      exact ⟨comment, rfl⟩
  | identifier => cases hk
  | number => cases hk
  | literal => cases hk
  | blockComment => cases hk
  | whitespace => cases hk
  | slash => cases hk
  | symbol => cases hk

section Closed

variable {t comment inner : Text} (pair : LastPair (tokenize (Text.trimEnd t)))
  (hclosed : ∀ tok ∈ tokenize t, tok.isClosed = true) (hc : '\n' ∉ comment)
  (hinner : inner ++ ['\x7d'] = spell pair.behind)
include hclosed hc

/-- The last token of the body with the blank characters that it takes in, what comes behind it,
and the comment. -/
theorem exists_commented {init : List Token} {last : Token}
    (hparts : tokenize (Text.trimEnd t) = init ++ [last]) :
    ∃ grown rest, (grown = [] ∨ last.kind ≠ .symbol) ∧ (∀ r ∈ rest, Text.allBlank r.text = true) ∧
      tokenize (commented t comment) = init ++ ⟨last.kind, last.text ++ grown⟩ ::
        (rest ++ [⟨.lineComment, '/' :: '/' :: (comment ++ ['\x7d'])⟩]) := by
  obtain ⟨gap, hgap, ht⟩ := Text.exists_trimEnd_append t
  have hblank : Text.allBlank (gap ++ ['\n']) = true := by
    simp only [Text.allBlank, List.all_append, Bool.and_eq_true] at hgap ⊢
    exact ⟨hgap, by decide⟩
  obtain ⟨grown, rest, hgrown, hrest, happend⟩ := Token.tokenize_append_allBlank hparts hblank
  refine ⟨grown, rest, hgrown, hrest, ?_⟩
  rw [commented, Token.tokenize_comment hclosed (by simp [hc])]
  conv_lhs => rw [ht]
  rw [List.append_assoc, happend]
  simp

include hinner

/-- The block is the end of the body. -/
theorem splitBody_commented_of_nil (hnil : pair.tail = []) :
    ∃ more, splitBody (commented t comment) = (Text.trimEnd (spell pair.before), some (inner ++ more)) ∧
      LastGrown (parse inner).entries (parse (inner ++ more)).entries := by
  have hparts : tokenize (Text.trimEnd t) = (pair.before ++ pair.op :: pair.inside) ++ [pair.cl] :=
    pair.parts.trans (by simp [hnil])
  obtain ⟨grown, rest, hgrown, hrest, htoks⟩ := exists_commented hclosed hc hparts
  obtain rfl : grown = [] := hgrown.resolve_right fun h => h (Token.isSymbol_iff.1 pair.closes).1
  obtain ⟨more, hb, hcommented, hall⟩ := splitBody_of_tail pair (htoks.trans (by simp))
    (fun tok hm => endIn?_of_allBlank (hrest tok hm)) hinner
  have hinside : tokenize inner = pair.inside ++ [] := by
    have hspell : inner = spell pair.inside := by
      rw [LastPair.behind, hnil, Token.spell_append, Token.spell_cons,
        (Token.isSymbol_iff.1 pair.closes).2] at hinner
      exact List.append_cancel_right hinner
    rw [hspell, List.append_nil]
    exact Token.tokenize_spell_of_tokenize (a := pair.before ++ [pair.op]) (c := [pair.cl])
      (hparts.trans (by simp))
  refine ⟨more, hcommented, lastGrown_parse (by simp) ?_ hinside hall hb⟩
  simp only [List.forall_mem_cons, List.forall_mem_append, List.not_mem_nil, false_implies,
    implies_true, and_true]
  exact ⟨mute_of_brace pair.closes, fun tok hm => mute_of_allBlank (hrest tok hm), mute_of_comment comment⟩

/-- The body ends in a comment that hides a brace. -/
theorem splitBody_commented_of_hidden (hhides : pair.HidesBrace) :
    ∃ more, splitBody (commented t comment) = (Text.trimEnd (spell pair.before), some (inner ++ more)) ∧
      LastGrown (parse inner).entries (parse (inner ++ more)).entries := by
  obtain ⟨last, hlast, hruns, hbrace⟩ := hhides
  obtain ⟨tail, htail⟩ := List.getLast?_eq_some_iff.1 hlast
  have hparts : tokenize (Text.trimEnd t) =
      (pair.before ++ pair.op :: (pair.inside ++ pair.cl :: tail)) ++ [last] :=
    pair.parts.trans (by simp [htail])
  have hmem : last ∈ tokenize (Text.trimEnd t) := by rw [hparts]; simp
  obtain ⟨hidden, rfl⟩ := exists_comment_of_hidden (Token.leads_of_mem_tokenize hmem)
    (Token.isClosed_of_mem_trimEnd hclosed _ hmem) hruns hbrace
  obtain ⟨grown, rest, -, hrest, htoks⟩ := exists_commented hclosed hc hparts
  obtain ⟨more, hb, hcommented, hall⟩ := @splitBody_of_tail _ _ pair
    (tail ++ ⟨.lineComment, '/' :: '/' :: (hidden ++ ['\x7d']) ++ grown⟩ :: rest) _
    (htoks.trans (by simp)) (by
      simp only [List.forall_mem_cons, List.forall_mem_append]
      exact ⟨fun tok hm => pair.last tok (by simp [htail, hm]), Token.endIn?_of_kind (by simp),
        fun tok hm => endIn?_of_allBlank (hrest tok hm)⟩) hinner
  have hfront : tokenize inner =
      (pair.inside ++ pair.cl :: tail) ++ [⟨.lineComment, '/' :: '/' :: hidden⟩] := by
    have hspell : inner =
        spell ((pair.inside ++ pair.cl :: tail) ++ [⟨.lineComment, '/' :: '/' :: hidden⟩]) := by
      refine @List.append_cancel_right _ _ ['\x7d'] _ ?_
      rw [hinner, LastPair.behind, htail]
      simp [Token.spell_append]
    rw [hspell]
    exact Token.tokenize_shorten (t := Text.trimEnd t) (a := pair.before ++ [pair.op])
      (c := '\x7d') (hparts.trans (by simp))
  have hgrown : tokenize (inner ++ more) = (pair.inside ++ pair.cl :: tail) ++
      ⟨.lineComment, '/' :: '/' :: (hidden ++ ['\x7d']) ++ grown⟩ ::
        (rest ++ [⟨.lineComment, '/' :: '/' :: comment⟩]) := hall.trans (by simp)
  refine ⟨more, hcommented, lastGrown_parse ?_ ?_ hfront hgrown hb⟩
  · simpa using mute_of_comment hidden
  · simp only [List.forall_mem_cons, List.forall_mem_append, List.not_mem_nil, false_implies,
      implies_true, and_true]
    exact ⟨mute_of_comment _, fun tok hm => mute_of_allBlank (hrest tok hm), mute_of_comment comment⟩

end Closed

/-- A comment behind a body that ends in a closing brace leaves the production as it is, and all
entries of the block but the last one, which grows. -/
theorem splitBody_commented {t comment production inner : Text}
    (hclosed : ∀ tok ∈ tokenize t, tok.isClosed = true) (hc : '\n' ∉ comment)
    (hsplit : splitBody t = (production, some inner)) :
    ∃ more, splitBody (commented t comment) = (production, some (inner ++ more)) ∧
      LastGrown (parse inner).entries (parse (inner ++ more)).entries := by
  obtain ⟨pair, hnil | hhides, rfl, hinner⟩ := splitBody_eq_some_iff_pair.1 hsplit
  · exact splitBody_commented_of_nil pair hclosed hc hinner hnil
  · exact splitBody_commented_of_hidden pair hclosed hc hinner hhides

end AttributeBlock
end OpenGrammar
