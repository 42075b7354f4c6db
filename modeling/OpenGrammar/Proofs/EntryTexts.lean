import OpenGrammar.Proofs.EntrySplitting
import OpenGrammar.Proofs.Trimming

/-! Texts that are one entry of a block. Written on lines of their own, such texts are read back
as the entries that they are, in order and with nothing else. -/
namespace OpenGrammar

theorem Text.isBlank_of_isGap {c : Char} (h : Token.isGap c = true) : Text.isBlank c = true := by
  simp only [Token.isGap, Bool.or_eq_true, beq_iff_eq] at h
  rcases h with (((rfl | rfl) | rfl) | rfl) | rfl <;> decide

theorem Text.isGap_of_not_blank {c : Char} (h : Text.isBlank c = false) : Token.isGap c = false := by
  by_contra hgap
  rw [isBlank_of_isGap (by simpa using hgap)] at h
  cases h

namespace AttributeBlock

open Token (Shape isIdentPart isIdentifier spell tokenize Nested)

/-! Tokens that no entry is begun or ended by -/

structure Inert (tok : Token) : Prop where
  kind : tok.kind ≠ .identifier
  bracket : tok.endIn? Bracket.all = none
  sign : tok.text ≠ ['=']
  paren : tok.text ≠ ['(']

theorem Inert.blunt {tok : Token} (h : Inert tok) : Blunt [tok] where
  head := by simpa using h.sign
  solid := by
    intro t ht
    have hmem := (List.dropWhile_suffix isWhite).subset (List.mem_of_mem_head? ht)
    rw [List.mem_singleton.1 hmem]
    exact ⟨h.paren, h.sign⟩

theorem inert_of_kind {tok : Token} (hl : tok.Leads []) (hi : tok.kind ≠ .identifier)
    (hs : tok.kind ≠ .symbol) : Inert tok where
  kind := hi
  bracket := Token.endIn?_of_kind hs
  sign := fun ht => hs (by rw [Token.eq_symbol_of_text hl (by decide) ht])
  paren := fun ht => hs (by rw [Token.eq_symbol_of_text hl (by decide) ht])

theorem inert_of_blank {kind : TokenKind} {c : Char} (hl : Token.Leads ⟨kind, [c]⟩ [])
    (hc : Text.isBlank c = true) : Inert ⟨kind, [c]⟩ where
  kind := by
    rintro rfl
    cases Token.leads_nil_iff.1 hl with
    | identifier hs =>
      rw [Text.isBlank_of_isIdentPart (Token.isIdentPart_of_isIdentStart hs)] at hc
      cases hc
  bracket := Token.endIn?_of_text fun e he => by
    obtain rfl : c = e.sign := by simpa using he
    revert hc
    rcases e with b | b <;> cases b <;> decide
  sign := by
    intro ht
    obtain rfl : c = '=' := by simpa using ht
    exact absurd hc (by decide)
  paren := by
    intro ht
    obtain rfl : c = '(' := by simpa using ht
    exact absurd hc (by decide)

def IsSingle (toks : List Token) : Prop := Nested Bracket.all toks ∧ ∃ e, split 0 toks = ([], [e])

theorem isSingle_concat_iff {toks : List Token} {tok : Token} (hl : ∀ t ∈ toks, t.Leads [])
    (ht : Inert tok) : IsSingle (toks ++ [tok]) ↔ IsSingle toks := by
  unfold IsSingle
  rw [Token.nested_concat_iff ht.bracket]
  refine and_congr_right fun hn => ?_
  have hlast : split 0 [tok] = ([tok], []) := by
    rw [split_other (by simp [ht.kind])]
    simp [split]
  rw [split_append_blunt hn hl ht.blunt, hlast]
  generalize split 0 toks = p
  obtain ⟨front, entries⟩ := p
  cases entries with
  | nil => simp [glue]
  | cons e es =>
    cases es with
    | nil => simp [glue]
    | cons e' es => simp [glue]

theorem isSingle_of_concat_blank {t : Text} {c : Char} (hc : Text.isBlank c = true)
    (h : IsSingle (tokenize (t ++ [c]))) : IsSingle (tokenize t) := by
  have hlexed : ∀ {u : Text} {tok : Token}, tok ∈ tokenize u → tok.Leads [] := Token.leads_of_mem_tokenize
  rcases Token.tokenize_concat_blank t hc with ⟨kind, he⟩ | ⟨init, tok, hinit, hshape, hends, he⟩
  · have hx : Token.Leads ⟨kind, [c]⟩ [] := hlexed (u := t ++ [c]) (by rw [he]; simp)
    rw [he] at h
    exact (isSingle_concat_iff (fun t ht => hlexed ht) (inert_of_blank hx hc)).1 h
  · have hi : ∀ t ∈ init, t.Leads [] := fun tok ht => hlexed (u := t) (by rw [hinit]; simp [ht])
    have hgrown : Token.Leads ⟨tok.kind, tok.text ++ [c]⟩ [] := hlexed (u := t ++ [c]) (by rw [he]; simp)
    obtain ⟨-, hk, -, hs⟩ := hshape.concat (Text.isIdentPart_of_isBlank hc)
      ⟨Text.ne_of_isBlank hc (by decide), Text.ne_of_isBlank hc (by decide)⟩ hends
    rw [he, isSingle_concat_iff hi (inert_of_kind hgrown hk hs)] at h
    rw [hinit]
    exact (isSingle_concat_iff hi (inert_of_kind (Token.leads_nil_iff.2 hshape) hk hs)).2 h

/-! Entries as texts -/

/-- A text that is one entry and may stand on a line of its own. -/
structure IsEntry (t : Text) : Prop where
  single : IsSingle (tokenize t)
  head : ∀ c ∈ t.head?, Text.isBlank c = false
  last : ∀ c ∈ t.getLast?, Text.isBlank c = false
  stops : ∀ tok ∈ (tokenize t).getLast?, tok.EndsBefore '\n'

/-- A token that is closed and does not end in a blank character stops at the end of its line. -/
theorem endsBefore_newline {t : Text} (ht : ∀ c ∈ t.getLast?, Text.isBlank c = false)
    (hc : ∀ tok ∈ tokenize t, tok.isClosed = true) :
    ∀ tok ∈ (tokenize t).getLast?, tok.EndsBefore '\n' ∧ tok.kind ≠ .whitespace ∧
      (tok.kind ≠ .lineComment → tok.EndsBefore ' ') := by
  intro tok hlast
  obtain ⟨init, hinit⟩ := List.getLast?_eq_some_iff.1 hlast
  have hmem : tok ∈ tokenize t := by simp [hinit]
  have hlead : tok.Leads [] := Token.leads_of_mem_tokenize hmem
  have hend : ∀ c ∈ tok.text.getLast?, Text.isBlank c = false := by
    intro c hcl
    refine ht c ?_
    rwa [← Token.spell_tokenize t, hinit, Token.getLast?_spell_concat hlead.ne_nil]
  have hclosed := hc tok hmem
  have hword : isIdentPart '\n' = false ∧ isIdentPart ' ' = false := by decide
  cases Token.leads_nil_iff.1 hlead with
  | identifier => exact ⟨hword.1, by simp, fun _ => hword.2⟩
  | number => exact ⟨hword.1, by simp, fun _ => hword.2⟩
  | literal => exact ⟨hclosed, by simp, fun _ => hclosed⟩
  | lineComment => exact ⟨rfl, by simp, fun h => absurd rfl h⟩
  | blockComment => exact ⟨hclosed, by simp, fun _ => hclosed⟩
  | @whitespace c cs hgap =>
    obtain ⟨d, hd⟩ := List.getLast?_isSome.2 (List.cons_ne_nil c cs) |> Option.isSome_iff_exists.1
    have hblank := Text.isBlank_of_isGap (hgap d (List.mem_of_getLast? hd))
    rw [hend d hd] at hblank
    cases hblank
  | slash => exact ⟨fun _ => by decide, by simp, fun _ _ => by decide⟩
  | symbol => exact ⟨fun _ => by decide, by simp, fun _ _ => by decide⟩

/-- Where brackets are nested and nothing lacks its end, the entries of a block may stand on
lines of their own. -/
theorem isEntry_of_mem_parse {inner : Text} (hn : Nested Bracket.all (tokenize inner))
    (hc : ∀ tok ∈ tokenize inner, tok.isClosed = true) {a : Attribute}
    (ha : a ∈ (parse inner).entries) : IsEntry a.text := by
  have hl : ∀ tok ∈ tokenize inner, tok.Leads [] := fun tok ht => Token.leads_of_mem_tokenize ht
  obtain ⟨e, he, rfl⟩ := List.mem_map.1 ha
  have halone := (cutsApart hn hl).alone e he
  obtain ⟨before, behind, htoks⟩ := tokens_infix_of_mem_split he
  have hspelled : tokenize (spell e.tokens) = e.tokens :=
    Token.tokenize_spell_of_tokenize (by rw [← htoks, List.append_assoc])
  have hname : e.name ∈ tokenize inner := by
    rw [← htoks]
    simp [Entry.tokens]
  have hhead : ∀ c ∈ (spell e.tokens).head?, Text.isBlank c = false := by
    intro c hcm
    have hident := Token.isIdentifier_of_mem_tokenize hname (name_kind_of_mem_split he)
    obtain ⟨d, ds, hd⟩ := List.exists_cons_of_ne_nil (hl e.name hname).ne_nil
    rw [Entry.tokens, Token.spell_cons, hd] at hcm
    refine Text.isBlank_of_isIdentPart (Token.isIdentPart_of_mem hident ?_)
    rw [hd]
    exact List.mem_of_mem_head? hcm
  have htrim : e.toAttribute.text = Text.trimEnd (spell e.tokens) := by
    show Text.trimEnd (Text.trimStart _) = _
    rw [Text.trimStart_of_head hhead]
  have hsingle : IsSingle (tokenize (spell e.tokens)) := by
    rw [hspelled]
    exact ⟨halone.nested, e, halone.split_tokens⟩
  have hclosed : ∀ tok ∈ tokenize (spell e.tokens), tok.isClosed = true := by
    rw [hspelled]
    exact fun tok ht => hc tok (by rw [← htoks]; simp [ht])
  have hlast : ∀ c ∈ (Text.trimEnd (spell e.tokens)).getLast?, Text.isBlank c = false :=
    fun c hcl => Text.last_trimEnd hcl
  rw [htrim]
  refine ⟨?_, ?_, hlast, ?_⟩
  · exact @Text.trimEnd_induction (fun u => IsSingle (tokenize u)) _
      (fun u c hb hu => isSingle_of_concat_blank hb hu) hsingle
  · intro c hcm
    obtain ⟨gap, -, hgap⟩ := Text.exists_trimEnd_append (spell e.tokens)
    refine hhead c ?_
    rw [hgap, List.head?_append, Option.mem_def.1 hcm]
    rfl
  · exact fun tok ht => (endsBefore_newline hlast (Token.isClosed_of_mem_trimEnd hclosed) tok ht).1

theorem isSingle_of_sign {name : Token} {gap value : List Token} (hk : name.kind = .identifier)
    (hgap : ∀ tok ∈ gap, tok.kind = .whitespace) (hsign : ∀ tok ∈ value, tok.text ≠ ['='])
    (hb : ∀ tok ∈ value, tok.endIn? Bracket.all = none) :
    IsSingle (name :: (gap ++ ⟨.symbol, ['=']⟩ :: value)) := by
  have hne : ∀ tok : Token, tok.kind ≠ .symbol → tok.endIn? Bracket.all = none := fun tok h =>
    Token.endIn?_of_kind h
  refine ⟨Nested.of_forall ?_, ?_⟩
  · intro tok ht
    rcases List.mem_cons.1 ht with rfl | ht
    · exact hne tok (by rw [hk]; decide)
    rcases List.mem_append.1 ht with ht | ht
    · exact hne tok (by rw [hgap tok ht]; decide)
    rcases List.mem_cons.1 ht with rfl | ht
    · decide
    · exact hb tok ht
  · have hwhite : ∀ tok ∈ gap, isWhite tok = true := fun tok ht => by simp [isWhite, hgap tok ht]
    have hdrop : (gap ++ ⟨.symbol, ['=']⟩ :: value).dropWhile isWhite = ⟨.symbol, ['=']⟩ :: value := by
      rw [List.dropWhile_append_of_pos hwhite]
      rfl
    have hhead : value.head?.map Token.text ≠ some ['='] := by
      intro h
      obtain ⟨tok, ht, he⟩ := Option.map_eq_some_iff.1 h
      exact hsign tok (List.mem_of_mem_head? ht) he
    have htake : (gap ++ ⟨.symbol, ['=']⟩ :: value).takeWhile isWhite = gap := by
      rw [List.takeWhile_append_of_pos hwhite]
      simp [isWhite]
    have hequals : equalsSign? (gap ++ ⟨.symbol, ['=']⟩ :: value) =
        some (gap ++ [⟨.symbol, ['=']⟩], value) := by
      rw [equalsSign?, hdrop, htake]
      simp [hhead]
    have hkey : entryKey? (gap ++ ⟨.symbol, ['=']⟩ :: value) =
        some ([], gap ++ [⟨.symbol, ['=']⟩], value) := by
      rw [entryKey?, hdrop, hequals]
      simp
    rw [split_entry hk hkey, split_of_no_sign hsign]
    exact ⟨_, rfl⟩

/-! Entries on lines of their own -/

theorem IsEntry.exists_entry {t : Text} (h : IsEntry t) :
    ∃ e, split 0 (tokenize t) = ([], [e]) ∧ e.tokens = tokenize t ∧ e.name.kind = .identifier := by
  obtain ⟨-, e, he⟩ := h.single
  have htokens := split_append 0 (tokenize t)
  rw [he] at htokens
  exact ⟨e, he, by simpa using htokens, name_kind_of_mem_split (by rw [he]; simp)⟩

theorem IsEntry.ne_nil {t : Text} (h : IsEntry t) : t ≠ [] := by
  rintro rfl
  obtain ⟨e, -, htokens, -⟩ := h.exists_entry
  simp [tokenize, Entry.tokens] at htokens

theorem IsEntry.trim_append {t gap : Text} (h : IsEntry t) (hg : Text.allBlank gap = true) :
    Text.trim (t ++ gap) = t := by
  have hstart : Text.trimStart (t ++ gap) = t ++ gap := by
    refine Text.trimStart_of_head fun c hc => h.head c ?_
    rwa [List.head?_append_of_ne_nil _ h.ne_nil] at hc
  rw [Text.trim, hstart, Text.trimEnd_append_allBlank t hg, Text.trimEnd_of_last h.last]

def lineTexts (es : List Text) : Text := es.flatMap fun e => "  ".toList ++ e ++ ['\n']

def lineTokens : List Text → List Token
  | [] => [⟨.whitespace, ['\n']⟩]
  | e :: es => ⟨.whitespace, "\n  ".toList⟩ :: (tokenize e ++ lineTokens es)

theorem getLast?_lineTokens (es : List Text) :
    (lineTokens es).getLast? = some ⟨.whitespace, ['\n']⟩ := by
  induction es with
  | nil => rfl
  | cons e es ih => simp [lineTokens, List.getLast?_cons, List.getLast?_append, ih]

section Lines

variable {es : List Text} (h : ∀ e ∈ es, IsEntry e)
include h

theorem tokenize_lineTexts : tokenize ('\n' :: lineTexts es) = lineTokens es := by
  induction es with
  | nil =>
    have ht := @Token.tokenize_gap ['\n'] [] (by decide) (by simp [Token.isGap]) (by simp)
    rwa [tokenize] at ht
  | cons e es ih =>
    have he := h e (by simp)
    have hline : '\n' :: lineTexts (e :: es) = "\n  ".toList ++ (e ++ '\n' :: lineTexts es) := by
      simp [lineTexts]
    have hhead : ∀ c ∈ (e ++ '\n' :: lineTexts es).head?, Token.isGap c = false := by
      intro c hc
      rw [List.head?_append_of_ne_nil _ he.ne_nil] at hc
      exact Text.isGap_of_not_blank (he.head c hc)
    have hstop : ∀ tok ∈ (tokenize e).getLast?, tok.Stops ('\n' :: lineTexts es) := fun tok ht =>
      Token.stops_cons.2 (he.stops tok ht)
    rw [hline, Token.tokenize_gap (by decide) (List.all_eq_true.1 (by decide)) hhead, Token.tokenize_append hstop,
      ih fun e he => h e (List.mem_cons_of_mem _ he)]
    rfl

theorem nested_lineTokens : Nested Bracket.all (lineTokens es) := by
  induction es with
  | nil => decide
  | cons e es ih =>
    exact .skip (by decide) ((h e (by simp)).single.1.append
      (ih fun e he => h e (List.mem_cons_of_mem _ he)))

theorem blunt_lineTokens : Blunt (lineTokens es) := by
  cases es with
  | nil => exact blunt_of_white rfl (by decide) blunt_nil
  | cons e es =>
    obtain ⟨entry, -, htokens, hk⟩ := (h e (by simp)).exists_entry
    refine blunt_of_white rfl (by decide) ?_
    rw [← htokens]
    refine blunt_of_identifier hk (Token.leads_of_mem_tokenize (t := e) ?_) _
    rw [← htokens]
    simp [Entry.tokens]

/-- Entries on lines of their own are read back as they are. -/
theorem split_lineTokens :
    ∃ gap, Text.allBlank gap = true ∧ (split 0 (lineTokens es)).1 = [⟨.whitespace, gap⟩] ∧
      (split 0 (lineTokens es)).2.map (fun e => e.toAttribute.text) = es := by
  have hwhite : ∀ (gap : Text) (toks : List Token), split 0 (⟨.whitespace, gap⟩ :: toks) =
      (split 0 toks).map (⟨.whitespace, gap⟩ :: ·) id := by
    intro gap toks
    rw [split_other (by simp), depthAfter_of_none (Token.endIn?_of_kind (by simp))]
  induction es with
  | nil => exact ⟨['\n'], by decide, by simp [lineTokens, hwhite, split], by simp [lineTokens, hwhite, split]⟩
  | cons e es ih =>
    have he := h e (by simp)
    have hes : ∀ e ∈ es, IsEntry e := fun e he => h e (List.mem_cons_of_mem _ he)
    obtain ⟨gap, hgap, hfront, hentries⟩ := ih hes
    obtain ⟨entry, hentry, htokens, -⟩ := he.exists_entry
    have hsplit := split_append_blunt he.single.1 (fun tok ht => Token.leads_of_mem_tokenize ht)
      (blunt_lineTokens hes)
    rw [hentry, glue, glue, hfront] at hsplit
    refine ⟨"\n  ".toList, by decide, by rw [lineTokens, hwhite, hsplit]; rfl, ?_⟩
    rw [lineTokens, hwhite, hsplit]
    simp only [Prod.map_snd, id, List.map_cons, hentries, List.cons.injEq, and_true]
    show Text.trim (spell (entry.name :: (entry.key ++ (entry.sign ++ (entry.value ++ [⟨.whitespace, gap⟩]))))) = e
    have hspell : entry.name :: (entry.key ++ (entry.sign ++ (entry.value ++ [⟨.whitespace, gap⟩]))) =
        tokenize e ++ [⟨.whitespace, gap⟩] := by
      rw [← htokens]
      simp [Entry.tokens]
    rw [hspell, Token.spell_append, Token.spell_tokenize, Token.spell_cons, Token.spell_nil,
      List.append_nil, he.trim_append hgap]

end Lines

theorem parse_lineTexts {es : List Text} (h : ∀ e ∈ es, IsEntry e) :
    (parse ('\n' :: lineTexts es)).entries.map Attribute.text = es := by
  obtain ⟨gap, -, -, hentries⟩ := split_lineTokens h
  rw [parse, tokenize_lineTexts h, List.map_map]
  exact hentries

end AttributeBlock
end OpenGrammar
