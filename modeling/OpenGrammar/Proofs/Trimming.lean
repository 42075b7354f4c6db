import OpenGrammar.Proofs.Accessors
import OpenGrammar.Proofs.Replacement

/-! Blank characters at the end of a text. They come as tokens of their own or are taken into
the last token, so that trimming a text leaves its other tokens as they are, and it makes
no difference whether a text is trimmed before names in it are replaced or after. -/
namespace OpenGrammar
namespace Text

/-- What is passed on when one blank character is taken from the end of a text is passed on
when the text is trimmed. -/
theorem trimEnd_induction {P : Text → Prop} {t : Text}
    (hstep : ∀ u c, isBlank c = true → P (u ++ [c]) → P u) (h : P t) : P (trimEnd t) := by
  induction t using List.reverseRecOn with
  | nil => exact h
  | append_singleton u c ih =>
    cases hc : isBlank c with
    | true =>
      rw [trimEnd_append_blank u hc]
      exact ih (hstep u c hc h)
    | false =>
      rw [trimEnd_of_last (by simp [hc])]
      exact h

theorem exists_trimEnd_append (t : Text) : ∃ gap, allBlank gap = true ∧ t = trimEnd t ++ gap := by
  refine ⟨(t.reverse.takeWhile isBlank).reverse, ?_, ?_⟩
  · rw [allBlank, List.all_reverse]
    exact List.all_takeWhile
  · rw [trimEnd, ← List.reverse_append, List.takeWhile_append_dropWhile, List.reverse_reverse]

theorem trimEnd_append_allBlank (t : Text) {gap : Text} (h : allBlank gap = true) :
    trimEnd (t ++ gap) = trimEnd t := by
  induction gap using List.reverseRecOn with
  | nil => rw [List.append_nil]
  | append_singleton gap c ih =>
    simp only [allBlank, List.all_append, Bool.and_eq_true, List.all_cons, List.all_nil,
      Bool.and_true] at h
    rw [← List.append_assoc, trimEnd_append_blank _ h.2, ih h.1]

theorem isBlank_of_isIdentPart {c : Char} (h : Token.isIdentPart c = true) : isBlank c = false := by
  have hd : ∀ n < 128, Token.isIdentPart (Char.ofNat n) = true → isBlank (Char.ofNat n) = false := by
    decide
  exact of_forall_lt (p := fun d => Token.isIdentPart d = true → isBlank d = false) hd
    (lt_of_isIdentPart h) h

theorem isIdentPart_of_isBlank {c : Char} (h : isBlank c = true) : Token.isIdentPart c = false := by
  by_contra hp
  rw [isBlank_of_isIdentPart (by simpa using hp)] at h
  cases h

theorem takeWhile_trimEnd_append {word rest : Text} (hw : ∀ c ∈ word, Token.isIdentPart c = true)
    (hr : ∀ c ∈ rest.head?, Token.isIdentPart c = false) :
    (trimEnd (word ++ rest)).takeWhile Token.isIdentPart = word := by
  obtain ⟨gap, hgap, he⟩ := exists_trimEnd_append (word ++ rest)
  rcases List.append_eq_append_iff.1 he.symm with ⟨last, hword, rfl⟩ | ⟨more, htrim, rfl⟩
  · have hlast : last = [] := by
      rw [List.eq_nil_iff_forall_not_mem]
      intro c hc
      have hblank := List.all_eq_true.1 hgap c (List.mem_append_left _ hc)
      have hpart := hw c (by rw [hword]; exact List.mem_append_right _ hc)
      rw [isIdentPart_of_isBlank hblank] at hpart
      cases hpart
    rw [hlast, List.append_nil] at hword
    rw [← hword]
    exact (Token.span_eq_self_iff.2 hw).1
  · have hstop := (@Token.span_append_iff Token.isIdentPart word more).2 ⟨hw, fun c hc => hr c ?_⟩
    · rw [htrim]
      exact hstop.1
    · rw [List.head?_append, Option.mem_def.1 hc]
      rfl

theorem ne_of_isBlank {c d : Char} (h : isBlank c = true) (hd : isBlank d = false) : c ≠ d := by
  rintro rfl
  rw [h] at hd
  cases hd

end Text

namespace Token

theorem literalTail_concat {quote : Char} {cs : Text} (c : Char) (hl : literalTail quote cs = (cs, []))
    (h : closesLiteral quote cs = false) : literalTail quote (cs ++ [c]) = (cs ++ [c], []) := by
  fun_induction closesLiteral quote cs with
  | case1 =>
    rw [literalTail.eq_def]
    by_cases hq : c = quote
    · simp [hq]
    · by_cases hc : c = '\\' <;> simp [hq, hc, literalTail]
  | case2 => cases h
  | case3 hq => simp [literalTail_escape hq, literalTail]
  | case4 d ds hq ih =>
    rw [literalTail_escape hq] at hl
    have hds := ih (by simpa [Prod.ext_iff] using hl) h
    simp [literalTail_escape hq, hds]
  | case5 d ds hq hd ih =>
    rw [literalTail_cons hq hd] at hl
    have hds := ih (by simpa [Prod.ext_iff] using hl) h
    simp [literalTail_cons hq hd, hds]

theorem blockTail_concat {cs : Text} (c : Char) (hl : blockTail cs = (cs, []))
    (h : closesBlock cs = false) : blockTail (cs ++ [c]) = (cs ++ [c], []) := by
  fun_induction closesBlock cs with
  | case1 => rw [List.nil_append, blockTail_cons (by simp), blockTail]; rfl
  | case2 => cases h
  | case3 d ds hne ih =>
    cases ds with
    | nil =>
      by_cases hmark : d = '*' ∧ c = '/'
      · simp [hmark.1, hmark.2, blockTail]
      · rw [List.singleton_append, blockTail_cons (by simpa using hmark), blockTail_cons (by simp),
          blockTail]
        rfl
    | cons e es =>
      have hmark : ∀ x, ¬ (d = '*' ∧ (e :: x).head? = some '/') := by
        rintro x ⟨rfl, hh⟩
        obtain rfl : e = '/' := by simpa using hh
        exact hne es rfl rfl
      rw [blockTail_cons (hmark es)] at hl
      have hds := ih (by simpa [Prod.ext_iff] using hl) h
      rw [List.cons_append, List.cons_append, blockTail_cons (hmark _), ← List.cons_append, hds]
      rfl

/-- A token that takes the character into itself. Words and symbols do not. -/
theorem Shape.concat {tok : Token} (h : Shape tok) {c : Char} (hpart : isIdentPart c = false)
    (hmark : c ≠ '/' ∧ c ≠ '*') (hc : ¬ tok.EndsBefore c) :
    Shape ⟨tok.kind, tok.text ++ [c]⟩ ∧
      tok.kind ≠ .identifier ∧ tok.kind ≠ .number ∧ tok.kind ≠ .symbol := by
  cases h with
  | identifier => exact absurd hpart hc
  | number => exact absurd hpart hc
  | @literal quote cs hq hl =>
    have hopen : closesLiteral quote cs = false := by simpa [EndsBefore, isClosed] using hc
    exact ⟨.literal hq (literalTail_concat c hl hopen), by simp⟩
  | @lineComment cs hcs =>
    have hne : c ≠ '\n' := hc
    exact ⟨.lineComment (by simpa [hcs] using hne.symm), by simp⟩
  | @blockComment cs hl =>
    have hopen : closesBlock cs = false := by simpa [EndsBefore, isClosed] using hc
    exact ⟨.blockComment (blockTail_concat c hl hopen), by simp⟩
  | @whitespace d ds hds =>
    have hgap : isGap c = true := by simpa [EndsBefore] using hc
    refine ⟨.whitespace fun e he => ?_, by simp⟩
    rcases List.mem_append.1 (show e ∈ d :: ds ++ [c] from he) with he | he
    · exact hds e he
    · rwa [List.mem_singleton.1 he]
  | slash => exact absurd (fun _ => hmark) hc
  | @symbol d hd =>
    refine absurd (fun he => ?_) hc
    obtain rfl : d = '/' := by simpa using he
    exact absurd hd (by decide)

theorem tokenize_char (c : Char) : ∃ kind, tokenize [c] = [⟨kind, [c]⟩] := by
  have ha := first_append c []
  rw [List.append_eq_nil_iff] at ha
  exact ⟨(first c []).1, by rw [tokenize, ha.1, ha.2, tokenize]⟩

/-- One more character makes a token of its own, or it is taken into the last token. -/
theorem tokenize_concat (t : Text) {c : Char} (hpart : isIdentPart c = false)
    (hmark : c ≠ '/' ∧ c ≠ '*') :
    (∃ kind, tokenize (t ++ [c]) = tokenize t ++ [⟨kind, [c]⟩]) ∨
      ∃ init tok, tokenize t = init ++ [tok] ∧ Shape tok ∧ ¬ tok.EndsBefore c ∧
        tokenize (t ++ [c]) = init ++ [⟨tok.kind, tok.text ++ [c]⟩] := by
  by_cases hstop : ∀ tok ∈ (tokenize t).getLast?, tok.EndsBefore c
  · obtain ⟨kind, hk⟩ := tokenize_char c
    left
    exact ⟨kind, by rw [tokenize_append fun tok ht => stops_cons.2 (hstop tok ht), hk]⟩
  · push Not at hstop
    obtain ⟨tok, hlast, hc⟩ := hstop
    obtain ⟨init, hinit⟩ := List.getLast?_eq_some_iff.1 hlast
    have hlead : tok.Leads [] := leads_of_mem_tokenize (t := t) (by simp [hinit])
    have hshape := leads_nil_iff.1 hlead
    have hparted := parted_tokenize t
    rw [hinit, parted_append, @parted_iff init] at hparted
    have hspell : spell (init ++ [⟨tok.kind, tok.text ++ [c]⟩]) = t ++ [c] := by
      have hs := congrArg spell hinit
      rw [spell_tokenize] at hs
      simp [hs, spell_append]
    right
    refine ⟨init, tok, hinit, hshape, hc, ?_⟩
    rw [← hspell]
    refine tokenize_spell (parted_append.2 ⟨parted_iff.2 ⟨hparted.1.1, fun other ho => ?_⟩, ?_, parted_nil _⟩)
    · -- what comes behind the other tokens starts as before
      have hother := hparted.1.2 other ho
      simp only [spell_cons, spell_nil, List.append_nil] at hother ⊢
      rwa [stops_append_iff hlead.ne_nil]
    · exact leads_nil_iff.2 (hshape.concat hpart hmark hc).1

theorem tokenize_concat_blank (t : Text) {c : Char} (h : Text.isBlank c = true) :
    (∃ kind, tokenize (t ++ [c]) = tokenize t ++ [⟨kind, [c]⟩]) ∨
      ∃ init tok, tokenize t = init ++ [tok] ∧ Shape tok ∧ ¬ tok.EndsBefore c ∧
        tokenize (t ++ [c]) = init ++ [⟨tok.kind, tok.text ++ [c]⟩] :=
  tokenize_concat t (Text.isIdentPart_of_isBlank h)
    ⟨Text.ne_of_isBlank h (by decide), Text.ne_of_isBlank h (by decide)⟩

/-- No literal and no comment loses its end when a text is trimmed. -/
theorem isClosed_of_mem_trimEnd {t : Text} (h : ∀ tok ∈ tokenize t, tok.isClosed = true) :
    ∀ tok ∈ tokenize (Text.trimEnd t), tok.isClosed = true := by
  refine @Text.trimEnd_induction (fun u => ∀ tok ∈ tokenize u, tok.isClosed = true) t ?_ h
  intro u c hc hu
  rcases tokenize_concat_blank u hc with ⟨kind, he⟩ | ⟨init, tok, hinit, hshape, hends, he⟩
  · exact fun tok ht => hu tok (by rw [he]; exact List.mem_append_left _ ht)
  · have hgrown := hu ⟨tok.kind, tok.text ++ [c]⟩ (by rw [he]; simp)
    have hshape' : Shape ⟨tok.kind, tok.text ++ [c]⟩ :=
      leads_nil_iff.1 (leads_of_mem_tokenize (t := u ++ [c]) (by rw [he]; simp))
    rw [hinit]
    intro other ho
    rcases List.mem_append.1 ho with ho | ho
    · exact hu other (by rw [he]; exact List.mem_append_left _ ho)
    · rw [List.mem_singleton.1 ho]
      by_cases hk : tok.kind = .literal ∨ tok.kind = .blockComment
      · -- what is closed ends in its closing mark, which is not blank
        obtain ⟨d, hd, hmark⟩ := last_of_isClosed hshape' hk hgrown
        obtain rfl : c = d := by simpa using hd
        have hblank : Text.isBlank c = false := by rcases hmark with rfl | rfl | rfl <;> decide
        rw [hblank] at hc
        cases hc
      · obtain ⟨kind, text⟩ := tok
        cases kind <;> first | rfl | simp at hk

/-- A token that is no closing brace ends no external reference. -/
theorem pieces_concat {toks : List Token} {tok : Token} (h : tok.text ≠ ['\x7d']) :
    pieces (toks ++ [tok]) = pieces toks ++ [.plain tok] := by
  fun_induction pieces toks with
  | case1 op name cl toks hop ih => simp [pieces, hop, ih]
  | case2 op name cl toks hop ih =>
    rw [List.cons_append, List.cons_append, List.cons_append, pieces, if_neg hop]
    simpa using ih
  | case3 op toks hop ih =>
    cases toks with
    | nil => simp [pieces]
    | cons name rest =>
      cases rest with
      | nil => simp [pieces, h]
      | cons cl rest => exact absurd rfl (hop name cl rest)
  | case4 => simp [pieces]

section Externals

variable {f : Text → Text}

theorem mapExternals_concat (t : Text) {c : Char} (h : Text.isBlank c = true) :
    mapExternals f (t ++ [c]) = mapExternals f t ++ [c] := by
  have hbrace : c ≠ '\x7d' := Text.ne_of_isBlank h (by decide)
  unfold mapExternals
  rcases tokenize_concat_blank t h with
    ⟨kind, he⟩ | ⟨init, tok, hinit, hshape, hc, he⟩
  · rw [he, pieces_concat (by simpa using hbrace)]
    simp
  · have htok : tok.text ≠ ['\x7d'] := by
      intro ht
      have hsymbol := eq_symbol_of_text (leads_nil_iff.2 hshape) (by decide) ht
      rw [hsymbol] at hc
      exact hc (by simp [EndsBefore])
    have hgrown : tok.text ++ [c] ≠ ['\x7d'] := by
      intro ht
      have hlast := congrArg List.getLast? ht
      simp [hbrace] at hlast
    rw [he, hinit, pieces_concat htok, pieces_concat hgrown]
    simp

theorem last_mapExternals {P : Char → Prop}
    (hf : ∀ name, isIdentifier name = true → ∃ c ∈ (f name).getLast?, P c)
    {t : Text} (ht : ∀ c ∈ t.getLast?, P c) : ∀ c ∈ (mapExternals f t).getLast?, P c := by
  intro c hc
  unfold mapExternals at hc
  have hspell := given_pieces (tokenize t)
  rw [spell_tokenize] at hspell
  rcases List.eq_nil_or_concat' (pieces (tokenize t)) with hp | ⟨ps, p, hp⟩
  · simp [hp] at hc
  · rw [hp, List.flatMap_append, List.flatMap_singleton] at hspell hc
    cases p with
    | plain tok =>
      have htok : tok ∈ tokenize t := by
        rw [← tokens_pieces fun tok ht => leads_of_mem_tokenize ht, hp]
        simp [Piece.tokens]
      have hne := (leads_of_mem_tokenize htok).ne_nil
      rw [List.getLast?_append_of_ne_nil _ hne] at hc
      rw [← hspell, Piece.given, List.getLast?_append_of_ne_nil _ hne] at ht
      exact ht c hc
    | external name =>
      obtain ⟨tok, htok, hk, rfl⟩ := @mem_of_external_mem_pieces (tokenize t) name (by simp [hp])
      obtain ⟨d, hd, hlast⟩ := hf _ (isIdentifier_of_mem_tokenize htok hk)
      rw [List.getLast?_append, Option.mem_def.1 hd] at hc
      obtain rfl : d = c := by simpa using hc
      exact hlast

theorem mapExternals_trimEnd
    (hf : ∀ name, isIdentifier name = true → ∃ c ∈ (f name).getLast?, Text.isBlank c = false) (t : Text) :
    mapExternals f (Text.trimEnd t) = Text.trimEnd (mapExternals f t) := by
  have htrim : Text.trimEnd (mapExternals f (Text.trimEnd t)) = Text.trimEnd (mapExternals f t) := by
    refine Text.trimEnd_induction (P := fun u => Text.trimEnd (mapExternals f u) = _) ?_ rfl
    intro u c hc hu
    rwa [mapExternals_concat u hc, Text.trimEnd_append_blank _ hc] at hu
  have hlast := Text.trimEnd_of_last (last_mapExternals hf fun c hc => @Text.last_trimEnd t c hc)
  rw [← hlast, htrim]

end Externals

theorem last_mapIdentifiers {f : Text → Option Text}
    (hf : ∀ name target, f name = some target → ∃ c ∈ target.getLast?, Text.isBlank c = false)
    {t : Text} (ht : ∀ c ∈ t.getLast?, Text.isBlank c = false) :
    ∀ c ∈ (mapIdentifiers f t).getLast?, Text.isBlank c = false := by
  intro c hc
  rcases List.eq_nil_or_concat' (tokenize t) with hp | ⟨toks, tok, hp⟩
  · simp [mapIdentifiers, hp] at hc
  · have hne := (leads_of_mem_tokenize (t := t) (by rw [hp]; simp : tok ∈ tokenize t)).ne_nil
    have hlast : ∀ d ∈ tok.text.getLast?, Text.isBlank d = false := by
      intro d hd
      refine ht d ?_
      rwa [← spell_tokenize t, hp, getLast?_spell_concat hne]
    rw [mapIdentifiers, hp, List.flatMap_append, List.flatMap_singleton] at hc
    have hkeep : ∀ front : Text, c ∈ (front ++ tok.text).getLast? → Text.isBlank c = false :=
      fun front h => hlast c (by rwa [List.getLast?_append_of_ne_nil _ hne] at h)
    split at hc
    · cases hr : f tok.text with
      | none => exact hkeep _ (by rwa [hr] at hc)
      | some target =>
        obtain ⟨d, hd, hblank⟩ := hf _ _ hr
        rw [hr, Option.getD_some, List.getLast?_append, Option.mem_def.1 hd] at hc
        obtain rfl : d = c := by simpa using hc
        exact hblank
    · exact hkeep _ hc

end Token
end OpenGrammar
