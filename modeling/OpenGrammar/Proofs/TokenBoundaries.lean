import OpenGrammar.Proofs.Blocks

/-! Where tokens end. A token is told from the one behind it by the first character of the
latter alone. So texts can be cut and joined at token boundaries, and the tokens of the
parts are the tokens of the whole. -/
namespace OpenGrammar
namespace Token

/-- Whether a literal has its closing quote; its text is given behind the opening one. -/
def closesLiteral (quote : Char) : Text → Bool
  | [] => false
  | c :: cs =>
    if c = quote then true
    else if c = '\\' then
      match cs with
      | [] => false
      | _ :: ds => closesLiteral quote ds
    else closesLiteral quote cs

def closesBlock : Text → Bool
  | [] => false
  | '*' :: '/' :: _ => true
  | _ :: cs => closesBlock cs

/-- Literals and block comments that lack their end run to the end of the text. -/
def isClosed (tok : Token) : Bool :=
  match tok.kind, tok.text with
  | .literal, quote :: cs => closesLiteral quote cs
  | .blockComment, _ :: _ :: cs => closesBlock cs
  | _, _ => true

/-- Whether a token stays as it is when the character comes behind it. -/
def EndsBefore (tok : Token) (d : Char) : Prop :=
  match tok.kind with
  | .identifier | .number => isIdentPart d = false
  | .literal | .blockComment => tok.isClosed = true
  | .lineComment => d = '\n'
  | .whitespace => isGap d = false
  | .symbol => tok.text = ['/'] → d ≠ '/' ∧ d ≠ '*'

/-- Whether a token stays as it is when the text comes behind it. -/
def Stops (tok : Token) (rest : Text) : Prop := ∀ d ∈ rest.head?, tok.EndsBefore d

/-- The token is the first of its own text followed by `rest`. -/
def Leads (tok : Token) (rest : Text) : Prop :=
  ∃ c cs, tok.text = c :: cs ∧ first c (cs ++ rest) = (tok.kind, cs, rest)

@[simp] theorem stops_nil (tok : Token) : tok.Stops [] := by
  intro d hd
  cases hd

@[simp] theorem stops_cons {tok : Token} {d : Char} {rest : Text} :
    tok.Stops (d :: rest) ↔ tok.EndsBefore d := by
  simp [Stops]

/-! One token -/

theorem span_append_iff {p : Char → Bool} {a b : Text} :
    ((a ++ b).takeWhile p = a ∧ (a ++ b).dropWhile p = b) ↔
      (∀ c ∈ a, p c = true) ∧ ∀ d ∈ b.head?, p d = false := by
  constructor
  · rintro ⟨ha, hb⟩
    refine ⟨fun c hc => ?_, fun d hd => ?_⟩
    · rw [← ha] at hc
      exact List.all_eq_true.1 List.all_takeWhile c hc
    · have hh := List.head?_dropWhile_not p (a ++ b)
      rw [hb, Option.mem_def.1 hd] at hh
      exact hh
  · rintro ⟨ha, hb⟩
    have hstop : b.takeWhile p = [] ∧ b.dropWhile p = b := by
      cases b with
      | nil => simp
      | cons d ds => simp [hb d rfl]
    rw [List.takeWhile_append_of_pos ha, List.dropWhile_append_of_pos ha, hstop.1, hstop.2]
    simp

theorem literalTail_quote (quote : Char) (cs : Text) :
    literalTail quote (quote :: cs) = ([quote], cs) := by
  rw [literalTail.eq_def]
  simp

theorem literalTail_escape {quote : Char} (hq : '\\' ≠ quote) (d : Char) (ds : Text) :
    literalTail quote ('\\' :: d :: ds) = (literalTail quote ds).map ('\\' :: d :: ·) id := by
  rw [literalTail.eq_def]
  simp [hq]

theorem literalTail_cons {quote c : Char} (hq : c ≠ quote) (hc : c ≠ '\\') (cs : Text) :
    literalTail quote (c :: cs) = (literalTail quote cs).map (c :: ·) id := by
  rw [literalTail.eq_def]
  simp [hq, hc]

theorem literalTail_ne_nil (quote d : Char) (ds : Text) : (literalTail quote (d :: ds)).1 ≠ [] := by
  rw [literalTail.eq_def]
  simp only
  split
  · simp
  split
  · split <;> simp
  · simp

/-- The rest of a literal is the same with a text behind it, if it has its closing quote or
the text is empty. -/
theorem literalTail_append_iff {quote : Char} {a b : Text} :
    literalTail quote (a ++ b) = (a, b) ↔
      literalTail quote a = (a, []) ∧ (b = [] ∨ closesLiteral quote a = true) := by
  fun_induction closesLiteral quote a with
  | case1 =>
    cases b with
    | nil => simp
    | cons d ds =>
      simp only [List.nil_append, reduceCtorEq, Bool.false_eq_true, or_self, and_false, iff_false]
      exact fun h => literalTail_ne_nil quote d ds (congrArg Prod.fst h)
  | case2 cs => simp [literalTail_quote]
  | case3 hq =>
    cases b with
    | nil => simp
    | cons d ds => simp [literalTail_escape hq, Prod.ext_iff]
  | case4 d ds hq ih =>
    simpa [literalTail_escape hq, Prod.ext_iff] using ih
  | case5 c cs hq hc ih =>
    simpa [literalTail_cons hq hc, Prod.ext_iff] using ih

theorem blockTail_cons {c : Char} {cs : Text} (h : ¬ (c = '*' ∧ cs.head? = some '/')) :
    blockTail (c :: cs) = (blockTail cs).map (c :: ·) id := by
  rw [blockTail.eq_def]
  split <;> simp_all

theorem blockTail_ne_nil (d : Char) (ds : Text) : (blockTail (d :: ds)).1 ≠ [] := by
  rw [blockTail.eq_def]
  split <;> simp_all

theorem blockTail_append_iff {a b : Text} :
    blockTail (a ++ b) = (a, b) ↔
      blockTail a = (a, []) ∧ (b = [] ∨ closesBlock a = true) := by
  fun_induction closesBlock a with
  | case1 =>
    cases b with
    | nil => simp
    | cons d ds =>
      simp only [List.nil_append, reduceCtorEq, Bool.false_eq_true, or_self, and_false, iff_false]
      exact fun h => blockTail_ne_nil d ds (congrArg Prod.fst h)
  | case2 cs => simp [blockTail]
  | case3 c cs hne ih =>
    cases cs with
    | cons e es =>
      have hmark : ¬ (c = '*' ∧ e = '/') := fun hm => hne es hm.1 (by rw [hm.2])
      have hstep : ∀ x, blockTail (c :: e :: x) = (blockTail (e :: x)).map (c :: ·) id := fun x =>
        blockTail_cons (by simpa using hmark)
      rw [List.cons_append, List.cons_append, hstep, hstep]
      simpa [Prod.ext_iff] using ih
    | nil =>
      cases b with
      | nil => simp
      | cons d ds =>
        -- the mark may lie on the boundary, and is then no part of the comment before it
        simp only [List.cons_append, List.nil_append, closesBlock, reduceCtorEq, Bool.false_eq_true,
          or_self, and_false, iff_false]
        by_cases hmark : c = '*' ∧ d = '/'
        · simp [hmark.1, hmark.2, blockTail]
        · rw [blockTail_cons (by simpa using hmark)]
          intro h
          have hne := blockTail_ne_nil d ds
          simp [Prod.ext_iff] at h
          exact hne h.1

theorem first_of_identStart {c : Char} (h : isIdentStart c = true) (cs : Text) :
    first c cs = (.identifier, cs.takeWhile isIdentPart, cs.dropWhile isIdentPart) := by
  simp [first, h]

theorem first_of_digit {c : Char} (hs : isIdentStart c = false) (h : c.isDigit = true) (cs : Text) :
    first c cs = (.number, cs.takeWhile isIdentPart, cs.dropWhile isIdentPart) := by
  simp [first, hs, h]

theorem first_of_quote {c : Char} (h : c = '\'' ∨ c = '"') (cs : Text) :
    first c cs = (.literal, literalTail c cs) := by
  rcases h with rfl | rfl <;> rfl

theorem first_of_gap {c : Char} (h : isGap c = true) (cs : Text) :
    first c cs = (.whitespace, cs.takeWhile isGap, cs.dropWhile isGap) := by
  simp only [isGap, Bool.or_eq_true, beq_iff_eq] at h
  rcases h with (((rfl | rfl) | rfl) | rfl) | rfl <;> rfl

theorem first_lineComment (cs : Text) :
    first '/' ('/' :: cs) =
      (.lineComment, '/' :: cs.takeWhile (· != '\n'), cs.dropWhile (· != '\n')) := rfl

theorem first_blockComment (cs : Text) :
    first '/' ('*' :: cs) = (.blockComment, (blockTail cs).map ('*' :: ·) id) := rfl

theorem first_of_slash {cs : Text} (h : ∀ d ∈ cs.head?, d ≠ '/' ∧ d ≠ '*') :
    first '/' cs = (.symbol, [], cs) := by
  have h1 : cs.head? ≠ some '/' := fun hh => (h _ hh).1 rfl
  have h2 : cs.head? ≠ some '*' := fun hh => (h _ hh).2 rfl
  simp [first, h1, h2, isIdentStart, isGap]

/-- The characters that are symbols wherever they begin a token. -/
def isPlain (c : Char) : Bool :=
  !(isIdentStart c || c.isDigit || c == '\'' || c == '"' || c == '/' || isGap c)

theorem first_of_plain {c : Char} (h : isPlain c = true) (cs : Text) :
    first c cs = (.symbol, [], cs) := by
  simp only [isPlain, Bool.not_eq_true', Bool.or_eq_false_iff, beq_eq_false_iff_ne] at h
  simp [first, h]

theorem char_cases (c : Char) :
    isIdentStart c = true ∨ isIdentStart c = false ∧ c.isDigit = true ∨ (c = '\'' ∨ c = '"') ∨
      c = '/' ∨ isGap c = true ∨ isPlain c = true := by
  by_cases h : isPlain c = true
  · simp [h]
  · simp only [isPlain, Bool.not_eq_true', Bool.not_eq_false, Bool.or_eq_true, beq_iff_eq] at h
    by_cases hs : isIdentStart c = true
    · exact Or.inl hs
    · simp [hs] at h ⊢
      tauto

theorem span_eq_self_iff {p : Char → Bool} {a : Text} :
    (a.takeWhile p = a ∧ a.dropWhile p = []) ↔ ∀ c ∈ a, p c = true := by
  have h := @span_append_iff p a []
  rw [List.append_nil] at h
  rw [h]
  simp

theorem span_append_iff_span {p : Char → Bool} {a b : Text} :
    ((a ++ b).takeWhile p = a ∧ (a ++ b).dropWhile p = b) ↔
      (a.takeWhile p = a ∧ a.dropWhile p = []) ∧ ∀ d ∈ b.head?, p d = false := by
  rw [span_append_iff, span_eq_self_iff]

theorem forall_head?_iff {rest : Text} {p : Prop} :
    (∀ d, rest.head? = some d → p) ↔ rest = [] ∨ p := by
  cases rest <;> simp

theorem exists_mark_of_not {t : Text} (h : ¬ ∀ d ∈ t.head?, d ≠ '/' ∧ d ≠ '*') :
    ∃ d ds, t = d :: ds ∧ (d = '/' ∨ d = '*') := by
  cases t with
  | nil => simp at h
  | cons d ds => exact ⟨d, ds, rfl, by simpa [or_iff_not_imp_left] using h⟩

theorem first_slash_append_iff {kind : TokenKind} {cs rest : Text} :
    first '/' (cs ++ rest) = (kind, cs, rest) ↔
      first '/' cs = (kind, cs, []) ∧ Stops ⟨kind, '/' :: cs⟩ rest := by
  cases cs with
  | nil =>
    have hsymbol : first '/' [] = (.symbol, [], []) := rfl
    rw [List.nil_append, hsymbol]
    by_cases hr : ∀ d ∈ rest.head?, d ≠ '/' ∧ d ≠ '*'
    · rw [first_of_slash hr]
      cases kind <;> simp [Stops, EndsBefore]
      simpa using hr
    · -- with the second mark the slash is the start of a comment
      obtain ⟨d, r, rfl, hd⟩ := exists_mark_of_not hr
      rcases hd with rfl | rfl
      · rw [first_lineComment]
        cases kind <;> simp [Stops, EndsBefore]
      · rw [first_blockComment]
        cases kind <;> simp [Stops, EndsBefore, Prod.ext_iff]
  | cons d ds =>
    by_cases hd : d = '/' ∨ d = '*'
    · rcases hd with rfl | rfl
      · have hline := @span_append_iff_span (· != '\n') ds rest
        simp only [bne_eq_false_iff_eq] at hline
        rw [List.cons_append, first_lineComment, first_lineComment]
        cases kind <;> simp [hline, Stops, EndsBefore]
      · have hblock := @blockTail_append_iff ds rest
        simp only [Prod.ext_iff] at hblock
        rw [List.cons_append, first_blockComment, first_blockComment]
        cases kind <;> simp [hblock, Stops, EndsBefore, isClosed, forall_head?_iff, Prod.ext_iff]
    · have hslash : ∀ x, first '/' (d :: x) = (.symbol, [], d :: x) := fun x =>
        first_of_slash (by simpa [not_or] using hd)
      rw [List.cons_append, hslash, hslash]
      simp

/-- What comes behind a token matters to it only by its first character. -/
theorem leads_iff {tok : Token} {rest : Text} : tok.Leads rest ↔ tok.Leads [] ∧ tok.Stops rest := by
  obtain ⟨kind, text⟩ := tok
  cases text with
  | nil => simp [Leads]
  | cons c cs =>
    have hleads : ∀ r, Leads ⟨kind, c :: cs⟩ r ↔ first c (cs ++ r) = (kind, cs, r) := by
      simp [Leads]
    rw [hleads, hleads, List.append_nil]
    rcases char_cases c with h | ⟨hs, h⟩ | h | rfl | h | h
    · rw [first_of_identStart h, first_of_identStart h]
      cases kind <;> simp [span_append_iff_span, Stops, EndsBefore]
    · rw [first_of_digit hs h, first_of_digit hs h]
      cases kind <;> simp [span_append_iff_span, Stops, EndsBefore]
    · rw [first_of_quote h, first_of_quote h]
      cases kind <;>
        simp [literalTail_append_iff, Stops, EndsBefore, isClosed, forall_head?_iff]
    · exact first_slash_append_iff
    · rw [first_of_gap h, first_of_gap h]
      cases kind <;> simp [span_append_iff_span, Stops, EndsBefore]
    · have hslash : c ≠ '/' := by
        rintro rfl
        exact absurd h (by decide)
      rw [first_of_plain h, first_of_plain h]
      cases kind <;> simp [Stops, EndsBefore, hslash, eq_comm (a := [])]

inductive Shape : Token → Prop
  | identifier {c : Char} {cs : Text} : isIdentStart c = true → (∀ d ∈ cs, isIdentPart d = true) →
    Shape ⟨.identifier, c :: cs⟩
  | number {c : Char} {cs : Text} : isIdentStart c = false → c.isDigit = true →
    (∀ d ∈ cs, isIdentPart d = true) → Shape ⟨.number, c :: cs⟩
  | literal {quote : Char} {cs : Text} : quote = '\'' ∨ quote = '"' →
    literalTail quote cs = (cs, []) → Shape ⟨.literal, quote :: cs⟩
  | lineComment {cs : Text} : '\n' ∉ cs → Shape ⟨.lineComment, '/' :: '/' :: cs⟩
  | blockComment {cs : Text} : blockTail cs = (cs, []) → Shape ⟨.blockComment, '/' :: '*' :: cs⟩
  | whitespace {c : Char} {cs : Text} : (∀ d ∈ c :: cs, isGap d = true) → Shape ⟨.whitespace, c :: cs⟩
  | slash : Shape ⟨.symbol, ['/']⟩
  | symbol {c : Char} : isPlain c = true → Shape ⟨.symbol, [c]⟩

theorem shape_of_slash {kind : TokenKind} {cs : Text} (h : first '/' cs = (kind, cs, [])) :
    Shape ⟨kind, '/' :: cs⟩ := by
  by_cases hd : ∀ d ∈ cs.head?, d ≠ '/' ∧ d ≠ '*'
  · rw [first_of_slash hd] at h
    obtain ⟨rfl, hs⟩ := Prod.mk.inj h
    obtain rfl := (Prod.mk.inj hs).1
    exact .slash
  · obtain ⟨d, ds, rfl, hmark⟩ := exists_mark_of_not hd
    rcases hmark with rfl | rfl
    · rw [first_lineComment] at h
      obtain ⟨rfl, hspan⟩ := Prod.mk.inj h
      simp only [Prod.mk.injEq, List.cons.injEq, true_and] at hspan
      have hne := span_eq_self_iff.1 hspan
      exact .lineComment fun hm => absurd (hne _ hm) (by decide)
    · rw [first_blockComment] at h
      obtain ⟨rfl, hb⟩ := Prod.mk.inj h
      refine .blockComment ?_
      simpa [Prod.ext_iff] using hb

theorem leads_nil_iff {tok : Token} : tok.Leads [] ↔ Shape tok := by
  constructor
  · rintro ⟨c, cs, he, hf⟩
    obtain ⟨kind, text⟩ := tok
    obtain rfl : text = c :: cs := he
    rw [List.append_nil] at hf
    rcases char_cases c with h | ⟨hs, h⟩ | h | rfl | h | h
    · rw [first_of_identStart h] at hf
      obtain ⟨rfl, hspan⟩ := Prod.mk.inj hf
      exact .identifier h (span_eq_self_iff.1 (Prod.mk.inj hspan))
    · rw [first_of_digit hs h] at hf
      obtain ⟨rfl, hspan⟩ := Prod.mk.inj hf
      exact .number hs h (span_eq_self_iff.1 (Prod.mk.inj hspan))
    · rw [first_of_quote h] at hf
      obtain ⟨rfl, hl⟩ := Prod.mk.inj hf
      exact .literal h hl
    · exact shape_of_slash hf
    · rw [first_of_gap h] at hf
      obtain ⟨rfl, hspan⟩ := Prod.mk.inj hf
      exact .whitespace (by simpa [h] using span_eq_self_iff.1 (Prod.mk.inj hspan))
    · rw [first_of_plain h] at hf
      obtain ⟨rfl, hs⟩ := Prod.mk.inj hf
      obtain rfl := (Prod.mk.inj hs).1
      exact .symbol h
  · intro h
    cases h with
    | @identifier c cs hc hcs =>
      have hspan := span_eq_self_iff.2 hcs
      exact ⟨c, cs, rfl, by rw [List.append_nil, first_of_identStart hc, hspan.1, hspan.2]⟩
    | @number c cs hs hc hcs =>
      have hspan := span_eq_self_iff.2 hcs
      exact ⟨c, cs, rfl, by rw [List.append_nil, first_of_digit hs hc, hspan.1, hspan.2]⟩
    | @literal quote cs hq hl =>
      exact ⟨quote, cs, rfl, by rw [List.append_nil, first_of_quote hq, hl]⟩
    | @lineComment cs hcs =>
      have hspan := span_eq_self_iff.2 fun d hd => bne_iff_ne.2 (ne_of_mem_of_not_mem hd hcs)
      exact ⟨'/', '/' :: cs, rfl, by rw [List.append_nil, first_lineComment, hspan.1, hspan.2]⟩
    | @blockComment cs hcs => exact ⟨'/', _, rfl, by rw [List.append_nil, first_blockComment, hcs]; rfl⟩
    | @whitespace c cs hcs =>
      have hspan := span_eq_self_iff.2 fun d hd => hcs d (List.mem_cons_of_mem _ hd)
      exact ⟨c, cs, rfl, by rw [List.append_nil, first_of_gap (hcs c (by simp)), hspan.1, hspan.2]⟩
    | slash => exact ⟨'/', [], rfl, rfl⟩
    | @symbol c hc => exact ⟨c, [], rfl, by rw [List.append_nil, first_of_plain hc]⟩

theorem Leads.ne_nil {tok : Token} {rest : Text} (h : tok.Leads rest) : tok.text ≠ [] := by
  obtain ⟨c, cs, he, -⟩ := h
  simp [he]

theorem Leads.alone {tok : Token} {rest : Text} (h : tok.Leads rest) : tok.Leads [] :=
  (leads_iff.1 h).1

theorem Leads.stops {tok : Token} {rest : Text} (h : tok.Leads rest) : tok.Stops rest :=
  (leads_iff.1 h).2

theorem leads_of_plain {c : Char} (h : isPlain c = true) (rest : Text) : Leads ⟨.symbol, [c]⟩ rest :=
  ⟨c, [], rfl, by rw [List.nil_append, first_of_plain h]⟩

theorem leads_of_gap {gap rest : Text} (hne : gap ≠ []) (hgap : ∀ c ∈ gap, isGap c = true)
    (hrest : ∀ d ∈ rest.head?, isGap d = false) : Leads ⟨.whitespace, gap⟩ rest := by
  cases gap with
  | nil => exact absurd rfl hne
  | cons c cs =>
    have hspan := span_append_iff.2 ⟨fun d hd => hgap d (List.mem_cons_of_mem _ hd), hrest⟩
    exact ⟨c, cs, rfl, by rw [first_of_gap (hgap c (by simp)), hspan.1, hspan.2]⟩

theorem tokenize_of_leads {tok : Token} {rest : Text} (h : tok.Leads rest) :
    tokenize (tok.text ++ rest) = tok :: tokenize rest := by
  obtain ⟨c, cs, he, hf⟩ := h
  rw [he, List.cons_append, tokenize, hf, ← he]

theorem tokenize_plain {c : Char} (h : isPlain c = true) (rest : Text) :
    tokenize (c :: rest) = ⟨.symbol, [c]⟩ :: tokenize rest :=
  tokenize_of_leads (leads_of_plain h rest)

theorem tokenize_gap {gap rest : Text} (hne : gap ≠ []) (hgap : ∀ c ∈ gap, isGap c = true)
    (hrest : ∀ d ∈ rest.head?, isGap d = false) :
    tokenize (gap ++ rest) = ⟨.whitespace, gap⟩ :: tokenize rest :=
  tokenize_of_leads (leads_of_gap hne hgap hrest)

theorem leads_of_tokenize {t : Text} {tok : Token} {toks : List Token}
    (h : tokenize t = tok :: toks) : tok.Leads (spell toks) := by
  cases t with
  | nil => simp [tokenize] at h
  | cons c cs =>
    rw [tokenize] at h
    obtain ⟨rfl, rfl⟩ := List.cons.inj h
    rw [spell_tokenize]
    exact ⟨c, _, rfl, by rw [first_append]⟩

/-! The last character of a token -/

theorem last_of_closesLiteral {quote : Char} {cs : Text} (hl : literalTail quote cs = (cs, []))
    (h : closesLiteral quote cs = true) : cs.getLast? = some quote := by
  fun_induction closesLiteral quote cs with
  | case1 => cases h
  | case2 cs =>
    rw [literalTail_quote] at hl
    obtain rfl : cs = [] := congrArg Prod.snd hl
    rfl
  | case3 => cases h
  | case4 d ds hq ih =>
    rw [literalTail_escape hq] at hl
    have hds := ih (by simpa [Prod.ext_iff] using hl) h
    simp [List.getLast?_cons, hds]
  | case5 c cs hq hc ih =>
    rw [literalTail_cons hq hc] at hl
    have hcs := ih (by simpa [Prod.ext_iff] using hl) h
    simp [List.getLast?_cons, hcs]

theorem last_of_closesBlock {cs : Text} (hl : blockTail cs = (cs, []))
    (h : closesBlock cs = true) : cs.getLast? = some '/' := by
  fun_induction closesBlock cs with
  | case1 => cases h
  | case2 cs =>
    simp only [blockTail, Prod.mk.injEq, List.cons.injEq, true_and] at hl
    rw [← hl.1]
    rfl
  | case3 c cs hne ih =>
    have hmark : ¬ (c = '*' ∧ cs.head? = some '/') := by
      rintro ⟨rfl, hh⟩
      obtain ⟨ds, rfl⟩ := List.head?_eq_some_iff.1 hh
      exact hne ds rfl rfl
    rw [blockTail_cons hmark] at hl
    have hcs := ih (by simpa [Prod.ext_iff] using hl) h
    simp [List.getLast?_cons, hcs]

theorem last_of_isClosed {tok : Token} (h : Shape tok)
    (hk : tok.kind = .literal ∨ tok.kind = .blockComment) (hc : tok.isClosed = true) :
    ∃ c ∈ tok.text.getLast?, c = '\'' ∨ c = '"' ∨ c = '/' := by
  cases h with
  | @literal quote cs hq hl =>
    refine ⟨quote, ?_, hq.imp_right Or.inl⟩
    rw [List.getLast?_cons, last_of_closesLiteral hl hc]
    rfl
  | @blockComment cs hl =>
    refine ⟨'/', ?_, by simp⟩
    rw [List.getLast?_cons, List.getLast?_cons, last_of_closesBlock hl hc]
    rfl
  | identifier => simp at hk
  | number => simp at hk
  | lineComment => simp at hk
  | whitespace => simp at hk
  | slash => simp at hk
  | symbol => simp at hk

/-! Runs of tokens -/

/-- The tokens come first, one behind the other, in their text followed by `rest`. -/
def Parted : List Token → Text → Prop
  | [], _ => True
  | tok :: toks, rest => tok.Leads (spell toks ++ rest) ∧ Parted toks rest

@[simp] theorem parted_nil (rest : Text) : Parted [] rest := trivial

@[simp] theorem spell_cons (tok : Token) (toks : List Token) :
    spell (tok :: toks) = tok.text ++ spell toks := rfl

@[simp] theorem spell_nil : spell [] = [] := rfl

theorem getLast?_spell_concat {toks : List Token} {tok : Token} (h : tok.text ≠ []) :
    (spell (toks ++ [tok])).getLast? = tok.text.getLast? := by
  rw [spell_append, spell_cons, spell_nil, List.append_nil, List.getLast?_append_of_ne_nil _ h]

theorem parted_append {a b : List Token} {rest : Text} :
    Parted (a ++ b) rest ↔ Parted a (spell b ++ rest) ∧ Parted b rest := by
  induction a with
  | nil => simp
  | cons tok a ih => simp [Parted, ih, spell_append, and_assoc]

theorem tokenize_of_parted {toks : List Token} {rest : Text} (h : Parted toks rest) :
    tokenize (spell toks ++ rest) = toks ++ tokenize rest := by
  induction toks with
  | nil => rfl
  | cons tok toks ih =>
    rw [spell_cons, List.append_assoc, tokenize_of_leads h.1, ih h.2]
    rfl

theorem parted_tokenize (t : Text) : Parted (tokenize t) [] := by
  induction h : tokenize t generalizing t with
  | nil => exact parted_nil _
  | cons tok toks ih =>
    have hl := leads_of_tokenize h
    refine ⟨by rwa [List.append_nil], ih (spell toks) ?_⟩
    have ht := tokenize_of_leads hl
    rw [← spell_cons, ← h, spell_tokenize, h] at ht
    exact (List.cons.inj ht).2.symm

theorem leads_of_mem_tokenize {t : Text} {tok : Token} (h : tok ∈ tokenize t) : tok.Leads [] := by
  obtain ⟨a, b, he⟩ := List.append_of_mem h
  have hp := parted_tokenize t
  rw [he, parted_append] at hp
  exact hp.2.1.alone

theorem eq_symbol_of_text {tok : Token} {c : Char} (h : tok.Leads []) (hc : isPlain c = true)
    (ht : tok.text = [c]) : tok = ⟨.symbol, [c]⟩ := by
  obtain ⟨kind, text⟩ := tok
  obtain ⟨d, ds, he, hf⟩ := h
  obtain rfl : text = [c] := ht
  obtain ⟨rfl, rfl⟩ : c = d ∧ [] = ds := by simpa using he
  rw [List.append_nil, first_of_plain hc] at hf
  obtain rfl : TokenKind.symbol = kind := congrArg Prod.fst hf
  rfl

theorem Parted.spell_ne_nil {toks : List Token} {rest : Text} (h : Parted toks rest)
    (hne : toks ≠ []) : spell toks ≠ [] := by
  cases toks with
  | nil => exact absurd rfl hne
  | cons tok toks => simp [h.1.ne_nil]

theorem stops_append_iff {tok : Token} {a b : Text} (ha : a ≠ []) :
    tok.Stops (a ++ b) ↔ tok.Stops a := by
  cases a with
  | nil => exact absurd rfl ha
  | cons c cs => rfl

/-- What comes behind a run of tokens matters to its last token alone. -/
theorem parted_iff {toks : List Token} {rest : Text} :
    Parted toks rest ↔ Parted toks [] ∧ ∀ tok ∈ toks.getLast?, tok.Stops rest := by
  induction toks with
  | nil => simp
  | cons tok toks ih =>
    by_cases hne : toks = []
    · simp [hne, Parted, @leads_iff tok rest]
    · have hlast : (tok :: toks).getLast? = toks.getLast? := by
        rw [List.getLast?_cons_of_ne_nil hne]
      simp only [Parted, ih, hlast]
      constructor
      · rintro ⟨hl, hp, ht⟩
        have hspell := hp.spell_ne_nil hne
        rw [leads_iff, stops_append_iff hspell] at hl
        exact ⟨⟨by rwa [leads_iff, stops_append_iff hspell], hp⟩, ht⟩
      · rintro ⟨⟨hl, hp⟩, ht⟩
        have hspell := hp.spell_ne_nil hne
        rw [leads_iff, stops_append_iff hspell] at hl
        exact ⟨by rwa [leads_iff, stops_append_iff hspell], hp, ht⟩

theorem tokenize_append {a b : Text} (h : ∀ tok ∈ (tokenize a).getLast?, tok.Stops b) :
    tokenize (a ++ b) = tokenize a ++ tokenize b := by
  have hp := tokenize_of_parted (parted_iff.2 ⟨parted_tokenize a, h⟩)
  rwa [spell_tokenize] at hp

theorem tokenize_spell {toks : List Token} (h : Parted toks []) : tokenize (spell toks) = toks := by
  have ht := tokenize_of_parted h
  rwa [List.append_nil, tokenize, List.append_nil] at ht

/-- Tokens between two boundaries of a text are the tokens of what they spell. -/
theorem tokenize_spell_of_tokenize {t : Text} {a b c : List Token}
    (h : tokenize t = a ++ (b ++ c)) : tokenize (spell b) = b := by
  have hp := parted_tokenize t
  rw [h, parted_append, parted_append] at hp
  exact tokenize_spell (parted_iff.1 hp.2.1).1

end Token
end OpenGrammar
