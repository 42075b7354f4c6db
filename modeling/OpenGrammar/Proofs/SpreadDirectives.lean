import OpenGrammar.Proofs.BaseClassDirectives
import OpenGrammar.Proofs.Composing
import OpenGrammar.Proofs.Lines

/-! Base class directives of the given header in the composed one. The header is read as a whole
but cleared line by line, so that a directive that is spread over lines stays. -/
namespace OpenGrammar
namespace Text

theorem exists_last_newline {t : Text} (h : '\n' ∈ t) : ∃ f x, t = f ++ '\n' :: x ∧ '\n' ∉ x := by
  obtain ⟨x, f, hr, hx⟩ := List.eq_append_cons_of_mem (List.mem_reverse.2 h)
  refine ⟨f.reverse, x.reverse, ?_, by simpa using hx⟩
  rw [← List.reverse_reverse t, hr]
  simp

/-- The texts with a line feed at their end, if they are not empty. -/
def EndsLine (t : Text) : Prop := t = [] ∨ ∃ f, t = f ++ ['\n']

theorem exists_last_line (t : Text) : ∃ front line, t = front ++ line ∧ EndsLine front ∧ '\n' ∉ line := by
  by_cases h : '\n' ∈ t
  · obtain ⟨f, x, rfl, hx⟩ := exists_last_newline h
    exact ⟨f ++ ['\n'], x, by simp, .inr ⟨f, rfl⟩, hx⟩
  · exact ⟨[], t, rfl, .inl rfl, h⟩

theorem EndsLine.rawLines_append {a : Text} (h : EndsLine a) (b : Text) :
    rawLines (a ++ b) = rawLines a ++ rawLines b := by
  rcases h with rfl | ⟨f, rfl⟩
  · rfl
  · rw [List.append_assoc]
    exact rawLines_append_newline f b

end Text

namespace Header

open Text
open OpenGrammar.Composition (sampleNames)

/-- The text behind the opening brace. -/
def inner (header : Text) : Text :=
  match header.dropWhile (· != '\x7b') with
  | _ :: cs => cs
  | [] => header

theorem afterBrace_eq (header : Text) : afterBrace header =
    match rawLines (inner header) with
    | line :: lines => if allBlank line then lines.flatten else inner header
    | [] => inner header := rfl

theorem exists_inner_eq (header : Text) :
    ∃ gap, allBlank gap = true ∧ inner header = gap ++ afterBrace header := by
  rw [afterBrace_eq]
  cases hl : rawLines (inner header) with
  | nil => exact ⟨[], rfl, rfl⟩
  | cons line lines =>
    have hflat := flatten_rawLines (inner header)
    rw [hl, List.flatten_cons] at hflat
    by_cases hb : allBlank line = true
    · simp only [hb, if_true]
      exact ⟨line, hb, hflat.symm⟩
    · simp only [hb]
      exact ⟨[], rfl, rfl⟩

/-- A text without the base class directives on its lines. -/
def withoutBaseClass (t : Text) : Text := (rawLines t).flatMap dropBaseClass

theorem withoutBaseClass_append {a : Text} (h : EndsLine a) (b : Text) :
    withoutBaseClass (a ++ b) = withoutBaseClass a ++ withoutBaseClass b := by
  rw [withoutBaseClass, h.rawLines_append, List.flatMap_append]
  rfl

/-- A line is dropped only if blank characters are all that is left of it. -/
theorem dropBaseClass_cases (line : Text) :
    dropBaseClass line = eraseAll baseClassDirective? line ∨
      dropBaseClass line = [] ∧ allBlank (eraseAll baseClassDirective? line) = true := by
  unfold dropBaseClass
  split
  · rename_i hn
    left
    rw [Option.isNone_iff_eq_none, find?_eq_none_iff anchored_baseClassDirective] at hn
    exact (eraseAll_barren hn).symm
  · by_cases hb : allBlank (eraseAll baseClassDirective? line) = true
    · exact .inr ⟨if_pos hb, hb⟩
    · exact .inl (if_neg hb)

theorem dropBaseClass_eq {line : Text}
    (h : ∃ c ∈ eraseAll baseClassDirective? line, isBlank c = false) :
    dropBaseClass line = eraseAll baseClassDirective? line := by
  rcases dropBaseClass_cases line with hd | ⟨-, hall⟩
  · exact hd
  · obtain ⟨c, hc, hblank⟩ := h
    rw [List.all_eq_true.1 hall c hc] at hblank
    cases hblank

theorem withoutBaseClass_of_one {a : Text} (h : '\n' ∉ a) : withoutBaseClass a = dropBaseClass a := by
  by_cases hne : a = []
  · rw [hne]
    rfl
  · rw [withoutBaseClass, rawLines_of_one hne h, List.flatMap_singleton]

theorem withoutBaseClass_newline {a : Text} (h : '\n' ∉ a) (b : Text) :
    withoutBaseClass (a ++ '\n' :: b) = dropBaseClass (a ++ ['\n']) ++ withoutBaseClass b := by
  rw [withoutBaseClass, rawLines_of_not_mem b h, List.flatMap_cons]
  rfl

theorem withoutBaseClass_of_no_quote {t : Text} (h : '"' ∉ t) : withoutBaseClass t = t := by
  have hlines : ∀ line ∈ rawLines t, dropBaseClass line = line := by
    intro line hl
    have hquote : '"' ∉ line := by
      rw [← flatten_rawLines t] at h
      exact fun hm => h (List.mem_flatten_of_mem hl hm)
    rw [dropBaseClass, (find?_eq_none_iff anchored_baseClassDirective).2
      (unreached_of_no_quote hquote).barren]
    rfl
  rw [withoutBaseClass, List.flatMap_congr hlines, List.flatMap_id', flatten_rawLines]

/-! What stays of a line -/

theorem suffix_dropBaseClass {b : Text} (hb : Unreached baseClassDirective? b)
    (hblank : ∃ c ∈ b, isBlank c = false) (a : Text) : b <:+ dropBaseClass (a ++ b) := by
  obtain ⟨c, hc, hblank⟩ := hblank
  have he := eraseAll_unreached anchored_baseClassDirective hb a
  rw [dropBaseClass_eq ⟨c, he ▸ List.mem_append_right _ hc, hblank⟩, he]
  exact List.suffix_append _ b

theorem prefix_dropBaseClass {a : Text} (ha : Quiet baseClassDirective? a)
    (hblank : ∃ c ∈ a, isBlank c = false) (b : Text) : a <+: dropBaseClass (a ++ b) := by
  obtain ⟨c, hc, hblank⟩ := hblank
  have he := eraseAll_append (ha b)
  rw [dropBaseClass_eq ⟨c, he ▸ List.mem_append_left _ hc, hblank⟩, he]
  exact List.prefix_append a _

/-- Lines without quotation marks stay behind any text, if the first of them does not start with
a blank character. -/
theorem suffix_withoutBaseClass {a q : Text} (hquote : '"' ∉ q ++ ['\n'])
    (hhead : ∃ c ∈ q.head?, isBlank c = false) :
    q ++ ['\n'] <:+ withoutBaseClass (a ++ (q ++ ['\n'])) := by
  obtain ⟨c, hc, hblank⟩ := hhead
  obtain ⟨front, last, rfl, hfront, hlast⟩ := exists_last_line a
  -- The first of the lines goes on from the last line of `a`.
  rcases exists_newline_split (q ++ ['\n']) with hno | ⟨line, b, hline, hq⟩
  · exact absurd (by simp) hno
  have hfirst : c ∈ (line ++ ['\n']).head? := by
    have hh : (q ++ ['\n']).head? = some c := by
      rw [List.head?_append, Option.mem_def.1 hc]
      rfl
    rw [hq] at hh
    cases line <;> exact hh
  rw [hq] at hquote ⊢
  have hhead : '"' ∉ line ++ ['\n'] := by
    have hpre : line ++ ['\n'] <+: line ++ '\n' :: b := ⟨b, by simp⟩
    exact fun hm => hquote (hpre.subset hm)
  have hbody : '"' ∉ b := fun hm => hquote (by simp [hm])
  obtain ⟨rest, hrest⟩ := suffix_dropBaseClass (unreached_of_no_quote hhead)
    ⟨c, List.mem_of_mem_head? hfirst, hblank⟩ last
  have hsplit : front ++ last ++ (line ++ '\n' :: b) = front ++ ((last ++ line) ++ '\n' :: b) := by
    simp
  rw [hsplit, withoutBaseClass_append hfront, withoutBaseClass_newline (by simp [hlast, hline]),
    withoutBaseClass_of_no_quote hbody, List.append_assoc last, ← hrest]
  exact ⟨withoutBaseClass front ++ rest, by simp⟩

/-- The start of a line in which no directive starts stays before any text. -/
theorem prefix_withoutBaseClass {a : Text} (ha : Quiet baseClassDirective? a) (hline : '\n' ∉ a)
    (hblank : ∃ c ∈ a, isBlank c = false) (b : Text) : a <+: withoutBaseClass (a ++ b) := by
  rcases exists_newline_split b with hb | ⟨first, rest, hfirst, rfl⟩
  · rw [withoutBaseClass_of_one (by simp [hline, hb])]
    exact prefix_dropBaseClass ha hblank b
  · rw [← List.append_assoc, withoutBaseClass_newline (by simp [hline, hfirst]), List.append_assoc]
    exact (prefix_dropBaseClass ha hblank _).trans (List.prefix_append _ _)

/-! Directives that are spread over lines -/

theorem not_mem_around_sign {gap gap' : Text} {c : Char} (hgap : allBlank gap = true)
    (hgap' : allBlank gap' = true) (hc : isBlank c = false) (hne : c ≠ '=') :
    c ∉ gap ++ '=' :: gap' := by
  simp [not_mem_of_allBlank hgap hc, not_mem_of_allBlank hgap' hc, hne]

theorem spellBaseClass_eq (gap gap' name : Text) : spellBaseClass gap gap' name =
    baseClassKey ++ ((gap ++ '=' :: gap') ++ '"' :: (name ++ ['"'])) := by
  rw [spellBaseClass, List.append_assoc]
  rfl

/-- A directive with line feeds around its sign falls apart at the last one of them, and both parts
stay where they are. -/
theorem infix_withoutBaseClass {gap gap' name : Text} (hgap : allBlank gap = true)
    (hgap' : allBlank gap' = true) (hsign : '=' ∉ name) (hname : '\n' ∉ name)
    (h : '\n' ∈ gap ++ '=' :: gap') (a b : Text) :
    spellBaseClass gap gap' name <:+: withoutBaseClass (a ++ (spellBaseClass gap gap' name ++ b)) := by
  obtain ⟨f, x, hfx, hx⟩ := exists_last_newline h
  have hspell : spellBaseClass gap gap' name =
      ((baseClassKey ++ f) ++ ['\n']) ++ ((x ++ ['"']) ++ (name ++ ['"'])) := by
    rw [spellBaseClass_eq, hfx]
    simp only [List.append_assoc, List.cons_append, List.nil_append]
  have hmem : ∀ c, isBlank c = false → c ≠ '=' → c ∉ f ∧ c ∉ x := by
    intro c hc hne
    have hfx' := hfx ▸ not_mem_around_sign hgap hgap' hc hne
    exact ⟨fun hm => hfx' (by simp [hm]), fun hm => hfx' (by simp [hm])⟩
  have hquote : '"' ∉ (baseClassKey ++ f) ++ ['\n'] := by
    have hkey : '"' ∉ baseClassKey := by decide
    simp [hkey, (hmem '"' (by decide) (by decide)).1]
  have hletter : ¬ baseClassKey <:+: x :=
    fun hk => (hmem 'p' (by decide) (by decide)).2 (hk.subset (by decide))
  have hquiet : Quiet baseClassDirective? ((x ++ ['"']) ++ (name ++ ['"'])) :=
    (quiet_of_no_key (by decide) hletter).append (quiet_of_no_sign hsign)
  obtain ⟨front, hfront⟩ := suffix_withoutBaseClass (a := a) hquote ⟨'p', rfl, by decide⟩
  obtain ⟨back, hback⟩ := prefix_withoutBaseClass hquiet (by simp [hx, hname])
    ⟨'"', by simp, by decide⟩ b
  have hends : EndsLine (a ++ ((baseClassKey ++ f) ++ ['\n'])) :=
    .inr ⟨a ++ (baseClassKey ++ f), by simp only [List.append_assoc]⟩
  have hsplit : a ++ (spellBaseClass gap gap' name ++ b) =
      (a ++ ((baseClassKey ++ f) ++ ['\n'])) ++ (((x ++ ['"']) ++ (name ++ ['"'])) ++ b) := by
    rw [hspell]
    simp only [List.append_assoc]
  refine ⟨front, back, ?_⟩
  rw [hsplit, withoutBaseClass_append hends, ← hfront, ← hback, hspell]
  simp only [List.append_assoc]

/-! Imports in the kept text -/

theorem importsOpen?_eq_some {t start : Text} {u : Unit}
    (h : Directives.importsOpen? t = some (u, start)) :
    start <+: t ∧ ∃ e, start = e ++ ['['] := by
  unfold Directives.importsOpen? at h
  generalize "parserImports".toList = key at h
  simp only [Option.bind_eq_bind, Option.bind_eq_some_iff, Directives.afterKey?_eq_some_iff] at h
  obtain ⟨a, ⟨gap, gap', hgap, hgap', ht, -⟩, h⟩ := h
  split at h
  · rename_i rest
    have ht' : t = (key ++ (gap ++ '=' :: gap') ++ ['[']) ++ rest := by
      rw [ht]
      simp only [List.append_assoc, List.cons_append, List.nil_append]
    rw [ht', Directives.upTo_append] at h
    cases h
    exact ⟨⟨rest, ht'.symm⟩, _, rfl⟩
  · cases h

theorem anchored_importsOpen : Anchored Directives.importsOpen? := by
  intro t value start h
  obtain ⟨hpre, e, rfl⟩ := importsOpen?_eq_some h
  exact ⟨List.concat_ne_nil '[' e, hpre⟩

theorem withImports_cases (kept : Text) (items : List Text) :
    (∃ before after, kept = before ++ '[' :: after ∧ withImports kept items =
      (before ++ ['[']) ++ (items.flatMap (fun item => '\n' :: importEntry item) ++ after)) ∨
    withImports kept items = kept ∨
    withImports kept items = ("  parserImports=[\n".toList ++
      items.flatMap (fun item => importEntry item ++ ['\n']) ++ "  ]\n".toList) ++ kept := by
  unfold withImports
  split
  · rename_i before start after hs
    obtain ⟨rfl, -, ⟨⟩, hstart⟩ := (splitAtFind?_eq_some_iff anchored_importsOpen).1 hs
    obtain ⟨-, e, rfl⟩ := importsOpen?_eq_some hstart
    exact .inl ⟨before ++ e, after, by simp, by simp⟩
  · split
    · exact .inr (.inl rfl)
    · exact .inr (.inr rfl)

/-- A text without bracket that is in the kept text is in what the imports make of it, too. -/
theorem infix_withImports {d kept : Text} (hd : '[' ∉ d) (h : d <:+: kept) (items : List Text) :
    d <:+: withImports kept items := by
  rcases withImports_cases kept items with ⟨before, after, rfl, hw⟩ | hw | hw
  · rw [hw]
    rcases (infix_append_cons_iff hd).1 h with h | h
    · exact h.trans ((List.prefix_append before ['[']).trans (List.prefix_append _ _)).isInfix
    · exact h.trans ((List.suffix_append _ after).trans (List.suffix_append _ _)).isInfix
  · rwa [hw]
  · rw [hw]
    exact h.trans (List.suffix_append _ kept).isInfix

theorem findAll_ne_nil_of_holds {d t : Text} (hd : IsBaseClass d) (h : d <:+: t) :
    findAll baseClassDirective? t ≠ [] := by
  obtain ⟨a, b, rfl⟩ := h
  intro hnil
  have hbarren := (findAll_eq_nil_iff anchored_baseClassDirective).1 hnil
  have hnone := hbarren (d ++ b) ⟨a, by simp⟩ (by simp [hd.ne_nil])
  rw [List.append_nil, baseClassDirective?_eq_some_iff.2 ⟨hd, List.prefix_append d b⟩] at hnone
  cases hnone

theorem IsBaseClass.infix_trimEnd {d t : Text} (hd : IsBaseClass d) (h : d <:+: t) :
    d <:+: trimEnd t := by
  obtain ⟨a, b, hab⟩ := h
  obtain ⟨gap, hgap, he⟩ := exists_trimEnd_append t
  obtain ⟨e, rfl⟩ := hd.exists_concat
  have hpre : (a ++ e) ++ ['"'] <+: trimEnd t ++ gap := by
    rw [← he, ← hab]
    exact ⟨b, by simp⟩
  have hin := prefix_of_concat_prefix_append (not_mem_of_allBlank hgap (by decide)) hpre
  rw [List.append_assoc] at hin
  exact (List.suffix_append a (e ++ ['"'])).isInfix.trans hin.isInfix

theorem infix_emit {d : Text} {header : Option Text} {names : GrammarNames} {imports : ImportSet}
    {existing : List Text} (hd : IsBaseClass d) (h : d <:+:
      withImports (keptText header) (imports.items.filter (!existing.contains ·))) :
    d <:+: emit header names imports existing := by
  rw [emit_eq]
  have hin := h.trans (List.suffix_append ("\x7b\n".toList ++ generated names) _).isInfix
  exact (hd.infix_trimEnd hin).trans (List.prefix_append _ ['\n']).isInfix

/-- A directive that the reader recognises behind the brace stays if there is a line feed in it. -/
theorem infix_of_spread {header s name d : Text} (hs : s <:+ inner header)
    (h : Directives.baseClass? s = some (name, d)) (hd : '\n' ∈ d) :
    IsBaseClass d ∧ '[' ∉ d ∧ d <:+: withoutBaseClass (afterBrace header) := by
  obtain ⟨gap, gap', hgap, hgap', ⟨post, rfl⟩, rfl, hclass⟩ := spelled_of_baseClass? h
  have hname : ∀ c : Char, (Directives.isClassChar c || c == '$') = false → c ∉ name := by
    intro c hc hm
    rw [hclass c hm] at hc
    cases hc
  have hmem : ∀ c, c ∉ baseClassKey → c ≠ '"' → (c ∈ spellBaseClass gap gap' name ↔
      c ∈ gap ++ '=' :: gap' ∨ c ∈ name) := by
    intro c hc hne
    rw [spellBaseClass_eq]
    simp only [List.mem_append, List.mem_cons, hc, hne, false_or, List.not_mem_nil, or_false,
      or_assoc]
  have hnewline := ((hmem '\n' (by decide) (by decide)).1 hd).resolve_right (hname _ (by decide))
  refine ⟨⟨gap, gap', name, hgap, hgap', hname _ (by decide), rfl⟩, ?_, ?_⟩
  · rw [hmem '[' (by decide) (by decide), not_or]
    exact ⟨not_mem_around_sign hgap hgap' (by decide) (by decide), hname _ (by decide)⟩
  · obtain ⟨front, hfront, hinner⟩ := exists_inner_eq header
    rw [hinner] at hs
    rcases suffix_append_cases hs with ⟨pre, hpre⟩ | ⟨v, hv, hne, hsv⟩
    · rw [← hpre]
      exact infix_withoutBaseClass hgap hgap' (hname _ (by decide)) (hname _ (by decide)) hnewline _ _
    · obtain ⟨c, v, rfl⟩ := List.exists_cons_of_ne_nil hne
      have hc : 'p' = c := (List.cons.inj hsv).1
      have hblank := List.all_eq_true.1 hfront c (hv.subset List.mem_cons_self)
      rw [← hc] at hblank
      cases hblank

/-! Headers in which the key only stands for directives -/

/-- Everywhere in the text the key starts a directive that the reader recognises, and no name
goes on with it. -/
structure Tidy (t : Text) : Prop where
  recognised : ∀ s, s <:+ t → baseClassKey <+: s → ∃ hit, Directives.baseClass? s = some hit
  apart : ∀ c s, c :: s <:+ t → baseClassKey <+: s → Token.isIdentPart c = false

structure OneLine (t : Text) : Prop where
  directive : ∀ s, s <:+ t → baseClassKey <+: s → ∃ d, IsBaseClass d ∧ '\n' ∉ d ∧ d <+: s
  apart : ∀ c s, c :: s <:+ t → baseClassKey <+: s → Token.isIdentPart c = false

namespace OneLine

variable {t : Text}

theorem suffix {u : Text} (h : OneLine t) (hu : u <:+ t) : OneLine u :=
  ⟨fun s hs => h.directive s (hs.trans hu), fun c s hs => h.apart c s (hs.trans hu)⟩

theorem first {a b : Text} (h : OneLine (a ++ '\n' :: b)) : OneLine (a ++ ['\n']) := by
  have hext : ∀ {s}, s <:+ a ++ ['\n'] → s ++ b <:+ a ++ '\n' :: b := by
    rintro s ⟨front, hf⟩
    exact ⟨front, by rw [← List.append_assoc, hf]; simp⟩
  refine ⟨fun s hs hk => ?_, fun c s hs hk => ?_⟩
  · obtain ⟨d, hd, hn, hpre⟩ := h.directive (s ++ b) (hext hs) (hk.trans (List.prefix_append s b))
    obtain rfl | ⟨body, rfl, -⟩ := List.suffix_concat_iff.1 hs
    · exact absurd (List.prefix_nil.1 hk) (List.cons_ne_nil _ _)
    · rw [List.append_assoc] at hpre
      exact ⟨d, hd, hn, (prefix_of_prefix_append_cons hn hpre).trans (List.prefix_append body _)⟩
  · exact h.apart c (s ++ b) (hext hs) (hk.trans (List.prefix_append s b))

/-- A stretch from which on nothing is recognised does not hold the key. -/
theorem not_infix_of_barren {a b : Text} (h : OneLine (a ++ b))
    (hb : BarrenBefore baseClassDirective? a b) : ¬ baseClassKey <:+: a := by
  intro hk
  obtain ⟨s, hks, hs⟩ := List.infix_iff_prefix_suffix.1 hk
  obtain ⟨front, hf⟩ := hs
  have hsuffix : s ++ b <:+ a ++ b := ⟨front, by rw [← List.append_assoc, hf]⟩
  obtain ⟨d, hd, -, hpre⟩ := h.directive (s ++ b) hsuffix (hks.trans (List.prefix_append s b))
  have hne : s ≠ [] := by
    rintro rfl
    exact absurd (List.prefix_nil.1 hks) (List.cons_ne_nil _ _)
  have hnone := hb s ⟨front, hf⟩ hne
  rw [baseClassDirective?_eq_some_iff.2 ⟨hd, hpre⟩] at hnone
  cases hnone

/-- The key is gone with the directives, and the texts around them do not make a new one. -/
theorem not_infix_eraseAll (h : OneLine t) : ¬ baseClassKey <:+: eraseAll baseClassDirective? t := by
  induction t using finds_induction anchored_baseClassDirective with
  | barren t hb =>
    rw [eraseAll_barren hb]
    exact not_infix_of_barren (by rwa [List.append_nil]) hb
  | found front value d rest hne hb hf ih =>
    have hfront := h.not_infix_of_barren hb
    have hrest := ih (h.suffix ((List.suffix_append d rest).trans (List.suffix_append front _)))
    rw [eraseAll_append hb, eraseAll_found hne hf]
    cases front using List.reverseRecOn with
    | nil => exact hrest
    | append_singleton front c =>
      have hkey := (baseClassDirective?_eq_some_iff.1 hf).1.starts_with_key
      have hc : c ∉ baseClassKey := by
        intro hm
        have hpart := h.apart c (d ++ rest) ⟨front, by simp⟩ (hkey.trans (List.prefix_append d rest))
        rw [List.all_eq_true.1 (by decide : baseClassKey.all Token.isIdentPart = true) c hm] at hpart
        cases hpart
      rw [List.append_assoc, List.singleton_append, infix_append_cons_iff hc, not_or]
      exact ⟨fun hk => hfront (hk.trans (List.prefix_append front [c]).isInfix), hrest⟩

end OneLine

theorem OneLine.not_infix_dropBaseClass {line : Text} (h : OneLine line) :
    ¬ baseClassKey <:+: dropBaseClass line := by
  rcases dropBaseClass_cases line with hd | ⟨hd, -⟩
  · rw [hd]
    exact h.not_infix_eraseAll
  · rw [hd, List.infix_nil]
    exact List.cons_ne_nil _ _

/-- Line by line the key goes with its directives. -/
theorem OneLine.not_infix_withoutBaseClass {t : Text} (h : OneLine t) :
    ¬ baseClassKey <:+: withoutBaseClass t := by
  generalize hn : t.length = n
  induction n using Nat.strongRecOn generalizing t with
  | ind n ih =>
    rcases exists_newline_split t with hone | ⟨first, rest, hfirst, rfl⟩
    · rw [withoutBaseClass_of_one hone]
      exact h.not_infix_dropBaseClass
    · have hrest : ¬ baseClassKey <:+: withoutBaseClass rest := by
        refine ih rest.length ?_ (h.suffix ⟨first ++ ['\n'], by simp⟩) rfl
        simp only [List.length_append, List.length_cons] at hn
        omega
      rw [withoutBaseClass_newline hfirst]
      have hline := h.first.not_infix_dropBaseClass
      rcases dropBaseClass_cases (first ++ ['\n']) with hd | ⟨hd, -⟩
      · rw [hd, eraseAll_unreached anchored_baseClassDirective
          (unreached_of_no_quote (by decide))] at hline ⊢
        rw [List.append_assoc, List.singleton_append, infix_append_cons_iff (by decide), not_or]
        exact ⟨fun hk => hline (hk.trans (List.prefix_append _ ['\n']).isInfix), hrest⟩
      · rwa [hd, List.nil_append]

theorem barren_of_no_key {t : Text} (h : ¬ baseClassKey <:+: t) :
    BarrenBefore baseClassDirective? t [] := by
  intro u hu _
  rw [List.append_nil, Option.eq_none_iff_forall_ne_some]
  rintro ⟨⟨⟩, d⟩ hd
  obtain ⟨hd, hpre⟩ := baseClassDirective?_eq_some_iff.1 hd
  exact h ((hd.starts_with_key.trans hpre).isInfix.trans hu.isInfix)

theorem quiet_importEntry {item : Text} (h : '=' ∉ item) :
    Quiet baseClassDirective? (importEntry item) := by
  have hopen : "    \"".toList = "    ".toList ++ ['"'] := by decide
  change Quiet baseClassDirective? ("    \"".toList ++ item ++ ['"'])
  rw [hopen, List.append_assoc]
  exact (quiet_of_no_key (by decide) (by decide)).append (quiet_of_no_sign h)

theorem barren_withImports {kept : Text} {items : List Text} (hkept : ¬ baseClassKey <:+: kept)
    (hitems : ∀ item ∈ items, '=' ∉ item) :
    BarrenBefore baseClassDirective? (withImports kept items) [] := by
  rcases withImports_cases kept items with ⟨before, after, rfl, hw⟩ | hw | hw
  · rw [infix_append_cons_iff (by decide), not_or] at hkept
    have hlist : Quiet baseClassDirective? (items.flatMap fun item => '\n' :: importEntry item) :=
      Quiet.flatMap fun item hi =>
        (quiet_singleton (by decide)).append (quiet_importEntry (hitems item hi))
    rw [hw]
    exact (quiet_of_no_key (by decide) hkept.1 _).append ((hlist _).append (barren_of_no_key hkept.2))
  · rw [hw]
    exact barren_of_no_key hkept
  · have hlist : Quiet baseClassDirective? (items.flatMap fun item => importEntry item ++ ['\n']) :=
      Quiet.flatMap fun item hi =>
        (quiet_importEntry (hitems item hi)).append (quiet_singleton (by decide))
    have hopen : Quiet baseClassDirective? ("  parserImports=[".toList ++ ['\n']) :=
      quiet_of_no_key (by decide) (by decide)
    have hclose : Quiet baseClassDirective? ("  ]".toList ++ ['\n']) :=
      quiet_of_no_key (by decide) (by decide)
    rw [hw]
    exact BarrenBefore.append (((hopen.append hlist).append hclose) _) (barren_of_no_key hkept)

theorem Tidy.oneLine {t u : Text} (h : Tidy t) (hu : u <:+ t)
    (hone : ∀ s name d, s <:+ t → Directives.baseClass? s = some (name, d) → '\n' ∉ d) :
    OneLine u := by
  refine ⟨fun s hs hk => ?_, fun c s hs => h.apart c s (hs.trans hu)⟩
  obtain ⟨⟨name, d⟩, hd⟩ := h.recognised s (hs.trans hu) hk
  obtain ⟨gap, gap', hgap, hgap', hpre, rfl, hclass⟩ := spelled_of_baseClass? hd
  have hquote : '"' ∉ name := by
    intro hm
    have hc := hclass '"' hm
    cases hc
  exact ⟨_, ⟨gap, gap', name, hgap, hgap', hquote, rfl⟩, hone s name _ (hs.trans hu) hd, hpre⟩

/-- A directive of the given header that is spread over lines is in the composed header, too,
beside the generated one. -/
theorem two_base_classes_of_spread {names : GrammarNames} (hn : names.Dotted) {header : Option Text}
    {s name d : Text} (hs : s <:+ inner (header.getD "\x7b\n\x7d".toList))
    (h : Directives.baseClass? s = some (name, d)) (hd : '\n' ∈ d) (imports : ImportSet)
    (existing : List Text) : d <:+: emit header names imports existing ∧
      2 ≤ (findAll baseClassDirective? (emit header names imports existing)).length := by
  obtain ⟨hbase, hbracket, hkept⟩ := infix_of_spread hs h hd
  have hin := infix_withImports hbracket hkept (imports.items.filter (!existing.contains ·))
  have hpos := List.length_pos_of_ne_nil (findAll_ne_nil_of_holds hbase hin)
  refine ⟨infix_emit hbase hin, ?_⟩
  rw [findAll_emit hn]
  exact Nat.succ_le_succ hpos

/-- In a tidy header without directives that are spread over lines none is left. -/
theorem findAll_withImports_of_tidy {header : Option Text} {items : List Text}
    (h : Tidy (inner (header.getD "\x7b\n\x7d".toList))) (hitems : ∀ item ∈ items, '=' ∉ item)
    (hone : ∀ s name d, s <:+ inner (header.getD "\x7b\n\x7d".toList) →
      Directives.baseClass? s = some (name, d) → '\n' ∉ d) :
    findAll baseClassDirective? (withImports (keptText header) items) = [] := by
  obtain ⟨gap, -, hinner⟩ := exists_inner_eq (header.getD "\x7b\n\x7d".toList)
  have hkept := (h.oneLine ⟨gap, hinner.symm⟩ hone).not_infix_withoutBaseClass
  exact findAll_barren (barren_withImports hkept hitems)

/-- The composed header holds the generated base class directive in front of those of the text
behind the generated lines. A directive of the given header that is spread over lines is
one of these; otherwise, if the key only stands for directives, there are none. -/
theorem single_base_class_iff {names : GrammarNames} (hn : names.Dotted) (header : Option Text)
    (imports : ImportSet) (existing : List Text) :
    findAll baseClassDirective? (emit header names imports existing) =
      ((), generatedBaseClass names) :: findAll baseClassDirective?
        (withImports (keptText header) (imports.items.filter (!existing.contains ·))) ∧
    (∀ s name d, s <:+ inner (header.getD "\x7b\n\x7d".toList) →
      Directives.baseClass? s = some (name, d) → '\n' ∈ d →
      d <:+: emit header names imports existing ∧
        2 ≤ (findAll baseClassDirective? (emit header names imports existing)).length) ∧
    (Tidy (inner (header.getD "\x7b\n\x7d".toList)) → (∀ item ∈ imports.items, '=' ∉ item) →
      (findAll baseClassDirective? (emit header names imports existing) =
          [((), generatedBaseClass names)] ↔
        ∀ s name d, s <:+ inner (header.getD "\x7b\n\x7d".toList) →
          Directives.baseClass? s = some (name, d) → '\n' ∉ d)) := by
  have hall := findAll_emit hn header imports existing
  refine ⟨hall, fun s name d hs h hd => two_base_classes_of_spread hn hs h hd imports existing,
    fun htidy hitems => ⟨fun h s name d hs hd hm => ?_, fun hone => ?_⟩⟩
  · have htwo := (two_base_classes_of_spread hn hs hd hm imports existing).2
    rw [h, List.length_singleton] at htwo
    exact absurd htwo (by decide)
  · rw [hall, findAll_withImports_of_tidy htidy (fun item hi => hitems item ?_) hone]
    exact List.mem_of_mem_filter hi

def spreadHeader : Text := "\x7b\n  parserUtilClass=\n    \"a.Base\"\n\x7d".toList

def spreadDirective : Text := "parserUtilClass=\n    \"a.Base\"".toList

def tidyHeader : Text := "\x7bparserUtilClass=\"a.Base\"\x7d".toList

theorem tidy_tidyHeader : Tidy (inner tidyHeader) := by
  have hdirectives : ∀ s ∈ (inner tidyHeader).tails, baseClassKey <+: s →
      (Directives.baseClass? s).isSome = true := by decide
  have hapart : ∀ u ∈ (inner tidyHeader).tails, baseClassKey <+: u.tail →
      ∀ c ∈ u.head?, Token.isIdentPart c = false := by decide
  exact ⟨fun s hs hk => Option.isSome_iff_exists.1 (hdirectives s ((List.mem_tails _ _).2 hs) hk),
    fun c s hs hk => hapart (c :: s) ((List.mem_tails _ _).2 hs) hk c rfl⟩

theorem single_base_class_iff_sample : sampleNames.Dotted ∧
    spreadDirective <:+: emit (some spreadHeader) sampleNames .empty [] ∧
    2 ≤ (findAll baseClassDirective? (emit (some spreadHeader) sampleNames .empty [])).length ∧
    findAll baseClassDirective? (emit (some tidyHeader) sampleNames .empty []) =
      [((), generatedBaseClass sampleNames)] := by
  have hn : sampleNames.Dotted := ⟨dotted_literal (by decide), dotted_literal (by decide)⟩
  obtain ⟨hin, htwo⟩ := (single_base_class_iff hn (some spreadHeader) .empty []).2.1
    (spreadDirective ++ "\n\x7d".toList) "a.Base".toList spreadDirective (by decide) (by decide)
    (by decide)
  refine ⟨hn, hin, htwo, ?_⟩
  have hone : ∀ s ∈ (inner tidyHeader).tails, ∀ hit ∈ Directives.baseClass? s, '\n' ∉ hit.2 := by
    decide
  exact ((single_base_class_iff hn (some tidyHeader) .empty []).2.2 tidy_tidyHeader
    (by simp [ImportSet.empty])).2 fun s name d hs hd => hone s ((List.mem_tails _ _).2 hs) (name, d) hd

/-- The reader of the directives takes the directive on two lines for the base class, and the
composed header still holds it. -/
theorem spread_base_class_kept :
    (Directives.read (some spreadHeader) []).toOption.map
        (fun d => (d.baseClassDeclared, d.baseClass.display)) = some (true, "a.Base".toList) ∧
    spreadDirective <:+: emit (some spreadHeader) sampleNames .empty [] ∧
    findAll baseClassDirective? (emit (some spreadHeader) sampleNames .empty []) ≠
      [((), generatedBaseClass sampleNames)] := by
  decide +kernel

end Header
end OpenGrammar
