import OpenGrammar.Proofs.PatternReaders

/-! Escapes and classes in front of a closing parenthesis. A reader that finds what it needs in a
pattern finds the same when the pattern stands in a group. The other readers come to the end of the
pattern, and there they can take the parenthesis for a part of what they read; a class is then not
closed any more. -/
namespace OpenGrammar
namespace Regex

open Text

def Closing (tail : Text) : Prop := tail = [')'] ∨ tail = [')', '$']

def carry {α : Type} (tail : Text) (hit : α × Text) : α × Text := (hit.1, hit.2 ++ tail)

/-- What a reader makes of a text in front of a parenthesis. It reads the same as without the
parenthesis and leaves that as it is, or it reads nothing without it, and `lost` tells of what it reads
with it. -/
def ReadApart {α : Type} (lost : Text → α × Text → Prop) (read : Text → Option (α × Text)) (t : Text) :
    Prop :=
  (∀ tail, Closing tail → read (t ++ tail) = (read t).map (carry tail)) ∨
    (read t = none ∧ ∀ tail, Closing tail → ∀ hit, read (t ++ tail) = some hit → lost tail hit)

variable {t tail : Text} {f : Flags} {c : Char}

namespace Closing

theorem exists_eq (h : Closing tail) : ∃ more, tail = ')' :: more ∧ ')' ∉ more := by
  rcases h with rfl | rfl
  · exact ⟨[], rfl, by decide⟩
  · exact ⟨['$'], rfl, by decide⟩

theorem not_mem (h : Closing tail) (hparen : c ≠ ')') (hend : c ≠ '$') : c ∉ tail := by
  rcases h with rfl | rfl <;> simp [hparen, hend]

theorem ne_nil (h : Closing tail) : tail ≠ [] := by
  rcases h with rfl | rfl <;> decide

theorem head? (h : Closing tail) : tail.head? = some ')' := by
  rcases h with rfl | rfl <;> rfl

section While

variable {p : Char → Bool} (hc : Closing tail) (hp : p ')' = false)
include hc hp

theorem dropWhile_append (t : Text) : (t ++ tail).dropWhile p = t.dropWhile p ++ tail := by
  obtain ⟨more, rfl, -⟩ := hc.exists_eq
  induction t with
  | nil => simp [hp]
  | cons c cs ih =>
    rw [List.cons_append, List.dropWhile_cons, List.dropWhile_cons, ih]
    split <;> rfl

theorem takeWhile_append (t : Text) : (t ++ tail).takeWhile p = t.takeWhile p := by
  obtain ⟨more, rfl, -⟩ := hc.exists_eq
  induction t with
  | nil => simp [hp]
  | cons c cs ih => rw [List.cons_append, List.takeWhile_cons, List.takeWhile_cons, ih]

end While

end Closing

/-! Blanks and comments -/

def endsInComment : (inComment : Bool) → Text → Bool
  | inComment, [] => inComment
  | true, c :: cs => endsInComment (c != '\n') cs
  | false, c :: cs =>
    if Text.isBlank c then endsInComment false cs
    else if c = '#' then endsInComment true cs
    else false

theorem endsInComment_of_line (h : '\n' ∉ t) : endsInComment true t = true := by
  induction t with
  | nil => rfl
  | cons c cs ih =>
    rw [List.mem_cons, not_or] at h
    have hc : (c != '\n') = true := bne_iff_ne.2 fun heq => h.1 heq.symm
    rw [endsInComment, hc]
    exact ih h.2

theorem endsInComment_append {inComment : Bool} (h : endsInComment inComment t = true)
    (hline : '\n' ∉ tail) : endsInComment inComment (t ++ tail) = true := by
  fun_induction endsInComment inComment t with
  | case1 inComment =>
    subst h
    exact endsInComment_of_line hline
  | case2 c cs ih => exact ih h
  | case3 c cs hblank ih =>
    rw [List.cons_append, endsInComment, if_pos hblank]
    exact ih h
  | case4 cs hblank ih => exact ih h
  | case5 => cases h

theorem dropSpacing_of_ends {inComment : Bool} (h : endsInComment inComment t = true) :
    dropSpacing inComment t = [] := by
  fun_induction endsInComment inComment t with
  | case1 inComment => cases inComment <;> rfl
  | case2 c cs ih => exact ih h
  | case3 c cs hblank ih =>
    rw [dropSpacing, if_pos hblank]
    exact ih h
  | case4 cs hblank ih => exact ih h
  | case5 => cases h

theorem dropSpacing_append {inComment : Bool} (h : endsInComment inComment t = false)
    (hc : Closing tail) : dropSpacing inComment (t ++ tail) = dropSpacing inComment t ++ tail := by
  fun_induction endsInComment inComment t with
  | case1 inComment =>
    subst h
    rcases hc with rfl | rfl <;> rfl
  | case2 c cs ih => exact ih h
  | case3 c cs hblank ih =>
    rw [List.cons_append, dropSpacing, if_pos hblank, dropSpacing, if_pos hblank]
    exact ih h
  | case4 cs hblank ih => exact ih h
  | case5 c cs hblank hsign =>
    rw [List.cons_append, dropSpacing, if_neg hblank, if_neg hsign, dropSpacing, if_neg hblank,
      if_neg hsign, List.cons_append]

namespace Flags

theorem skip_apart (f : Flags) (t : Text) :
    (f.skip t = [] ∧ ∀ {tail}, Closing tail → f.skip (t ++ tail) = []) ∨
      ∀ {tail}, Closing tail → f.skip (t ++ tail) = f.skip t ++ tail := by
  unfold skip
  split
  · cases hends : endsInComment false t with
    | true =>
      refine .inl ⟨dropSpacing_of_ends hends, fun hc => ?_⟩
      exact dropSpacing_of_ends
        (endsInComment_append hends (hc.not_mem (by decide) (by decide)))
    | false => exact .inr fun hc => dropSpacing_append hends hc
  · exact .inr fun _ => rfl

theorem skip_closing (f : Flags) (hc : Closing tail) : f.skip tail = tail := by
  unfold skip
  split
  · rcases hc with rfl | rfl <;> rfl
  · rfl

end Flags

/-! Escapes -/

theorem cut?_append_of_not_mem (h : c ∉ tail) (t : Text) :
    cut? [c] (t ++ tail) = (cut? [c] t).map (carry tail) := by
  induction t with
  | nil =>
    rw [List.nil_append]
    cases hcut : cut? [c] tail with
    | none => rfl
    | some hit =>
      have hmem : c ∈ hit.1 ++ [c] ++ hit.2 := by simp
      exact absurd ((cut?_eq_some hcut).1 ▸ hmem) h
  | cons d ds ih =>
    rw [List.cons_append, cut?, cut?, ih]
    simp only [List.isPrefixOf?]
    split <;> split <;> simp_all [carry, Function.comp_def]

theorem hexNumber?_of_mem {digits : Text} (h : c ∈ digits) (hc : hexDigit? c = none) :
    hexNumber? digits = none := by
  unfold hexNumber?
  generalize 0 = n
  induction digits generalizing n with
  | nil => cases h
  | cons d ds ih =>
    rw [List.foldlM_cons]
    rcases List.mem_cons.1 h with rfl | h
    · rw [hc]
      rfl
    · cases hexDigit? d with
      | none => rfl
      | some m => exact ih h _

theorem hexEscape_append {width : Nat} (hc : Closing tail) (hwidth : 0 < width) :
    hexEscape f width (t ++ tail) = (hexEscape f width t).map (carry tail) := by
  obtain ⟨more, hmore, -⟩ := hc.exists_eq
  by_cases hbrace : t.head? = some '{'
  · obtain ⟨cs, rfl⟩ := List.head?_eq_some_iff.1 hbrace
    have hdigits : hexDigits width ('{' :: cs ++ tail) =
        (hexDigits width ('{' :: cs)).map (carry tail) :=
      cut?_append_of_not_mem (hc.not_mem (by decide) (by decide)) cs
    rw [hexEscape_eq, hexEscape_eq, hdigits]
    cases hexDigits width ('{' :: cs) with
    | none => rfl
    | some hit =>
      simp only [Option.map_some, Option.bind_some, Option.map_map, List.cons_append, List.head?_cons]
      rfl
  · have hplain : ∀ u : Text, u.head? ≠ some '{' → hexDigits width u =
        if u.length < width then none else some (u.take width, u.drop width) := by
      intro u hu
      unfold hexDigits
      split
      · exact absurd rfl hu
      · rfl
    have hhead : (t ++ tail).head? ≠ some '{' := by
      cases t with
      | nil => simp [hmore]
      | cons c cs => exact hbrace
    rw [hexEscape_eq, hexEscape_eq, hplain _ hhead, hplain _ hbrace]
    by_cases hlong : t.length < width
    · -- The digits would reach over the parenthesis.
      rw [if_pos hlong]
      split
      · rfl
      · have hmem : ')' ∈ (t ++ tail).take width := by
          rw [List.take_append, hmore]
          obtain ⟨n, hn⟩ : ∃ n, width - t.length = n + 1 := ⟨width - t.length - 1, by omega⟩
          simp [hn]
        have hnone : hexNumber? ((t ++ tail).take width) = none := hexNumber?_of_mem hmem (by decide)
        simp [hexChar?, hnone]
    · have hle : width ≤ t.length := Nat.le_of_not_lt hlong
      have hpos : t ≠ [] := by
        rintro rfl
        simp at hle
        omega
      rw [if_neg hlong, if_neg (by simp; omega), List.take_append_of_le_length hle,
        List.drop_append_of_le_length hle, List.head?_append_of_ne_nil _ hpos]
      simp only [Option.bind_some, Option.map_map]
      rfl

theorem namedBoundary?_append (hc : Closing tail) :
    namedBoundary? f (t ++ tail) = (namedBoundary? f t).map (carry tail) := by
  unfold namedBoundary?
  have hparen : isBoundaryNamePart ')' = false := by decide
  rw [hc.dropWhile_append hparen, hc.takeWhile_append hparen]
  obtain ⟨more, rfl, -⟩ := hc.exists_eq
  cases t.dropWhile isBoundaryNamePart with
  | nil => rfl
  | cons c cs =>
    by_cases hbrace : c = '}'
    · subst hbrace
      generalize String.ofList (t.takeWhile isBoundaryNamePart) = name
      simp only [List.cons_append]
      split <;> simp [carry]
    · simp [hbrace]

/-- An escape that starts in front of the parenthesis and is none without it: a backslash that
takes the parenthesis, or a boundary before an open brace. -/
def Astray (f : Flags) (tail : Text) (hit : Atom × Text) : Prop :=
  hit = (.char ')', tail.tail) ∨
    ∃ w, hit = (.look (.boundary f.unicode), '{' :: w) ∧ f.skip w = tail

theorem boundaryEscape_apart (f : Flags) (t : Text) :
    ReadApart (Astray f) (boundaryEscape f) t := by
  by_cases hbrace : t.head? = some '{'
  · obtain ⟨cs, rfl⟩ := List.head?_eq_some_iff.1 hbrace
    rcases f.skip_apart cs with ⟨hnil, hskip⟩ | hskip
    · left
      intro tail hc
      simp [boundaryEscape_of_brace, hnil, hskip hc]
    · cases hcs : f.skip cs with
      | nil =>
        right
        refine ⟨by simp [boundaryEscape_of_brace, hcs], fun tail hc hit hhit => ?_⟩
        have hparen : isBoundaryNamePart ')' = false := by decide
        have hboundary : boundaryEscape f ('{' :: cs ++ tail) =
            some (.look (.boundary f.unicode), '{' :: (cs ++ tail)) := by
          simp [boundaryEscape_of_brace, hskip hc, hcs, hc.head?, hparen, hc.ne_nil]
        rw [hboundary] at hhit
        cases hhit
        exact .inr ⟨cs ++ tail, rfl, by rw [hskip hc, hcs, List.nil_append]⟩
      | cons d ds =>
        left
        intro tail hc
        rw [List.cons_append, boundaryEscape_of_brace, boundaryEscape_of_brace, hskip hc, hcs]
        simp only [List.cons_append, List.head?_cons, Option.any_some, List.isEmpty_cons,
          Bool.false_eq_true, if_false]
        by_cases hnamed : isBoundaryNamePart d = true
        · rw [if_pos hnamed, if_pos hnamed]
          exact namedBoundary?_append (t := d :: ds) hc
        · rw [if_neg hnamed, if_neg hnamed]
          rfl
  · left
    intro tail hc
    have hhead : (t ++ tail).head? ≠ some '{' := by
      cases t with
      | nil => simp [hc.head?]
      | cons c cs => exact hbrace
    rw [boundaryEscape_of_head hhead, boundaryEscape_of_head hbrace]
    rfl

theorem escape_apart (f : Flags) (t : Text) : ReadApart (Astray f) (escape f) t := by
  cases t with
  | nil =>
    right
    refine ⟨rfl, fun tail hc hit hhit => ?_⟩
    obtain ⟨more, rfl, -⟩ := hc.exists_eq
    have hparen : isEscapable ')' = true := by decide
    have hself : escape f (')' :: more) = some (.char ')', more) := by simp [escape, hparen]
    rw [List.nil_append, hself] at hhit
    cases hhit
    exact .inl rfl
  | cons c cs =>
    cases hlong : isLongEscape c with
    | false =>
      left
      intro tail hc
      rw [List.cons_append, escape_of_short hlong, escape_of_short hlong cs, Option.map_map]
      rfl
    | true =>
      simp only [isLongEscape, Bool.or_eq_true, beq_iff_eq] at hlong
      rcases hlong with ((rfl | rfl) | rfl) | rfl
      · exact .inl fun tail hc => hexEscape_append hc (by decide)
      · exact .inl fun tail hc => hexEscape_append hc (by decide)
      · exact .inl fun tail hc => hexEscape_append hc (by decide)
      · exact boundaryEscape_apart f cs

/-! Classes -/

theorem classAtom_apart (f : Flags) (t : Text) :
    ReadApart (Astray f) (classAtom f) t := by
  cases t with
  | nil =>
    right
    refine ⟨rfl, fun tail hc hit hhit => ?_⟩
    obtain ⟨more, rfl, -⟩ := hc.exists_eq
    rw [List.nil_append, classAtom_of_ne (by decide)] at hhit
    cases hhit
    exact .inl rfl
  | cons c cs =>
    by_cases hbackslash : c = '\\'
    · subst hbackslash
      exact escape_apart f cs
    · left
      intro tail hc
      rw [List.cons_append, classAtom_of_ne hbackslash, classAtom_of_ne hbackslash]
      rfl

/-- An item behind which there is no bracket left to close its class. -/
def Unclosed (_ : Text) (hit : CharSet × Text) : Prop := ']' ∉ hit.2

theorem afterAtom_look {cond : Look} : afterAtom f (.look cond) t = none := by
  unfold afterAtom
  split
  · rfl
  split
  · rfl
  · simp [rangeOf?, Atom.classChar?]

theorem rangeEnd?_of_ne (h : c ≠ '-') (cs : Text) : rangeEnd? f (c :: cs) = none := by
  unfold rangeEnd?
  split <;> simp_all

theorem rangeEnd?_minus (cs : Text) : rangeEnd? f ('-' :: cs) =
    if (f.skip cs).head? = some ']' ∨ (f.skip cs).head? = some '-' then none
    else some (f.skip cs) := rfl

theorem afterAtom_single {a : Atom} {cs : Text} (h : rangeEnd? f (c :: cs) = none) :
    afterAtom f a (c :: cs) = (a.classSet? f).map fun s => (s, c :: cs) := by
  unfold afterAtom
  rw [h]
  rfl

theorem afterAtom_range {a : Atom} {last : Text} (h : rangeEnd? f t = some last) :
    afterAtom f a t =
      (classAtom f last).bind fun hit => (rangeOf? f a hit.1).map fun s => (s, hit.2) := by
  unfold afterAtom
  split
  · rename_i hnil
    rw [List.isEmpty_iff.1 hnil] at h
    cases h
  · rw [h]

theorem afterAtom_apart (a : Atom) (t : Text) : ReadApart Unclosed (afterAtom f a) t := by
  cases t with
  | nil =>
    right
    refine ⟨rfl, fun tail hc hit hhit hmem => ?_⟩
    exact hc.not_mem (by decide) (by decide) ((afterAtom_suffix hhit).subset hmem)
  | cons c cs =>
    have hcarry : ∀ tail, rangeEnd? f (c :: cs) = none → rangeEnd? f (c :: cs ++ tail) = none →
        afterAtom f a (c :: cs ++ tail) = (afterAtom f a (c :: cs)).map (carry tail) := by
      intro tail hnone hnone'
      rw [List.cons_append] at hnone' ⊢
      rw [afterAtom_single hnone, afterAtom_single hnone', Option.map_map]
      rfl
    by_cases hminus : c = '-'
    · subst hminus
      rcases f.skip_apart cs with ⟨hnil, hskip⟩ | hskip
      · left
        intro tail hc
        have hnone : ∀ {u}, f.skip u = [] → afterAtom f a ('-' :: u) = none := by
          intro u hu
          have hend : rangeEnd? f ('-' :: u) = some [] := by
            rw [rangeEnd?_minus, hu]
            rfl
          rw [afterAtom_range hend]
          rfl
        rw [List.cons_append, hnone hnil, hnone (hskip hc)]
        rfl
      · by_cases hstop : (f.skip cs).head? = some ']' ∨ (f.skip cs).head? = some '-'
        · left
          intro tail hc
          obtain ⟨d, ds, hds⟩ : ∃ d ds, f.skip cs = d :: ds := by
            cases hcs : f.skip cs with
            | nil => simp [hcs] at hstop
            | cons d ds => exact ⟨d, ds, rfl⟩
          refine hcarry tail ?_ ?_
          · rw [rangeEnd?_minus, if_pos hstop]
          · rw [hds] at hstop
            rw [List.cons_append, rangeEnd?_minus, hskip hc, hds]
            exact if_pos hstop
        · have hend : rangeEnd? f ('-' :: cs) = some (f.skip cs) := by
            rw [rangeEnd?_minus, if_neg hstop]
          have hend' : ∀ tail, Closing tail →
              rangeEnd? f ('-' :: cs ++ tail) = some (f.skip cs ++ tail) := by
            intro tail hc
            rw [List.cons_append, rangeEnd?_minus, hskip hc, if_neg]
            cases hcs : f.skip cs with
            | nil => simp [hc.head?]
            | cons d ds => rwa [hcs] at hstop
          rcases classAtom_apart f (f.skip cs) with hatom | ⟨hatom, hastray⟩
          · left
            intro tail hc
            rw [afterAtom_range hend, afterAtom_range (hend' tail hc), hatom tail hc]
            cases classAtom f (f.skip cs) with
            | none => rfl
            | some hit => simp [carry, Function.comp_def]
          · right
            refine ⟨by rw [afterAtom_range hend, hatom]; rfl, fun tail hc hit hhit => ?_⟩
            rw [afterAtom_range (hend' tail hc)] at hhit
            obtain ⟨hit', hhit', hset⟩ := Option.bind_eq_some_iff.1 hhit
            obtain ⟨s, hs, rfl⟩ := Option.map_eq_some_iff.1 hset
            rcases hastray tail hc hit' hhit' with rfl | ⟨w, rfl, -⟩
            · exact fun hmem => hc.not_mem (by decide) (by decide) (List.mem_of_mem_tail hmem)
            · simp [rangeOf?, Atom.classChar?] at hs
    · left
      intro tail hc
      exact hcarry tail (rangeEnd?_of_ne hminus cs) (rangeEnd?_of_ne hminus (cs ++ tail))

theorem classItem_apart (t : Text) : ReadApart Unclosed (classItem f) t := by
  rcases classAtom_apart f t with hatom | ⟨hatom, hastray⟩
  · cases hhit : classAtom f t with
    | none =>
      left
      intro tail hc
      rw [classItem_eq, classItem_eq, hatom tail hc, hhit]
      rfl
    | some hit =>
      obtain ⟨a, rest⟩ := hit
      have heq : classItem f t = afterAtom f a (f.skip rest) := by
        rw [classItem_eq, hhit]
        rfl
      have heq' : ∀ tail, Closing tail →
          classItem f (t ++ tail) = afterAtom f a (f.skip (rest ++ tail)) := by
        intro tail hc
        rw [classItem_eq, hatom tail hc, hhit]
        rfl
      rcases f.skip_apart rest with ⟨hnil, hskip⟩ | hskip
      · left
        intro tail hc
        rw [heq, heq' tail hc, hnil,
          hskip hc]
        rfl
      · rcases afterAtom_apart (f := f) a (f.skip rest) with hafter | ⟨hafter, hlost⟩
        · left
          intro tail hc
          rw [heq, heq' tail hc, hskip hc, hafter tail hc]
        · right
          refine ⟨heq.trans hafter, fun tail hc hit hhit => ?_⟩
          rw [heq' tail hc, hskip hc] at hhit
          exact hlost tail hc hit hhit
  · right
    refine ⟨by rw [classItem_eq, hatom]; rfl, fun tail hc hit hhit hmem => ?_⟩
    rw [classItem_eq] at hhit
    obtain ⟨hit', hhit', hafter⟩ := Option.bind_eq_some_iff.1 hhit
    rcases hastray tail hc hit' hhit' with rfl | ⟨w, rfl, -⟩
    · have hrest := (afterAtom_suffix hafter).trans (f.skip_suffix _)
      exact hc.not_mem (by decide) (by decide) (List.mem_of_mem_tail (hrest.subset hmem))
    · rw [afterAtom_look] at hafter
      cases hafter

theorem caret_append (hc : Closing tail) (t : Text) :
    caret (t ++ tail) = ((caret t).1, (caret t).2 ++ tail) := by
  obtain ⟨more, rfl, -⟩ := hc.exists_eq
  cases t with
  | nil => rfl
  | cons c cs =>
    by_cases h : c = '^'
    · subst h
      rfl
    · simp [caret, h]

theorem namedClass?_append (hc : Closing tail) (t : Text) :
    namedClass? (t ++ tail) = (namedClass? t).map (carry tail) := by
  have hend : ∀ negated name rest, namedEnd? negated name (rest ++ tail) =
      (namedEnd? negated name rest).map (carry tail) := by
    intro negated name rest
    obtain ⟨more, rfl, -⟩ := hc.exists_eq
    cases rest with
    | nil => rfl
    | cons c cs =>
      by_cases h : c = ']'
      · subst h
        simp [namedEnd?, carry, Function.comp_def]
      · simp [namedEnd?, h]
  by_cases hcolon : t.head? = some ':'
  · obtain ⟨cs, rfl⟩ := List.head?_eq_some_iff.1 hcolon
    rw [List.cons_append, namedClass?_of_colon, namedClass?_of_colon, caret_append hc,
      cut?_append_of_not_mem (hc.not_mem (by decide) (by decide))]
    cases cut? [':'] (caret cs).2 with
    | none => rfl
    | some hit => exact hend _ hit.1 hit.2
  · have hhead : (t ++ tail).head? ≠ some ':' := by
      cases t with
      | nil => simp [hc.head?]
      | cons c cs => exact hcolon
    rw [namedClass?_of_head hhead, namedClass?_of_head hcolon]
    rfl

theorem Closing.exists_of_append {u ds : Text} (hc : Closing tail) (hne : c ≠ ')')
    (h : u ++ tail = c :: ds) : ∃ es, u = c :: es ∧ es ++ tail = ds := by
  cases u with
  | nil =>
    have hhead := hc.head?
    rw [List.nil_append] at h
    rw [h] at hhead
    exact absurd (Option.some.inj hhead) hne
  | cons d es =>
    cases h
    exact ⟨es, rfl, rfl⟩

theorem Closing.exists_of_append_pair {u ds : Text} {d : Char} (hc : Closing tail) (hne : c ≠ ')')
    (hne' : d ≠ ')') (h : u ++ tail = c :: d :: ds) : ∃ es, u = c :: d :: es ∧ es ++ tail = ds := by
  obtain ⟨es, rfl, hes⟩ := hc.exists_of_append hne h
  obtain ⟨fs, rfl, hfs⟩ := hc.exists_of_append hne' hes
  exact ⟨fs, rfl, hfs⟩

theorem classOp?_append (hc : Closing tail) (t : Text) :
    classOp? (t ++ tail) = (classOp? t).map (carry tail) := by
  conv_lhs => unfold classOp?
  split
  · rename_i h
    obtain ⟨es, rfl, rfl⟩ := hc.exists_of_append_pair (by decide) (by decide) h
    rfl
  · rename_i h
    obtain ⟨es, rfl, rfl⟩ := hc.exists_of_append_pair (by decide) (by decide) h
    rfl
  · rename_i h
    obtain ⟨es, rfl, rfl⟩ := hc.exists_of_append_pair (by decide) (by decide) h
    rfl
  · rename_i hand hminus htilde
    have hnone : classOp? t = none := by
      unfold classOp?
      split
      · exact absurd rfl (hand _)
      · exact absurd rfl (hminus _)
      · exact absurd rfl (htilde _)
      · rfl
    rw [hnone]
    rfl

theorem classStart_append (hc : Closing tail) {n m : Nat} {first : Bool} {st : ClassState}
    (hn : t.length < n) (hm : (t ++ tail).length < m) :
    classStart f m first st (t ++ tail) = carry tail (classStart f n first st t) ∨
      ((classStart f n first st t).2 = [] ∧
        classStart f m first st (t ++ tail) = classStart f n first st t) := by
  induction n generalizing m first st t with
  | zero => omega
  | succ n ih =>
    obtain ⟨m, rfl⟩ : ∃ k, m = k + 1 := ⟨m - 1, by omega⟩
    rcases f.skip_apart t with ⟨hnil, hskip⟩ | hskip
    · right
      rw [classStart, classStart, hnil,
        hskip hc]
      exact ⟨rfl, rfl⟩
    · rw [classStart, classStart, hskip hc]
      have hle := (f.skip_suffix t).length_le
      cases hcs : f.skip t with
      | nil =>
        left
        obtain ⟨more, rfl, -⟩ := hc.exists_eq
        rfl
      | cons c cs =>
        rw [hcs, List.length_cons] at hle
        by_cases hminus : c = '-'
        · subst hminus
          exact ih (by omega) (by simp at hm ⊢; omega)
        by_cases hbracket : c = ']'
        · subst hbracket
          left
          cases first <;> rfl
        · left
          simp [hminus, hbracket, carry]

theorem classBody_congr {n : Nat} {st : ClassState} {negated : Bool} {u : Text}
    (h : f.skip t = f.skip u) : classBody f n st negated t = classBody f n st negated u := by
  cases n with
  | zero => rfl
  | succ n => rw [classBody_succ, classBody_succ, h]

theorem classBody_eq_none {n : Nat} {st : ClassState} {negated : Bool} (h : ']' ∉ t) :
    classBody f n st negated t = none := by
  induction n generalizing st negated t with
  | zero => rfl
  | succ n ih =>
    have hlater : ∀ {u}, u <:+ t → ']' ∉ u := fun hu hmem => h (hu.subset hmem)
    rw [classBody_succ]
    split
    · rfl
    · rename_i hcs
      exact absurd List.mem_cons_self (hcs ▸ hlater (f.skip_suffix t))
    · rename_i cs hcs
      split
      · rename_i hit hnamed
        exact ih (hlater ((namedClass?_suffix hnamed).trans (suffix_of_skip hcs)))
      · have hwithin : classWithin f n cs = none :=
          ih (hlater ((classStart_suffix.trans ((caret_suffix _).trans (f.skip_suffix cs))).trans
            (suffix_of_skip hcs)))
        rw [hwithin]
        rfl
    · rename_i hne _ _
      cases hcs : f.skip t with
      | nil => exact absurd hcs hne
      | cons c cs =>
        split
        · rename_i hit hop
          exact ih (hlater ((classOp?_suffix hop).trans (suffix_of_skip hcs)))
        · cases hitem : classItem f (c :: cs) with
          | none => rfl
          | some hit => exact ih (hlater ((classItem_suffix hitem).trans (suffix_of_skip hcs)))

theorem classWithin_append (hc : Closing tail) {n m : Nat}
    (hbody : ∀ {u st negated}, u.length < n → (u ++ tail).length < m →
      classBody f m st negated (u ++ tail) = (classBody f n st negated u).map (carry tail))
    (hn : t.length < n) (hm : (t ++ tail).length < m) :
    classWithin f m (t ++ tail) = (classWithin f n t).map (carry tail) := by
  unfold classWithin
  rcases f.skip_apart t with ⟨hnil, hskip⟩ | hskip
  · have hnone : ∀ n, classBody f n (classStart f n true {} []).1 false (classStart f n true {} []).2 =
        none := fun n => classBody_eq_none fun hmem => nomatch classStart_suffix.subset hmem
    rw [hnil, hskip hc]
    simp only [caret, hnone]
    rfl
  · rw [hskip hc, caret_append hc]
    have hopened := ((caret_suffix (f.skip t)).trans (f.skip_suffix t)).length_le
    simp only
    generalize (caret (f.skip t)).1 = negated
    generalize (caret (f.skip t)).2 = u at hopened ⊢
    rw [List.length_append] at hm
    have hstart : (classStart f n true {} u).2.length ≤ u.length := classStart_suffix.length_le
    have happend : classStart f m true {} (u ++ tail) = carry tail (classStart f n true {} u) ∨
        ((classStart f n true {} u).2 = [] ∧
          classStart f m true {} (u ++ tail) = classStart f n true {} u) :=
      classStart_append hc (by omega) (by rw [List.length_append]; omega)
    rcases happend with h | ⟨hnil, h⟩
    · rw [h]
      exact hbody (by omega) (by rw [List.length_append]; omega)
    · rw [h, hnil, classBody_eq_none (by simp), classBody_eq_none (by simp)]
      rfl

theorem classBody_append (hc : Closing tail) {n m : Nat} {st : ClassState} {negated : Bool}
    (hn : t.length < n) (hm : (t ++ tail).length < m) :
    classBody f m st negated (t ++ tail) = (classBody f n st negated t).map (carry tail) := by
  induction n generalizing m st negated t with
  | zero => omega
  | succ n ih =>
    obtain ⟨m, rfl⟩ : ∃ k, m = k + 1 := ⟨m - 1, by omega⟩
    rw [List.length_append] at hm
    have hlater : ∀ {u st negated}, u.length < t.length →
        classBody f m st negated (u ++ tail) = (classBody f n st negated u).map (carry tail) :=
      fun hu => ih (by omega) (by rw [List.length_append]; omega)
    rcases f.skip_apart t with ⟨hnil, hskip⟩ | hskip
    · rw [classBody_succ, classBody_succ, hnil, hskip hc]
      rfl
    · replace hskip := hskip hc
      have hle := (f.skip_suffix t).length_le
      cases hcs : f.skip t with
      | nil =>
        have htail : f.skip (t ++ tail) = f.skip tail := by
          rw [hskip, hcs, List.nil_append, f.skip_closing hc]
        rw [classBody_congr htail,
          classBody_eq_none (hc.not_mem (by decide) (by decide)), classBody_succ, hcs]
        rfl
      | cons c cs =>
        rw [hcs, List.length_cons] at hle
        rw [hcs, List.cons_append] at hskip
        by_cases hbracket : c = ']'
        · subst hbracket
          rw [classBody_succ, classBody_succ, hskip, hcs]
          simp only
          split <;> rfl
        by_cases hopen : c = '['
        · subst hopen
          rw [classBody_succ, classBody_succ, hskip, hcs]
          simp only
          rw [namedClass?_append hc]
          cases hnamed : namedClass? cs with
          | some hit =>
            have hhit := (namedClass?_suffix hnamed).length_le
            exact hlater (by omega)
          | none =>
            have hwithin := classWithin_append hc (fun hu hu' => ih hu hu')
              (show cs.length < n by omega)
              (show (cs ++ tail).length < m by rw [List.length_append]; omega)
            simp only [Option.map_none]
            rw [hwithin]
            cases hhit : classWithin f n cs with
            | none => rfl
            | some hit =>
              have hrest := (classWithin_suffix hhit).length_le
              exact hlater (by omega)
        · rw [classBody_of_ne hskip hbracket hopen, classBody_of_ne hcs hbracket hopen,
            ← List.cons_append, classOp?_append hc]
          cases hop : classOp? (c :: cs) with
          | some hit =>
            have hrest := (classOp?_suffix hop).length_le
            exact hlater (by omega)
          | none =>
            simp only [Option.map_none]
            rcases classItem_apart (f := f) (c :: cs) with hitem | ⟨hitem, hlost⟩
            · rw [hitem tail hc]
              cases hhit : classItem f (c :: cs) with
              | none => rfl
              | some hit =>
                have hrest := (classItem_suffix hhit).length_le
                exact hlater (by omega)
            · -- What follows the parenthesis closes no class.
              rw [hitem]
              cases hhit : classItem f (c :: cs ++ tail) with
              | none => rfl
              | some hit => exact classBody_eq_none (hlost tail hc hit hhit)

theorem bracketed_append (hc : Closing tail) (t : Text) :
    bracketed f (t ++ tail) = (bracketed f t).map (carry tail) := by
  rw [bracketed_eq, bracketed_eq]
  exact classWithin_append hc (fun hu hu' => classBody_append hc hu hu') (Nat.lt_succ_self _)
    (Nat.lt_succ_self _)

end Regex
end OpenGrammar
