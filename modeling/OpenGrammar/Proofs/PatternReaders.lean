import OpenGrammar.Regex.Parser
import OpenGrammar.Proofs.Lines

/-! The readers of patterns. Each yields what it reads with the rest of the text. That rest is always
an end of the text, so that no reader needs more rounds than the text has characters. -/
namespace OpenGrammar
namespace Regex

open Text

variable {t rest : Text} {f : Flags} {c : Char} {a : Atom} {width : Nat} {s : CharSet}

theorem dropSpacing_suffix (inComment : Bool) (t : Text) : dropSpacing inComment t <:+ t := by
  induction t generalizing inComment with
  | nil => cases inComment <;> exact List.suffix_rfl
  | cons c cs ih =>
    have hlater : ∀ inComment, dropSpacing inComment cs <:+ c :: cs :=
      fun inComment => (ih inComment).trans (List.suffix_cons c cs)
    cases inComment with
    | true => exact hlater _
    | false =>
      rw [dropSpacing]
      split
      · exact hlater _
      split
      · exact hlater _
      · exact List.suffix_rfl

theorem Flags.skip_suffix (f : Flags) (t : Text) : f.skip t <:+ t := by
  unfold Flags.skip
  split
  · exact dropSpacing_suffix false t
  · exact List.suffix_rfl

theorem suffix_of_skip {cs : Text} (h : f.skip t = c :: cs) : cs <:+ t :=
  (List.suffix_cons c cs).trans (h ▸ f.skip_suffix t)

theorem suffix_of_cut? {mark before : Text} (h : cut? mark t = some (before, rest)) : rest <:+ t :=
  ⟨before ++ mark, (cut?_eq_some h).1.symm⟩

/-! Escapes -/

def hexDigits (width : Nat) (t : Text) : Option (Text × Text) :=
  match t with
  | '{' :: cs => cut? ['}'] cs
  | cs => if cs.length < width then none else some (cs.take width, cs.drop width)

def hexChar? (f : Flags) (width : Nat) (braced : Bool) (digits : Text) : Option Char := do
  if digits.isEmpty then none
  let c ← charOfNat? (← hexNumber? digits)
  if !f.unicode && !braced && width == 2 && 128 ≤ c.toNat then none
  return c

theorem hexEscape_eq : hexEscape f width t = (hexDigits width t).bind fun hit =>
    (hexChar? f width (t.head? == some '{') hit.1).map fun c => (.char c, hit.2) := by
  have hchar : ∀ digits rest : Text, (hexChar? f width (t.head? == some '{') digits).map
      (fun c => (Atom.char c, rest)) = if digits.isEmpty then none else
        (hexNumber? digits).bind fun n => (charOfNat? n).bind fun c =>
          if !f.unicode && t.head? != some '{' && width == 2 && 128 ≤ c.toNat then none
          else some (Atom.char c, rest) := by
    intro digits rest
    simp only [hexChar?, Option.bind_eq_bind, Option.bind_none, bne, Option.pure_def,
      apply_ite (Option.map _), Option.map_bind, Function.comp_def, Option.map_none, Option.map_some]
  unfold hexEscape
  simp only [hchar, Option.bind_eq_bind, Option.bind_none, Option.pure_def]
  cases t with
  | nil =>
    simp only [hexDigits]
    split <;> rfl
  | cons c cs =>
    by_cases hc : c = '{'
    · subst hc
      rfl
    · have hne : ∀ ds, c :: cs = '{' :: ds → False := fun ds h => hc (List.cons.inj h).1
      simp only [hexDigits]
      split <;> rfl

theorem hexDigits_suffix {digits : Text} (h : hexDigits width t = some (digits, rest)) :
    rest <:+ t := by
  unfold hexDigits at h
  split at h
  · exact (suffix_of_cut? h).trans (List.suffix_cons _ _)
  · split at h
    · cases h
    · cases h
      exact List.drop_suffix width t

theorem hexEscape_suffix (h : hexEscape f width t = some (a, rest)) : rest <:+ t := by
  rw [hexEscape_eq, Option.bind_eq_some_iff] at h
  obtain ⟨⟨digits, tail⟩, hdigits, hchar⟩ := h
  obtain ⟨c, -, heq⟩ := Option.map_eq_some_iff.1 hchar
  cases heq
  exact hexDigits_suffix hdigits

def namedBoundary? (f : Flags) (body : Text) : Option (Atom × Text) :=
  match body.dropWhile isBoundaryNamePart with
  | '}' :: rest =>
    match String.ofList (body.takeWhile isBoundaryNamePart) with
    | "start" => some (.look (.wordStart f.unicode), rest)
    | "end" => some (.look (.wordEnd f.unicode), rest)
    | "start-half" => some (.look (.halfStart f.unicode), rest)
    | "end-half" => some (.look (.halfEnd f.unicode), rest)
    | _ => none
  | _ => none

theorem boundaryEscape_of_brace (f : Flags) (cs : Text) : boundaryEscape f ('{' :: cs) =
    if (f.skip cs).head?.any isBoundaryNamePart then namedBoundary? f (f.skip cs)
    else if (f.skip cs).isEmpty then none
    else some (.look (.boundary f.unicode), '{' :: cs) := by
  unfold boundaryEscape namedBoundary?
  cases h : (f.skip cs).head?.any isBoundaryNamePart
  · simp [h]
  · simp only [List.tail_cons, h]
    rfl

theorem boundaryEscape_of_head (h : t.head? ≠ some '{') :
    boundaryEscape f t = some (.look (.boundary f.unicode), t) := by
  unfold boundaryEscape
  split
  · exact absurd rfl h
  · simp [h]

theorem namedBoundary?_suffix (h : namedBoundary? f t = some (a, rest)) : rest <:+ t := by
  unfold namedBoundary? at h
  have hdrop := List.dropWhile_suffix isBoundaryNamePart (l := t)
  split at h
  · rename_i cs hcs
    rw [hcs] at hdrop
    have hcs := (List.suffix_cons '}' cs).trans hdrop
    split at h <;> cases h <;> exact hcs
  · cases h

theorem boundaryEscape_suffix (h : boundaryEscape f t = some (a, rest)) : rest <:+ t := by
  by_cases hbrace : t.head? = some '{'
  · obtain ⟨cs, rfl⟩ : ∃ cs, t = '{' :: cs := by
      cases t with
      | nil => cases hbrace
      | cons c cs =>
        cases hbrace
        exact ⟨cs, rfl⟩
    rw [boundaryEscape_of_brace] at h
    split at h
    · exact ((namedBoundary?_suffix h).trans (f.skip_suffix cs)).trans (List.suffix_cons _ _)
    split at h
    · cases h
    · cases h
      exact List.suffix_rfl
  · rw [boundaryEscape_of_head hbrace] at h
    cases h
    exact List.suffix_rfl

def isLongEscape (c : Char) : Bool := c == 'x' || c == 'u' || c == 'U' || c == 'b'

theorem escape_of_short (h : isLongEscape c = false) (cs : Text) :
    escape f (c :: cs) = (escape f [c]).map fun hit => (hit.1, cs) := by
  simp only [isLongEscape, Bool.or_eq_false_iff, beq_eq_false_iff_ne] at h
  unfold escape
  by_cases hc : isEscapable c = true
  · simp [hc]
  · simp only [hc, if_false, Bool.false_eq_true]
    split <;> simp_all
    split <;> simp [Function.comp_def]

theorem escape_suffix (h : escape f t = some (a, rest)) : rest <:+ t := by
  cases t with
  | nil => cases h
  | cons c cs =>
    cases hlong : isLongEscape c with
    | false =>
      rw [escape_of_short hlong] at h
      obtain ⟨hit, -, heq⟩ := Option.map_eq_some_iff.1 h
      cases heq
      exact List.suffix_cons c _
    | true =>
      refine List.IsSuffix.trans ?_ (List.suffix_cons c cs)
      simp only [isLongEscape, Bool.or_eq_true, beq_iff_eq] at hlong
      rcases hlong with ((rfl | rfl) | rfl) | rfl
      · exact hexEscape_suffix h
      · exact hexEscape_suffix h
      · exact hexEscape_suffix h
      · exact boundaryEscape_suffix h

/-! Classes -/

theorem classAtom_of_ne (h : c ≠ '\\') (cs : Text) : classAtom f (c :: cs) = some (.char c, cs) := by
  unfold classAtom
  split <;> simp_all

theorem classAtom_suffix {cs : Text} (h : classAtom f (c :: cs) = some (a, rest)) : rest <:+ cs := by
  by_cases hc : c = '\\'
  · subst hc
    exact escape_suffix h
  · rw [classAtom_of_ne hc] at h
    cases h
    exact List.suffix_rfl

/-- Behind an item of a class: where the end of a range is read, if the item starts one. -/
def rangeEnd? (f : Flags) (t : Text) : Option Text :=
  match t with
  | '-' :: cs =>
    if (f.skip cs).head? = some ']' ∨ (f.skip cs).head? = some '-' then none else some (f.skip cs)
  | _ => none

def rangeOf? (f : Flags) (a b : Atom) : Option CharSet :=
  (a.classChar? f).bind fun lo => (b.classChar? f).bind fun hi =>
    if hi < lo then none else some (.range lo hi)

def afterAtom (f : Flags) (a : Atom) (t : Text) : Option (CharSet × Text) :=
  if t.isEmpty then none
  else
    match rangeEnd? f t with
    | none => (a.classSet? f).map fun s => (s, t)
    | some last => (classAtom f last).bind fun hit => (rangeOf? f a hit.1).map fun s => (s, hit.2)

theorem classItem_eq : classItem f t =
    (classAtom f t).bind fun hit => afterAtom f hit.1 (f.skip hit.2) := by
  unfold classItem
  cases classAtom f t with
  | none => rfl
  | some hit =>
    obtain ⟨a, rest⟩ := hit
    simp only [Option.bind_eq_bind, Option.bind_some, Option.bind_none, Option.pure_def]
    generalize f.skip rest = u
    unfold afterAtom rangeEnd? rangeOf?
    cases u with
    | nil => rfl
    | cons c cs =>
      by_cases hc : c = '-'
      · subst hc
        simp only [List.isEmpty_cons, List.head?_cons, List.tail_cons, bne_self_eq_false,
          Bool.false_or, Bool.or_eq_true, beq_iff_eq, Bool.false_eq_true, if_false]
        split
        · cases a.classSet? f <;> rfl
        · simp only [Option.map_bind, Function.comp_def, apply_ite (Option.map _), Option.map_none,
            Option.map_some]
      · cases a.classSet? f <;> simp [hc]

theorem rangeEnd?_suffix {last : Text} (h : rangeEnd? f t = some last) : last <:+ t := by
  unfold rangeEnd? at h
  split at h
  · split at h <;> cases h
    exact (f.skip_suffix _).trans (List.suffix_cons _ _)
  · cases h

theorem afterAtom_suffix (h : afterAtom f a t = some (s, rest)) : rest <:+ t := by
  unfold afterAtom at h
  split at h
  · cases h
  split at h
  · obtain ⟨_, -, heq⟩ := Option.map_eq_some_iff.1 h
    cases heq
    exact List.suffix_rfl
  · rename_i last hlast
    obtain ⟨⟨b, rest'⟩, hb, hrange⟩ := Option.bind_eq_some_iff.1 h
    obtain ⟨_, -, heq⟩ := Option.map_eq_some_iff.1 hrange
    cases heq
    refine List.IsSuffix.trans ?_ (rangeEnd?_suffix hlast)
    cases last with
    | nil => cases hb
    | cons c cs => exact (classAtom_suffix hb).trans (List.suffix_cons c cs)

theorem classItem_suffix {cs : Text} (h : classItem f (c :: cs) = some (s, rest)) : rest <:+ cs := by
  rw [classItem_eq] at h
  obtain ⟨⟨a, rest'⟩, ha, h⟩ := Option.bind_eq_some_iff.1 h
  exact ((afterAtom_suffix h).trans (f.skip_suffix rest')).trans (classAtom_suffix ha)

def caret : Text → Bool × Text
  | '^' :: cs => (true, cs)
  | cs => (false, cs)

theorem caret_suffix (t : Text) : (caret t).2 <:+ t := by
  unfold caret
  split
  · exact List.suffix_cons _ _
  · exact List.suffix_rfl

def namedEnd? (negated : Bool) (name : Text) : Text → Option (CharSet × Text)
  | ']' :: rest => (CharSet.named? name).map fun s => (if negated then .compl s else s, rest)
  | _ => none

theorem namedClass?_of_colon (t : Text) : namedClass? (':' :: t) =
    (cut? [':'] (caret t).2).bind fun hit => namedEnd? (caret t).1 hit.1 hit.2 := by
  have hend : ∀ negated name rest, namedEnd? negated name rest = (do
      let ']' :: rest := rest | none
      let s ← CharSet.named? name
      return (if negated then .compl s else s, rest)) := by
    intro negated name rest
    unfold namedEnd?
    split
    · cases CharSet.named? name <;> rfl
    · simp
  simp only [hend]
  rfl

theorem namedClass?_of_head (h : t.head? ≠ some ':') : namedClass? t = none := by
  unfold namedClass?
  split
  · exact absurd rfl h
  · rfl

theorem namedEnd?_suffix {negated : Bool} {name : Text}
    (h : namedEnd? negated name t = some (s, rest)) : rest <:+ t := by
  unfold namedEnd? at h
  split at h
  · obtain ⟨_, -, heq⟩ := Option.map_eq_some_iff.1 h
    cases heq
    exact List.suffix_cons ']' rest
  · cases h

theorem namedClass?_suffix (h : namedClass? t = some (s, rest)) : rest <:+ t := by
  by_cases hcolon : t.head? = some ':'
  · obtain ⟨cs, rfl⟩ := List.head?_eq_some_iff.1 hcolon
    rw [namedClass?_of_colon] at h
    obtain ⟨⟨name, last⟩, hcut, hend⟩ := Option.bind_eq_some_iff.1 h
    exact (((namedEnd?_suffix hend).trans (suffix_of_cut? hcut)).trans (caret_suffix cs)).trans
      (List.suffix_cons ':' cs)
  · rw [namedClass?_of_head hcolon] at h
    cases h

theorem classStart_suffix {n : Nat} {first : Bool} {st : ClassState} :
    (classStart f n first st t).2 <:+ t := by
  induction n generalizing first st t with
  | zero => exact List.suffix_rfl
  | succ n ih =>
    rw [classStart]
    have hskip := f.skip_suffix t
    split
    · rename_i cs hcs
      exact ih.trans (suffix_of_skip hcs)
    · rename_i cs hcs
      split
      · exact suffix_of_skip hcs
      · rwa [hcs] at hskip
    · exact hskip

/-- A class from behind its opening bracket on, read in at most `n` rounds. -/
def classWithin (f : Flags) (n : Nat) (t : Text) : Option (CharSet × Text) :=
  let opened := caret (f.skip t)
  let start := classStart f n true {} opened.2
  classBody f n start.1 opened.1 start.2

theorem bracketed_eq : bracketed f t = classWithin f (t.length + 1) t := rfl

def closedSet (f : Flags) (st : ClassState) (negated : Bool) : CharSet :=
  let s := f.fold (st.value f)
  if negated then .compl s else s

def classOp? : Text → Option (ClassOp × Text)
  | '&' :: '&' :: cs => some (.inter, cs)
  | '-' :: '-' :: cs => some (.diff, cs)
  | '~' :: '~' :: cs => some (.symmDiff, cs)
  | _ => none

theorem classBody_succ {n : Nat} {st : ClassState} {negated : Bool} :
    classBody f (n + 1) st negated t =
      match f.skip t with
      | [] => none
      | ']' :: rest =>
        if f.admits (closedSet f st negated) then some (closedSet f st negated, rest) else none
      | '[' :: cs =>
        match namedClass? cs with
        | some hit => classBody f n (st.add hit.1) negated hit.2
        | none => (classWithin f n cs).bind fun hit => classBody f n (st.add hit.1) negated hit.2
      | cs =>
        match classOp? cs with
        | some hit => classBody f n (st.operate f hit.1) negated hit.2
        | none => (classItem f cs).bind fun hit => classBody f n (st.add hit.1) negated hit.2 := by
  rw [classBody]
  generalize f.skip t = u
  split
  case h_3 _ cs =>
    cases hnamed : namedClass? cs with
    | none =>
      simp only [hnamed]
      rfl
    | some hit => simp only [hnamed]
  case h_7 hand hminus htilde =>
    have hop : classOp? u = none := by
      unfold classOp?
      split
      · exact absurd rfl (hand _)
      · exact absurd rfl (hminus _)
      · exact absurd rfl (htilde _)
      · rfl
    simp only [hop, Option.bind_eq_bind]
  all_goals rfl

theorem classBody_of_ne {n : Nat} {st : ClassState} {negated : Bool} {cs : Text}
    (h : f.skip t = c :: cs) (hclose : c ≠ ']') (hopen : c ≠ '[') :
    classBody f (n + 1) st negated t =
      match classOp? (c :: cs) with
      | some hit => classBody f n (st.operate f hit.1) negated hit.2
      | none =>
        (classItem f (c :: cs)).bind fun hit => classBody f n (st.add hit.1) negated hit.2 := by
  rw [classBody_succ, h]
  split
  · rename_i heq
    cases heq
  · rename_i heq
    exact absurd (List.cons.inj heq).1 hclose
  · rename_i heq
    exact absurd (List.cons.inj heq).1 hopen
  · rfl

theorem classOp?_suffix {op : ClassOp} {cs : Text} (h : classOp? (c :: cs) = some (op, rest)) :
    rest <:+ cs := by
  unfold classOp? at h
  split at h <;> cases h <;> rename_i hcs <;> cases hcs <;> exact List.suffix_cons _ _

theorem classBody_suffix {n : Nat} {st : ClassState} {negated : Bool}
    (h : classBody f n st negated t = some (s, rest)) : rest <:+ t := by
  induction n generalizing st negated t s rest with
  | zero => cases h
  | succ n ih =>
    rw [classBody_succ] at h
    split at h
    · cases h
    · rename_i hcs
      split at h
      · cases h
        exact suffix_of_skip hcs
      · cases h
    · rename_i cs hcs
      refine List.IsSuffix.trans ?_ (suffix_of_skip hcs)
      split at h
      · rename_i hit hnamed
        exact (ih h).trans (namedClass?_suffix hnamed)
      · obtain ⟨hit, hwithin, h⟩ := Option.bind_eq_some_iff.1 h
        refine (ih h).trans ((ih hwithin).trans ?_)
        exact (classStart_suffix.trans (caret_suffix _)).trans (f.skip_suffix cs)
    · rename_i hne _ _
      cases hcs : f.skip t with
      | nil => exact absurd hcs hne
      | cons c cs =>
        refine List.IsSuffix.trans ?_ (suffix_of_skip hcs)
        rw [hcs] at h
        split at h
        · rename_i hit hop
          exact (ih h).trans (classOp?_suffix hop)
        · obtain ⟨hit, hitem, h⟩ := Option.bind_eq_some_iff.1 h
          exact (ih h).trans (classItem_suffix hitem)

theorem classWithin_suffix {n : Nat} (h : classWithin f n t = some (s, rest)) : rest <:+ t :=
  ((classBody_suffix h).trans classStart_suffix).trans ((caret_suffix _).trans (f.skip_suffix t))

theorem bracketed_suffix (h : bracketed f t = some (s, rest)) : rest <:+ t :=
  classWithin_suffix h

/-! Repetitions -/

theorem dropLazy_suffix (t : Text) : dropLazy t <:+ t := by
  unfold dropLazy
  split
  · exact List.suffix_cons _ _
  · exact List.suffix_rfl

theorem count_suffix (t : Text) : (count t).2 <:+ t :=
  ((List.dropWhile_suffix isBlank).trans (List.dropWhile_suffix Char.isDigit)).trans
    (List.dropWhile_suffix isBlank)

def upperCount? (lo : Nat) (t : Text) : Option (Nat × Option Nat × Text) :=
  match t with
  | '}' :: rest => some (lo, none, rest)
  | _ => (count t).1.bind fun hi =>
    match (count t).2 with
    | '}' :: rest => if hi < lo then none else some (lo, some hi, rest)
    | _ => none

theorem upperCount?_of_ne {lo : Nat} (h : t.head? ≠ some '}') : upperCount? lo t =
    (count t).1.bind fun hi =>
      match (count t).2 with
      | '}' :: rest => if hi < lo then none else some (lo, some hi, rest)
      | _ => none := by
  unfold upperCount?
  split
  · exact absurd rfl h
  · rfl

theorem counts_eq : counts f t = (count (f.skip t)).1.bind fun lo =>
    match (count (f.skip t)).2 with
    | '}' :: rest => some (lo, some lo, rest)
    | ',' :: rest => upperCount? lo (f.skip rest)
    | _ => none := by
  have hupper : ∀ lo u, (match u with
      | '}' :: rest => some (lo, none, rest)
      | rest => (count rest).1.bind fun hi =>
        match (count rest).2 with
        | '}' :: rest => if hi < lo then none else some (lo, some hi, rest)
        | _ => none) = upperCount? lo u := by
    intro lo u
    by_cases hbrace : u.head? = some '}'
    · obtain ⟨ds, rfl⟩ := List.head?_eq_some_iff.1 hbrace
      rfl
    · rw [upperCount?_of_ne hbrace]
      split
      · exact absurd rfl hbrace
      · rfl
  unfold counts
  generalize count (f.skip t) = first
  obtain ⟨lo?, rest⟩ := first
  cases lo? with
  | none => rfl
  | some lo =>
    simp only [Option.bind_eq_bind, Option.bind_some, Option.bind_none, Option.pure_def]
    cases rest with
    | nil => rfl
    | cons c cs =>
      by_cases hclose : c = '}'
      · subst hclose
        rfl
      by_cases hcomma : c = ','
      · subst hcomma
        exact hupper lo (f.skip cs)
      · simp [hclose, hcomma]

theorem upperCount?_suffix {lo lo' : Nat} {hi : Option Nat}
    (h : upperCount? lo t = some (lo', hi, rest)) : rest <:+ t := by
  unfold upperCount? at h
  split at h
  · cases h
    exact List.suffix_cons _ _
  · obtain ⟨n, -, h⟩ := Option.bind_eq_some_iff.1 h
    have hcount := count_suffix t
    split at h
    · rename_i hcs
      rw [hcs] at hcount
      split at h <;> cases h
      exact (List.suffix_cons _ _).trans hcount
    · cases h

theorem counts_suffix {lo : Nat} {hi : Option Nat} (h : counts f t = some (lo, hi, rest)) :
    rest <:+ t := by
  rw [counts_eq] at h
  obtain ⟨n, -, h⟩ := Option.bind_eq_some_iff.1 h
  have hcount := (count_suffix _).trans (f.skip_suffix t)
  split at h
  · rename_i hcs
    rw [hcs] at hcount
    cases h
    exact (List.suffix_cons _ _).trans hcount
  · rename_i cs hcs
    rw [hcs] at hcount
    exact (((upperCount?_suffix h).trans (f.skip_suffix cs)).trans (List.suffix_cons _ _)).trans hcount
  · cases h

/-! Groups -/

theorem inlineFlags_suffix {inner : Flags} {seen seen' : List Char} {last : Option Char}
    (h : inlineFlags f seen last t = some (inner, seen', c, rest)) : rest <:+ t := by
  induction t generalizing f seen last with
  | nil => cases h
  | cons d cs ih =>
    have hlater := List.suffix_cons d cs
    rw [inlineFlags] at h
    split at h
    · split at h <;> cases h
      exact hlater
    split at h
    · cases h
    split at h
    · exact (ih h).trans hlater
    split at h
    · exact (ih h).trans hlater
    · cases h

theorem groupName_suffix {name : Text} (h : groupName t = some (name, rest)) : rest <:+ t := by
  have hdrop := List.dropWhile_suffix isGroupNamePart (l := t)
  unfold groupName at h
  split at h
  · rename_i hcs
    rw [hcs] at hdrop
    simp only [Option.bind_eq_bind] at h
    obtain ⟨first, -, h⟩ := Option.bind_eq_some_iff.1 h
    split at h <;> cases h
    exact (List.suffix_cons _ _).trans hdrop
  · cases h

def namedGroup (st : ParseState) (t : Text) : Option (ParseState × Text) :=
  (groupName t).bind fun hit =>
    if st.names.contains hit.1 then none
    else some ({ st with names := hit.1 :: st.names }.openGroup st.flags, hit.2)

/-- Sets flags, or opens a group with them, from behind the question mark on. -/
def flagGroup (st : ParseState) (t : Text) : Option (ParseState × Text) :=
  (inlineFlags st.flags [] none t).bind fun hit =>
    if hit.2.2.1 = ':' then some (st.openGroup hit.1, hit.2.2.2)
    else if hit.2.1.isEmpty then none
    else some ({ st with flags := hit.1, items := .setting :: st.items }, hit.2.2.2)

def markedGroup (st : ParseState) : Text → Option (ParseState × Text)
  | 'P' :: '<' :: cs => namedGroup st cs
  | '<' :: cs =>
    if cs.head? = some '=' ∨ cs.head? = some '!' then none else namedGroup st cs
  | cs => flagGroup st cs

theorem group_eq (st : ParseState) (t : Text) : group st t =
    match st.flags.skip t with
    | '?' :: cs => markedGroup st cs
    | cs => some (st.openGroup st.flags, cs) := by
  unfold group
  simp only [markedGroup, namedGroup, flagGroup, Option.bind_eq_bind, Option.bind_none,
    Option.pure_def]
  generalize st.flags.skip t = u
  split
  · rfl
  · rfl
  · rfl
  · rename_i cs hahead hbehind
    have hhead : ¬ (cs.head? = some '=' ∨ cs.head? = some '!') := by
      simp only [List.head?_eq_some_iff]
      rintro (⟨ds, rfl⟩ | ⟨ds, rfl⟩)
      · exact hahead ds rfl
      · exact hbehind ds rfl
    simp only [if_neg hhead]
  · simp only
  · simp only

theorem namedGroup_suffix {st st' : ParseState} (h : namedGroup st t = some (st', rest)) :
    rest <:+ t := by
  obtain ⟨hit, hname, h⟩ := Option.bind_eq_some_iff.1 h
  split at h <;> cases h
  exact groupName_suffix hname

theorem flagGroup_suffix {st st' : ParseState} (h : flagGroup st t = some (st', rest)) :
    rest <:+ t := by
  obtain ⟨⟨inner, seen, close, rest'⟩, hflags, h⟩ := Option.bind_eq_some_iff.1 h
  split at h
  · cases h
    exact inlineFlags_suffix hflags
  split at h <;> cases h
  exact inlineFlags_suffix hflags

theorem markedGroup_suffix {st st' : ParseState} (h : markedGroup st t = some (st', rest)) :
    rest <:+ t := by
  unfold markedGroup at h
  split at h
  · exact (namedGroup_suffix h).trans ((List.suffix_cons _ _).trans (List.suffix_cons _ _))
  · split at h
    · cases h
    · exact (namedGroup_suffix h).trans (List.suffix_cons _ _)
  · exact flagGroup_suffix h

theorem group_suffix {st st' : ParseState} (h : group st t = some (st', rest)) : rest <:+ t := by
  rw [group_eq] at h
  have hskip := st.flags.skip_suffix t
  split at h
  · rename_i hcs
    exact (markedGroup_suffix h).trans (suffix_of_skip hcs)
  · cases h
    exact hskip

/-! Parts -/

def Atom.regex (f : Flags) : Atom → Regex
  | .char c => setOf f c
  | .set s => .one s
  | .look cond => .look cond

variable {st st' : ParseState} {cs : Text}

theorem readPart_backslash : readPart st '\\' cs =
    (escape st.flags cs).map fun hit => (st.push (hit.1.regex st.flags), hit.2) := by
  have hread : readPart st '\\' cs = (escape st.flags cs).bind fun hit =>
      some (st.push (hit.1.regex st.flags), hit.2) := rfl
  rw [hread, Option.map_eq_bind]
  rfl

theorem readPart_brace : readPart st '{' cs = (counts st.flags cs).bind fun hit =>
    (st.repeatLast hit.1 hit.2.1).map fun st' => (st', dropLazy (st.flags.skip hit.2.2)) := by
  have hread : readPart st '{' cs = (counts st.flags cs).bind fun hit =>
      (st.repeatLast hit.1 hit.2.1).bind fun st' =>
        some (st', dropLazy (st.flags.skip hit.2.2)) := rfl
  rw [hread]
  simp only [Option.map_eq_bind, Function.comp_def]

/-- The characters of a pattern that make the reader look at what follows them. -/
def isLongPart (c : Char) : Bool :=
  c == '(' || c == '[' || c == '?' || c == '*' || c == '+' || c == '{' || c == '\\'

theorem readPart_of_short (h : isLongPart c = false) (cs : Text) :
    readPart st c cs = (readPart st c []).map fun hit => (hit.1, cs) := by
  simp only [isLongPart, Bool.or_eq_false_iff, beq_eq_false_iff_ne] at h
  unfold readPart
  split <;> simp_all [Function.comp_def]

theorem readPart_suffix (h : readPart st c cs = some (st', rest)) : rest <:+ cs := by
  cases hlong : isLongPart c with
  | false =>
    rw [readPart_of_short hlong] at h
    obtain ⟨hit, -, heq⟩ := Option.map_eq_some_iff.1 h
    cases heq
    exact List.suffix_rfl
  | true =>
    simp only [isLongPart, Bool.or_eq_true, beq_iff_eq] at hlong
    rcases hlong with (((((rfl | rfl) | rfl) | rfl) | rfl) | rfl) | rfl
    · exact group_suffix h
    · obtain ⟨hit, hclass, heq⟩ := Option.map_eq_some_iff.1 h
      cases heq
      exact bracketed_suffix hclass
    · obtain ⟨hit, -, heq⟩ := Option.map_eq_some_iff.1 h
      cases heq
      exact dropLazy_suffix cs
    · obtain ⟨hit, -, heq⟩ := Option.map_eq_some_iff.1 h
      cases heq
      exact dropLazy_suffix cs
    · obtain ⟨hit, -, heq⟩ := Option.map_eq_some_iff.1 h
      cases heq
      exact dropLazy_suffix cs
    · rw [readPart_brace] at h
      obtain ⟨hit, hcounts, h⟩ := Option.bind_eq_some_iff.1 h
      obtain ⟨_, -, heq⟩ := Option.map_eq_some_iff.1 h
      cases heq
      exact ((dropLazy_suffix _).trans (Flags.skip_suffix _ _)).trans (counts_suffix hcounts)
    · rw [readPart_backslash] at h
      obtain ⟨hit, hescape, heq⟩ := Option.map_eq_some_iff.1 h
      cases heq
      exact escape_suffix hescape

end Regex
end OpenGrammar
