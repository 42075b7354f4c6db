import Mathlib.Data.List.Infix
import OpenGrammar.Text.Basic

/-! What a recogniser finds in a text. Finds do not overlap, so a text falls apart into its
finds and barren stretches, and what is gathered or erased is told stretch by stretch. -/
namespace OpenGrammar
namespace Text

variable {α : Type} {recognise : Text → Option (α × Text)} {a b t : Text}

/-- What is recognised stands at the start of the text and is not empty. -/
def Anchored (recognise : Text → Option (α × Text)) : Prop :=
  ∀ t value found, recognise t = some (value, found) → found ≠ [] ∧ found <+: t

/-- Nothing is recognised from any place in `a` on when `b` follows. -/
def BarrenBefore (recognise : Text → Option (α × Text)) (a b : Text) : Prop :=
  ∀ u, u <:+ a → u ≠ [] → recognise (u ++ b) = none

/-- Nothing is recognised from any place in `a` on, whatever follows. -/
def Quiet (recognise : Text → Option (α × Text)) (a : Text) : Prop :=
  ∀ b, BarrenBefore recognise a b

/-- A text that no find reaches into from the text in front of it. -/
structure Unreached (recognise : Text → Option (α × Text)) (b : Text) : Prop where
  barren : BarrenBefore recognise b []
  behind : ∀ t, recognise (t ++ b) = recognise t

/-- The end of a stretch cuts no find, and the text behind it makes none. -/
def CutBefore (recognise : Text → Option (α × Text)) (a b : Text) : Prop :=
  ∀ u, u <:+ a → u ≠ [] → recognise (u ++ b) = recognise u

/-! Barren stretches -/

theorem BarrenBefore.of_cons {c : Char} (h : BarrenBefore recognise (c :: a) b) :
    recognise (c :: (a ++ b)) = none ∧ BarrenBefore recognise a b :=
  ⟨h (c :: a) List.suffix_rfl (List.cons_ne_nil c a),
    fun u hu => h u (hu.trans (List.suffix_cons c a))⟩

/-- A suffix of two texts lies in the second one or takes it in. -/
theorem suffix_append_cases {u : Text} (h : u <:+ a ++ b) :
    u <:+ b ∨ ∃ v, v <:+ a ∧ v ≠ [] ∧ u = v ++ b := by
  obtain ⟨front, hf⟩ := h
  rcases List.append_eq_append_iff.1 hf with ⟨v, ha, hu⟩ | ⟨v, -, hb⟩
  · cases v with
    | nil =>
      left
      rw [hu, List.nil_append]
    | cons c v => exact .inr ⟨c :: v, ⟨front, ha.symm⟩, List.cons_ne_nil c v, hu⟩
  · exact .inl ⟨v, hb.symm⟩

theorem BarrenBefore.append {a' : Text} (h : BarrenBefore recognise a (a' ++ b))
    (h' : BarrenBefore recognise a' b) : BarrenBefore recognise (a ++ a') b := by
  intro u hu hne
  rcases suffix_append_cases hu with hu | ⟨v, hv, hv', rfl⟩
  · exact h' u hu hne
  · rw [List.append_assoc]
    exact h v hv hv'

theorem quiet_nil : Quiet recognise [] := by
  intro b u hu hne
  exact absurd (List.suffix_nil.1 hu) hne

theorem Quiet.append {a' : Text} (h : Quiet recognise a) (h' : Quiet recognise a') :
    Quiet recognise (a ++ a') :=
  fun b => (h (a' ++ b)).append (h' b)

theorem Quiet.flatMap {β : Type} {f : β → Text} {items : List β}
    (h : ∀ item ∈ items, Quiet recognise (f item)) : Quiet recognise (items.flatMap f) := by
  induction items with
  | nil => exact quiet_nil
  | cons item items ih =>
    rw [List.flatMap_cons]
    exact (h item (by simp)).append (ih fun i hi => h i (List.mem_cons_of_mem _ hi))

/-- A mark in front of a character that it does not hold ends there. -/
theorem prefix_of_prefix_append_cons {mark a b : Text} {c : Char} (hc : c ∉ mark)
    (h : mark <+: a ++ c :: b) : mark <+: a := by
  obtain ⟨rest, hr⟩ := h
  rcases List.append_eq_append_iff.1 hr with ⟨v, ha, -⟩ | ⟨v, hm, hv⟩
  · exact ⟨v, ha.symm⟩
  · cases v with
    | nil => exact ⟨[], by rw [hm, List.append_nil, List.append_nil]⟩
    | cons d v =>
      have hd : c = d := (List.cons.inj hv).1
      exact absurd (by simp [hm, hd]) hc

theorem prefix_of_concat_prefix_append {mark a b : Text} {c : Char} (hc : c ∉ b)
    (h : mark ++ [c] <+: a ++ b) : mark ++ [c] <+: a := by
  obtain ⟨rest, hr⟩ := h
  rcases List.append_eq_append_iff.1 hr with ⟨v, ha, -⟩ | ⟨v, hm, rfl⟩
  · exact ⟨v, ha.symm⟩
  · cases v using List.reverseRecOn with
    | nil => exact ⟨[], by rw [hm, List.append_nil, List.append_nil]⟩
    | append_singleton v d =>
      rw [← List.append_assoc] at hm
      have hd : c = d := (List.append_inj' hm rfl).2 |> List.singleton_inj.1
      exact absurd (by simp [hd]) hc

/-- Nothing is found from a stretch on if no find is cut by the character at its end. -/
theorem quiet_concat {c : Char}
    (h : ∀ v b hit, v <:+ a → recognise (v ++ c :: b) = some hit → False) :
    Quiet recognise (a ++ [c]) := by
  intro b u hu hne
  obtain hu | ⟨v, rfl, hv⟩ := List.suffix_concat_iff.1 hu
  · exact absurd hu hne
  · rw [Option.eq_none_iff_forall_ne_some]
    intro hit hd
    rw [List.append_assoc] at hd
    exact h v b hit hv hd

theorem quiet_of_no_key {key : Text} {c : Char}
    (hstart : ∀ t hit, recognise t = some hit → key <+: t) (hc : c ∉ key) (ha : ¬ key <:+: a) :
    Quiet recognise (a ++ [c]) := by
  apply quiet_concat
  intro v b hit hv hd
  have hkey := prefix_of_prefix_append_cons hc (hstart _ hit hd)
  exact ha (hkey.isInfix.trans hv.isInfix)

/-- A text without the character that finds start with is quiet. -/
theorem quiet_of_not_mem {c : Char}
    (hhead : ∀ t hit, recognise t = some hit → t.head? = some c) (ha : c ∉ a) :
    Quiet recognise a := by
  intro b u hu hne
  obtain ⟨d, u, rfl⟩ := List.exists_cons_of_ne_nil hne
  rw [Option.eq_none_iff_forall_ne_some]
  intro hit h
  obtain rfl : d = c := Option.some.inj (hhead _ hit h)
  exact ha (hu.subset List.mem_cons_self)

theorem Unreached.extend {s : Text} (h : Unreached recognise b) (ha : BarrenBefore recognise a s) :
    BarrenBefore recognise a (s ++ b) := by
  intro u hu hne
  rw [← List.append_assoc, h.behind, ha u hu hne]

/-! Gathering and erasing, stretch by stretch -/

theorem findAll_append (h : BarrenBefore recognise a b) :
    findAll recognise (a ++ b) = findAll recognise b := by
  induction a with
  | nil => rfl
  | cons c a ih =>
    obtain ⟨hc, ha⟩ := h.of_cons
    rw [findAll, List.cons_append, findAllFrom, hc]
    exact ih ha

theorem eraseAll_append (h : BarrenBefore recognise a b) :
    eraseAll recognise (a ++ b) = a ++ eraseAll recognise b := by
  induction a with
  | nil => rfl
  | cons c a ih =>
    obtain ⟨hc, ha⟩ := h.of_cons
    rw [eraseAll, List.cons_append, eraseAllFrom, hc]
    exact congrArg (c :: ·) (ih ha)

theorem findAllFrom_eq (n : Nat) (t : Text) :
    findAllFrom recognise n t = findAll recognise (t.drop n) := by
  induction n generalizing t with
  | zero => rfl
  | succ n ih =>
    cases t with
    | nil => rfl
    | cons c t => exact ih t

theorem eraseAllFrom_eq (n : Nat) (t : Text) :
    eraseAllFrom recognise n t = eraseAll recognise (t.drop n) := by
  induction n generalizing t with
  | zero => rfl
  | succ n ih =>
    cases t with
    | nil => rfl
    | cons c t => exact ih t

theorem findAll_found {value : α} {found rest : Text} (hne : found ≠ [])
    (h : recognise (found ++ rest) = some (value, found)) :
    findAll recognise (found ++ rest) = (value, found) :: findAll recognise rest := by
  obtain ⟨c, cs, rfl⟩ := List.exists_cons_of_ne_nil hne
  rw [List.cons_append] at h ⊢
  rw [findAll, findAllFrom, h]
  simp only [findAllFrom_eq, List.length_cons, Nat.add_sub_cancel, List.drop_left]

theorem eraseAll_found {value : α} {found rest : Text} (hne : found ≠ [])
    (h : recognise (found ++ rest) = some (value, found)) :
    eraseAll recognise (found ++ rest) = eraseAll recognise rest := by
  obtain ⟨c, cs, rfl⟩ := List.exists_cons_of_ne_nil hne
  rw [List.cons_append] at h ⊢
  rw [eraseAll, eraseAllFrom, h]
  simp only [eraseAllFrom_eq, List.length_cons, Nat.add_sub_cancel, List.drop_left]

/-- A text is barren, or it has a first find with a barren stretch before it. -/
theorem barren_or_found (ha : Anchored recognise) (t : Text) :
    BarrenBefore recognise t [] ∨ ∃ front value found rest, t = front ++ (found ++ rest) ∧
      found ≠ [] ∧ BarrenBefore recognise front (found ++ rest) ∧
      recognise (found ++ rest) = some (value, found) := by
  induction t with
  | nil => exact .inl (quiet_nil [])
  | cons c cs ih =>
    cases hr : recognise (c :: cs) with
    | some hit =>
      obtain ⟨hne, rest, ht⟩ := ha _ hit.1 hit.2 hr
      exact .inr ⟨[], hit.1, hit.2, rest, ht.symm, hne, quiet_nil _, ht ▸ hr⟩
    | none =>
      have hcons : ∀ {a b : Text}, cs = a ++ b → BarrenBefore recognise a b →
          BarrenBefore recognise (c :: a) b := by
        intro a b hcs h u hu hne
        rcases List.suffix_cons_iff.1 hu with rfl | hu
        · rw [List.cons_append, ← hcs, hr]
        · exact h u hu hne
      rcases ih with hb | ⟨front, value, found, rest, hcs, hne, hb, hf⟩
      · exact .inl (hcons (List.append_nil cs).symm hb)
      · exact .inr ⟨c :: front, value, found, rest, by rw [hcs]; rfl, hne, hcons hcs hb, hf⟩

/-- What holds of barren texts and is passed on from the text behind a find holds of all. -/
theorem finds_induction (ha : Anchored recognise) {motive : Text → Prop}
    (barren : ∀ t, BarrenBefore recognise t [] → motive t)
    (found : ∀ front value found rest, found ≠ [] →
      BarrenBefore recognise front (found ++ rest) →
      recognise (found ++ rest) = some (value, found) →
      motive rest → motive (front ++ (found ++ rest))) (t : Text) : motive t := by
  generalize hn : t.length = n
  induction n using Nat.strongRecOn generalizing t with
  | ind n ih =>
    rcases barren_or_found ha t with hb | ⟨front, value, text, rest, rfl, hne, hb, hf⟩
    · exact barren t hb
    · refine found front value text rest hne hb hf (ih rest.length ?_ rest rfl)
      have hpos := List.length_pos_of_ne_nil hne
      simp only [List.length_append] at hn
      omega

theorem findAll_barren (h : BarrenBefore recognise t []) : findAll recognise t = [] := by
  have hf := findAll_append h
  rwa [List.append_nil] at hf

theorem eraseAll_barren (h : BarrenBefore recognise t []) : eraseAll recognise t = t := by
  have he := eraseAll_append h
  rw [List.append_nil] at he
  rw [he, eraseAll, eraseAllFrom, List.append_nil]

theorem findAll_eq_nil_iff (ha : Anchored recognise) :
    findAll recognise t = [] ↔ BarrenBefore recognise t [] := by
  refine ⟨fun h => ?_, findAll_barren⟩
  rcases barren_or_found ha t with hb | ⟨front, value, found, rest, rfl, hne, hb, hf⟩
  · exact hb
  · rw [findAll_append hb, findAll_found hne hf] at h
    cases h

theorem find?_eq_head? (recognise : Text → Option (α × Text)) (t : Text) :
    find? recognise t = (findAll recognise t).head? := by
  induction t with
  | nil => rfl
  | cons c cs ih =>
    rw [find?, findAll, findAllFrom]
    cases recognise (c :: cs) with
    | some hit => rfl
    | none => exact ih

theorem find?_eq_none_iff (ha : Anchored recognise) :
    find? recognise t = none ↔ BarrenBefore recognise t [] := by
  rw [find?_eq_head?, List.head?_eq_none_iff, findAll_eq_nil_iff ha]

/-- A text that no find reaches into adds nothing to the finds. -/
theorem findAll_unreached (ha : Anchored recognise) (hb : Unreached recognise b) (t : Text) :
    findAll recognise (t ++ b) = findAll recognise t := by
  induction t using finds_induction ha with
  | barren t h =>
    have hext := hb.extend h
    rw [List.nil_append] at hext
    rw [findAll_append hext, findAll_barren hb.barren, findAll_barren h]
  | found front value found rest hne h hf ih =>
    have hext := hb.extend h
    have hbehind := (hb.behind (found ++ rest)).trans hf
    rw [List.append_assoc] at hext hbehind
    rw [List.append_assoc, List.append_assoc, findAll_append hext, findAll_found hne hbehind, ih,
      findAll_append h, findAll_found hne hf]

theorem eraseAll_unreached (ha : Anchored recognise) (hb : Unreached recognise b) (t : Text) :
    eraseAll recognise (t ++ b) = eraseAll recognise t ++ b := by
  induction t using finds_induction ha with
  | barren t h =>
    have hext := hb.extend h
    rw [List.nil_append] at hext
    rw [eraseAll_append hext, eraseAll_barren hb.barren, eraseAll_barren h]
  | found front value found rest hne h hf ih =>
    have hext := hb.extend h
    have hbehind := (hb.behind (found ++ rest)).trans hf
    rw [List.append_assoc] at hext hbehind
    rw [List.append_assoc, List.append_assoc, eraseAll_append hext, eraseAll_found hne hbehind, ih,
      eraseAll_append h, eraseAll_found hne hf, List.append_assoc]

/-- Two texts are searched one after the other if no find goes over from the first one. -/
theorem findAll_append_of_cut (ha : Anchored recognise) (h : CutBefore recognise a b) :
    findAll recognise (a ++ b) = findAll recognise a ++ findAll recognise b := by
  induction a using finds_induction ha with
  | barren t hb =>
    have hno : BarrenBefore recognise t b := by
      intro u hu hne
      have hnone := hb u hu hne
      rw [List.append_nil] at hnone
      rw [h u hu hne, hnone]
    rw [findAll_append hno, findAll_barren hb, List.nil_append]
  | found front value found rest hne hb hf ih =>
    have hsuffix : found ++ rest <:+ front ++ (found ++ rest) := List.suffix_append _ _
    have hno : BarrenBefore recognise front (found ++ rest ++ b) := by
      rintro u ⟨head, rfl⟩ hu
      rw [← List.append_assoc, h (u ++ (found ++ rest)) ⟨head, by simp⟩ (by simp [hu])]
      exact hb u (List.suffix_append _ _) hu
    have hfound := h (found ++ rest) hsuffix (by simp [hne])
    rw [hf, List.append_assoc] at hfound
    rw [List.append_assoc] at hno
    rw [List.append_assoc, List.append_assoc, findAll_append hno, findAll_found hne hfound,
      findAll_append hb, findAll_found hne hf,
      ih fun u hu => h u (hu.trans ((List.suffix_append found rest).trans hsuffix)), List.cons_append]

theorem find?_append (h : BarrenBefore recognise a b) :
    find? recognise (a ++ b) = find? recognise b := by
  rw [find?_eq_head?, findAll_append h, ← find?_eq_head?]

theorem find?_unreached (ha : Anchored recognise) (hb : Unreached recognise b) (t : Text) :
    find? recognise (t ++ b) = find? recognise t := by
  rw [find?_eq_head?, findAll_unreached ha hb, ← find?_eq_head?]

/-! Splitting at the first find -/

theorem splitAtFind?_append (h : BarrenBefore recognise a b) :
    splitAtFind? recognise (a ++ b) = (splitAtFind? recognise b).map fun p => (a ++ p.1, p.2) := by
  induction a with
  | nil => simp
  | cons c a ih =>
    obtain ⟨hc, ha⟩ := h.of_cons
    rw [List.cons_append, splitAtFind?, hc]
    simp only [ih ha, Option.map_map]
    rfl

theorem splitAtFind?_found {value : α} {found rest : Text} (hne : found ≠ [])
    (h : recognise (found ++ rest) = some (value, found)) :
    splitAtFind? recognise (found ++ rest) = some ([], found, rest) := by
  obtain ⟨c, cs, rfl⟩ := List.exists_cons_of_ne_nil hne
  rw [List.cons_append] at h ⊢
  rw [splitAtFind?, h]
  simp only [← List.cons_append, List.drop_left]

theorem splitAtFind?_eq_none_iff (ha : Anchored recognise) :
    splitAtFind? recognise t = none ↔ BarrenBefore recognise t [] := by
  rcases barren_or_found ha t with hb | ⟨front, value, found, rest, rfl, hne, hb, hf⟩
  · have hs := splitAtFind?_append hb
    rw [List.append_nil] at hs
    simp [hs, hb, splitAtFind?]
  · refine iff_of_false ?_ fun hno => ?_
    · rw [splitAtFind?_append hb, splitAtFind?_found hne hf]
      simp
    · have hnone := hno (found ++ rest) (List.suffix_append _ _) (by simp [hne])
      rw [List.append_nil, hf] at hnone
      cases hnone

theorem splitAtFind?_eq_some_iff {before start after : Text} (ha : Anchored recognise) :
    splitAtFind? recognise t = some (before, start, after) ↔
      t = before ++ (start ++ after) ∧ BarrenBefore recognise before (start ++ after) ∧
        ∃ value, recognise (start ++ after) = some (value, start) := by
  constructor
  · intro h
    rcases barren_or_found ha t with hb | ⟨front, value, found, rest, rfl, hne, hb, hf⟩
    · rw [(splitAtFind?_eq_none_iff ha).2 hb] at h
      cases h
    · rw [splitAtFind?_append hb, splitAtFind?_found hne hf] at h
      simp only [Option.map_some, Option.some.injEq, Prod.mk.injEq, List.append_nil] at h
      obtain ⟨rfl, rfl, rfl⟩ := h
      exact ⟨rfl, hb, value, hf⟩
  · rintro ⟨rfl, hb, value, hf⟩
    rw [splitAtFind?_append hb, splitAtFind?_found (ha _ _ _ hf).1 hf]
    simp

end Text
end OpenGrammar
