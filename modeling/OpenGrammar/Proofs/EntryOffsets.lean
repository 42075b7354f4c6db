import OpenGrammar.Proofs.ByteTokens
import OpenGrammar.Proofs.RealProductions

/-! Entries read by offsets. The parts of an entry are noted as offsets into the text of its
block, and its texts are cut out only when all entries are found. Open parentheses are
counted on the way, and the count would fail below zero. Neither the count nor a slice does,
however the brackets of the block are nested. -/
namespace OpenGrammar
namespace Token

def width (toks : List Token) : Nat := Text.utf8Size (spell toks)

@[simp] theorem width_nil : width [] = 0 := rfl

@[simp] theorem width_cons (tok : Token) (toks : List Token) :
    width (tok :: toks) = Text.utf8Size tok.text + width toks := by
  rw [width, spell_cons, Text.utf8Size_append, width]

@[simp] theorem width_append (a b : List Token) : width (a ++ b) = width a + width b := by
  rw [width, spell_append, Text.utf8Size_append, width, width]

/-- An offset between two tokens of a text or at one of its ends. -/
def IsBoundary (t : Text) (offset : Nat) : Prop :=
  ∃ before behind, tokenize t = before ++ behind ∧ width before = offset

end Token

namespace AttributeBlock

open Token (IsBoundary spans spell tokenize width)
open Text (Covers slice? utf8Size)

/-- A token with its offsets. -/
abbrev Span := Token × Nat × Nat

/-- Where an entry starts, where its name ends, where its key ends and where its value starts. -/
structure Offsets where
  start : Nat
  nameEnd : Nat
  keyEnd : Nat
  valueStart : Nat
  deriving DecidableEq, Repr

namespace Offsets

def skipWhite (toks : List Span) : List Span := toks.dropWhile fun s => isWhite s.1

/-- The count of open parentheses behind a token. There is none below zero. -/
def parens? (parens : Nat) (tok : Token) : Option Nat :=
  if tok.isSymbol '(' then some (parens + 1)
  else if tok.isSymbol ')' then (if parens = 0 then none else some (parens - 1))
  else some parens

def closing? (parens : Nat) : List Span → Option (Option (Nat × List Span))
  | [] => some none
  | s :: toks =>
    match parens? parens s.1 with
    | none => none
    | some count => if count = 0 then some (some (s.2.2, toks)) else closing? count toks

def key? (name : Span) (toks : List Span) : Option (Option (Nat × List Span)) :=
  if (skipWhite toks).head?.map (·.1.text) = some ['('] then
    (closing? 0 (skipWhite toks)).map (Option.map (Prod.map id skipWhite))
  else some (some (name.2.2, skipWhite toks))

def sign? : List Span → Option (Nat × List Span)
  | [] => none
  | eq :: toks =>
    if eq.1.text = ['='] ∧ toks.head?.map (·.1.text) ≠ some ['='] then some (eq.2.2, toks) else none

/-- The offsets of the entry that starts with a name, if one does, and what comes behind its
equals sign. -/
def entryAt? (name : Span) (toks : List Span) : Option (Option (Offsets × List Span)) :=
  (key? name toks).map fun found => found.bind fun key => (sign? key.2).map fun sign =>
    (⟨name.2.1, name.2.2, key.1, sign.1⟩, sign.2)

theorem length_closing? {parens keyEnd : Nat} {toks rest : List Span}
    (h : closing? parens toks = some (some (keyEnd, rest))) : rest.length ≤ toks.length := by
  induction toks generalizing parens with
  | nil => cases h
  | cons s toks ih =>
    rw [closing?] at h
    split at h
    · cases h
    split at h
    · cases h
      exact Nat.le_succ _
    · exact Nat.le_succ_of_le (ih h)

theorem length_skipWhite (toks : List Span) : (skipWhite toks).length ≤ toks.length :=
  (List.dropWhile_suffix _).length_le

theorem length_entryAt? {name : Span} {toks rest : List Span} {o : Offsets}
    (h : entryAt? name toks = some (some (o, rest))) : rest.length ≤ toks.length := by
  obtain ⟨found, hkey, hfound⟩ := Option.map_eq_some_iff.1 h
  obtain ⟨⟨keyEnd, behind⟩, rfl, hsign⟩ := Option.bind_eq_some_iff.1 hfound
  obtain ⟨⟨stop, more⟩, hs, he⟩ := Option.map_eq_some_iff.1 hsign
  obtain ⟨-, rfl⟩ := Prod.mk.inj he
  have hbehind : behind.length ≤ toks.length := by
    have hskip := length_skipWhite toks
    unfold key? at hkey
    split at hkey
    · obtain ⟨closed, hc, hm⟩ := Option.map_eq_some_iff.1 hkey
      obtain ⟨⟨stop', rest'⟩, rfl, hp⟩ := Option.map_eq_some_iff.1 hm
      obtain ⟨-, rfl⟩ := Prod.mk.inj hp
      exact Nat.le_trans (length_skipWhite rest') (Nat.le_trans (length_closing? hc) hskip)
    · obtain ⟨-, rfl⟩ := Prod.mk.inj (Option.some.inj (Option.some.inj hkey))
      exact hskip
  have hmore : more.length ≤ behind.length := by
    cases behind with
    | nil => cases hs
    | cons eq behind =>
      rw [sign?] at hs
      split at hs
      · obtain ⟨-, rfl⟩ := Prod.mk.inj (Option.some.inj hs)
        exact Nat.le_succ _
      · cases hs
  exact Nat.le_trans hmore hbehind

def read (depth : Nat) (toks : List Span) : Option (List Offsets) :=
  match toks with
  | [] => some []
  | s :: toks =>
    match _h : if depth = 0 ∧ s.1.kind = .identifier then entryAt? s toks else some none with
    | none => none
    | some (some (o, rest)) => (read 0 rest).map (o :: ·)
    | some none => read (depthAfter depth s.1) toks
termination_by toks.length
decreasing_by
  · split at _h
    · have := length_entryAt? _h
      simp only [List.length_cons]
      omega
    · cases _h
  · simp

/-- Each entry runs up to the start of the next, and the last one to the end. -/
def withStops (stop : Nat) : List Offsets → List (Offsets × Nat)
  | [] => []
  | o :: os => (o, (os.head?.map Offsets.start).getD stop) :: withStops stop os

/-- The entry with given offsets, if these are such that its parts can be cut out. -/
def cut? (inner : Text) (p : Offsets × Nat) : Option Attribute := do
  let name ← slice? inner p.1.start p.1.nameEnd
  let key ← slice? inner p.1.start p.1.keyEnd
  let value ← slice? inner p.1.valueStart p.2
  let text ← slice? inner p.1.start p.2
  return ⟨name, Text.trim key, Text.trim value, Text.trim text⟩

end Offsets

/-- Reads the text between the braces of a block by offsets, unless the count of parentheses or
a slice fails. -/
def parse? (inner : Text) : Option AttributeBlock := do
  let starts ← Offsets.read 0 (spans 0 (tokenize inner))
  let entries ← (Offsets.withStops (utf8Size inner) starts).mapM (Offsets.cut? inner)
  return ⟨entries⟩

namespace Entry

def offsets (pos : Nat) (e : Entry) : Offsets where
  start := pos
  nameEnd := pos + utf8Size e.name.text
  keyEnd := pos + utf8Size e.name.text + width e.key
  valueStart := pos + utf8Size e.name.text + width e.key + width e.sign

def placed (pos : Nat) : List Entry → List (Offsets × Nat)
  | [] => []
  | e :: es => (e.offsets pos, pos + width e.tokens) :: placed (pos + width e.tokens) es

end Entry

namespace Offsets

/-! The offsets of the entries that a block is split into -/

theorem skipWhite_cons (s : Span) (toks : List Span) :
    skipWhite (s :: toks) = if isWhite s.1 then skipWhite toks else s :: toks :=
  List.dropWhile_cons

theorem skipWhite_spans (pos : Nat) (toks : List Token) :
    skipWhite (spans pos toks) =
      spans (pos + width (toks.takeWhile isWhite)) (toks.dropWhile isWhite) := by
  induction toks generalizing pos with
  | nil => rfl
  | cons tok toks ih =>
    rw [spans, skipWhite_cons, List.takeWhile_cons, List.dropWhile_cons]
    split
    · rw [ih, Token.width_cons, Nat.add_assoc]
    · rfl

theorem head?_text_spans (pos : Nat) (toks : List Token) :
    (spans pos toks).head?.map (·.1.text) = toks.head?.map Token.text := by
  cases toks <;> rfl

/-- While a parenthesis is open the count does not fail. -/
theorem parens?_of_pos {parens : Nat} (h : 0 < parens) (tok : Token) :
    parens? parens tok = some (parensAfter parens tok) := by
  unfold parens? parensAfter
  rw [if_neg (Nat.ne_of_gt h)]
  split
  · rfl
  · split <;> rfl

theorem closing?_spans {parens : Nat} (h : 0 < parens) (pos : Nat) (toks : List Token) :
    closing? parens (spans pos toks) = some ((closeParens? parens toks).map fun p =>
      (pos + width p.1, spans (pos + width p.1) p.2)) := by
  induction toks generalizing parens pos with
  | nil => rfl
  | cons tok toks ih =>
    rw [spans, closing?, parens?_of_pos h, closeParens?]
    by_cases hz : parensAfter parens tok = 0
    · simp [hz]
    · simp only [hz, if_false]
      rw [ih (Nat.pos_of_ne_zero hz), Option.map_map]
      congr 2
      funext p
      simp [Nat.add_assoc]

theorem sign?_spans (pos : Nat) (toks : List Token) :
    sign? (skipWhite (spans pos toks)) = (equalsSign? toks).map fun p =>
      (pos + width p.1, spans (pos + width p.1) p.2) := by
  rw [skipWhite_spans, equalsSign?]
  cases toks.dropWhile isWhite with
  | nil => rfl
  | cons eq rest =>
    rw [spans, sign?, head?_text_spans]
    by_cases hs : eq.text = ['='] ∧ rest.head?.map Token.text ≠ some ['=']
    · simp only [if_pos hs, Option.map_some, Token.width_append, Token.width_cons, Token.width_nil,
        Nat.add_assoc, Nat.add_zero]
    · simp only [if_neg hs, Option.map_none]

theorem entryKey?_of_no_argument {toks : List Token}
    (h : (toks.dropWhile isWhite).head?.map Token.text ≠ some ['(']) :
    entryKey? toks = (equalsSign? toks).map fun p => ([], p) := by
  unfold entryKey?
  cases hd : toks.dropWhile isWhite with
  | nil => simp [equalsSign?, hd]
  | cons tok more =>
    have ht : tok.text ≠ ['('] := by simpa [hd] using h
    simp only [if_neg ht]

theorem entryAt?_spans {toks : List Token} (hl : ∀ tok ∈ toks, tok.Leads []) (name : Token)
    (start pos : Nat) :
    entryAt? (name, start, pos) (spans pos toks) = some ((entryKey? toks).map fun p =>
      (⟨start, pos, pos + width p.1, pos + width p.1 + width p.2.1⟩,
        spans (pos + width p.1 + width p.2.1) p.2.2)) := by
  have hhead : (skipWhite (spans pos toks)).head?.map (·.1.text) =
      (toks.dropWhile isWhite).head?.map Token.text := by
    rw [skipWhite_spans, head?_text_spans]
  by_cases hop : (toks.dropWhile isWhite).head?.map Token.text = some ['(']
  · obtain ⟨op, ho, ht⟩ := Option.map_eq_some_iff.1 hop
    obtain ⟨more, hd⟩ := List.head?_eq_some_iff.1 ho
    have hsymbol : op = ⟨.symbol, ['(']⟩ :=
      Token.eq_symbol_of_text (hl op ((List.dropWhile_sublist _).subset (by rw [hd]; simp))) (by decide) ht
    -- the count starts with the parenthesis that opens the argument, and is not zero behind it
    have hclosing : closing? 0 (skipWhite (spans pos toks)) =
        closing? 1 (spans (pos + width (toks.takeWhile isWhite) + utf8Size op.text) more) := by
      rw [skipWhite_spans, hd, spans, closing?, hsymbol]
      rfl
    rw [entryAt?, key?, if_pos (hhead.trans hop), hclosing, closing?_spans Nat.one_pos, entryKey?, hd]
    simp only [ht, if_true, Option.map_some]
    cases closeParens? 1 more with
    | none => rfl
    | some p =>
      simp only [Option.map_some, Prod.map, id, Option.bind_some, sign?_spans, Option.map_map,
        Function.comp_def, Token.width_append, Token.width_cons, ht, Nat.add_assoc]
  · rw [entryAt?, key?, if_neg (by rwa [hhead]), entryKey?_of_no_argument hop]
    simp only [Option.map_some, Option.bind_some, sign?_spans, Option.map_map, Function.comp_def,
      Token.width_nil, Nat.add_zero]

theorem depthAfter_of_identifier {tok : Token} (h : tok.kind = .identifier) (depth : Nat) :
    depthAfter depth tok = depth := by
  have hsymbol : ∀ c, tok.isSymbol c = false := fun c => by simp [Token.isSymbol, h]
  simp [depthAfter, hsymbol]

theorem read_entry {s : Span} {toks rest : List Span} {o : Offsets} (hk : s.1.kind = .identifier)
    (he : entryAt? s toks = some (some (o, rest))) :
    read 0 (s :: toks) = (read 0 rest).map (o :: ·) := by
  have hfound : (if 0 = 0 ∧ s.1.kind = .identifier then entryAt? s toks else some none) =
      some (some (o, rest)) := by rw [if_pos ⟨rfl, hk⟩, he]
  rw [read]
  split
  · rename_i h
    rw [hfound] at h
    cases h
  · rename_i h
    rw [hfound] at h
    cases h
    rfl
  · rename_i h
    rw [hfound] at h
    cases h

theorem read_other {depth : Nat} {s : Span} {toks : List Span}
    (h : (if depth = 0 ∧ s.1.kind = .identifier then entryAt? s toks else some none) = some none) :
    read depth (s :: toks) = read (depthAfter depth s.1) toks := by
  rw [read]
  split
  · rename_i h'
    rw [h] at h'
    cases h'
  · rename_i h'
    rw [h] at h'
    cases h'
  · rfl

/-- The offsets that are read are those of the entries into which the tokens are split. -/
theorem read_spans {toks : List Token} (hl : ∀ tok ∈ toks, tok.Leads []) (depth pos : Nat) :
    read depth (spans pos toks) =
      some ((Entry.placed (pos + width (split depth toks).1) (split depth toks).2).map Prod.fst) := by
  induction depth, toks using split.induct generalizing pos with
  | case1 depth => simp [split, spans, read, Entry.placed]
  | case2 depth tok toks hd key sign rest he ih =>
    have hl' : ∀ t ∈ toks, t.Leads [] := fun t ht => hl t (List.mem_cons_of_mem _ ht)
    have hrest : ∀ t ∈ rest, t.Leads [] := fun t ht => hl' t (by rw [← entryKey?_append he]; simp [ht])
    obtain ⟨rfl, hk⟩ := hd
    have hentry := entryAt?_spans hl' tok pos (pos + utf8Size tok.text)
    rw [he, Option.map_some] at hentry
    rw [split_entry hk he, spans, read_entry hk hentry, ih hrest]
    simp [Entry.placed, Entry.offsets, Entry.tokens, Nat.add_assoc]
  | case3 depth tok toks hd he ih =>
    have hl' : ∀ t ∈ toks, t.Leads [] := fun t ht => hl t (List.mem_cons_of_mem _ ht)
    obtain ⟨rfl, hk⟩ := hd
    have hentry := entryAt?_spans hl' tok pos (pos + utf8Size tok.text)
    rw [he, Option.map_none] at hentry
    rw [split_word hk he, spans, read_other (by rw [if_pos ⟨rfl, hk⟩, hentry]),
      depthAfter_of_identifier hk, ih hl']
    simp [Nat.add_assoc]
  | case4 depth tok toks hd ih =>
    have hl' : ∀ t ∈ toks, t.Leads [] := fun t ht => hl t (List.mem_cons_of_mem _ ht)
    rw [split_other hd, spans, read_other (if_neg hd), ih hl']
    simp [Nat.add_assoc]

theorem withStops_placed (pos : Nat) (entries : List Entry) :
    withStops (pos + width (entries.flatMap Entry.tokens)) ((Entry.placed pos entries).map Prod.fst) =
      Entry.placed pos entries := by
  induction entries generalizing pos with
  | nil => rfl
  | cons e es ih =>
    have hstop := ih (pos + width e.tokens)
    rw [Nat.add_assoc] at hstop
    rw [Entry.placed, List.map_cons, withStops, List.flatMap_cons, Token.width_append, hstop]
    cases es <;> rfl

end Offsets

namespace Entry

/-! What is cut out at the offsets of an entry -/

theorem slice_of_tokens {inner : Text} {a b c : List Token} (h : tokenize inner = a ++ (b ++ c)) :
    slice? inner (width a) (width a + width b) = some (spell b) := by
  have hs := congrArg spell h
  rw [Token.spell_tokenize, Token.spell_append, Token.spell_append] at hs
  rw [hs]
  exact Text.slice?_append _ _ _

theorem cut?_offsets {inner : Text} {a c : List Token} {e : Entry}
    (h : tokenize inner = a ++ (e.tokens ++ c)) :
    Offsets.cut? inner (e.offsets (width a), width a + width e.tokens) = some e.toAttribute := by
  have hname := @slice_of_tokens inner a [e.name] (e.key ++ (e.sign ++ e.value) ++ c)
    (by rw [h]; simp [tokens])
  have hkey := @slice_of_tokens inner a (e.name :: e.key) (e.sign ++ e.value ++ c)
    (by rw [h]; simp [tokens])
  have hvalue := @slice_of_tokens inner (a ++ (e.name :: (e.key ++ e.sign))) e.value c
    (by rw [h]; simp [tokens])
  have htext := slice_of_tokens h
  simp only [Token.width_append, Token.width_cons, Token.width_nil, Nat.add_zero, tokens,
    ← Nat.add_assoc] at hname hkey hvalue htext
  simp only [Offsets.cut?, offsets, tokens, Token.width_append, Token.width_cons, ← Nat.add_assoc,
    hname, hkey, hvalue, htext]
  simp [toAttribute, tokens]

/-- Entries that follow each other to the end of a text are read back. -/
theorem mapM_cut?_placed {inner : Text} {a : List Token} {entries : List Entry}
    (h : tokenize inner = a ++ entries.flatMap Entry.tokens) :
    (placed (width a) entries).mapM (Offsets.cut? inner) = some (entries.map Entry.toAttribute) := by
  induction entries generalizing a with
  | nil => rfl
  | cons e es ih =>
    rw [List.flatMap_cons] at h
    have hrest := @ih (a ++ e.tokens) (by rw [h, List.append_assoc])
    rw [Token.width_append] at hrest
    rw [placed, List.mapM_cons, cut?_offsets h, hrest]
    rfl

theorem covers_placed (pos : Nat) {entries : List Entry} (h : ∀ e ∈ entries, e.name.text ≠ []) :
    Covers pos ((placed pos entries).map fun p => (p.1.start, p.2))
      (pos + width (entries.flatMap Entry.tokens)) := by
  induction entries generalizing pos with
  | nil => exact (Nat.add_zero pos).symm
  | cons e es ih =>
    have hpos := Text.utf8Size_pos (h e (by simp))
    have hrest := ih (pos + width e.tokens) fun e' he => h e' (List.mem_cons_of_mem _ he)
    rw [List.flatMap_cons, Token.width_append, ← Nat.add_assoc]
    refine ⟨rfl, ?_, hrest⟩
    simp only [offsets, tokens, Token.width_cons]
    omega

/-- Each of the offsets of an entry in a text is a boundary between its tokens. -/
theorem exists_of_mem_placed {inner : Text} {a : List Token} {entries : List Entry}
    (h : tokenize inner = a ++ entries.flatMap Entry.tokens) {p : Offsets × Nat}
    (hp : p ∈ placed (width a) entries) :
    ∃ (e : Entry) (before behind : List Token), tokenize inner = before ++ (e.tokens ++ behind) ∧
      p = (e.offsets (width before), width before + width e.tokens) := by
  induction entries generalizing a with
  | nil => cases hp
  | cons e es ih =>
    rw [List.flatMap_cons] at h
    rcases List.mem_cons.1 hp with rfl | hp
    · exact ⟨e, a, _, h, rfl⟩
    · rw [← Token.width_append] at hp
      exact ih (by rw [h, List.append_assoc]) hp

end Entry
/-- The offsets of an entry and the one at which it ends are in their order, and are boundaries
between tokens. -/
structure Offsets.InOrder (inner : Text) (p : Offsets × Nat) : Prop where
  start_lt : p.1.start < p.1.nameEnd
  nameEnd_le : p.1.nameEnd ≤ p.1.keyEnd
  keyEnd_le : p.1.keyEnd ≤ p.1.valueStart
  valueStart_le : p.1.valueStart ≤ p.2
  boundaries : ∀ offset ∈ [p.1.start, p.1.nameEnd, p.1.keyEnd, p.1.valueStart, p.2],
    IsBoundary inner offset

theorem Entry.inOrder {inner : Text} {before behind : List Token} {e : Entry}
    (h : tokenize inner = before ++ (e.tokens ++ behind)) :
    Offsets.InOrder inner (e.offsets (width before), width before + width e.tokens) := by
  have hname : 0 < utf8Size e.name.text := by
    have hmem : e.name ∈ tokenize inner := by rw [h]; simp [tokens]
    exact Text.utf8Size_pos (Token.leads_of_mem_tokenize hmem).ne_nil
  refine ⟨?_, ?_, ?_, ?_, ?_⟩
  · simp only [offsets]
    omega
  · exact Nat.le_add_right _ _
  · exact Nat.le_add_right _ _
  · simp only [offsets, tokens, Token.width_cons, Token.width_append]
    omega
  · simp only [List.forall_mem_cons, List.not_mem_nil, false_implies, implies_true, and_true]
    refine ⟨⟨before, _, h, rfl⟩, ⟨before ++ [e.name], e.key ++ (e.sign ++ e.value) ++ behind, ?_, ?_⟩,
      ⟨before ++ e.name :: e.key, e.sign ++ e.value ++ behind, ?_, ?_⟩,
      ⟨before ++ e.name :: (e.key ++ e.sign), e.value ++ behind, ?_, ?_⟩,
      ⟨before ++ e.tokens, behind, ?_, ?_⟩⟩
    all_goals simp [h, tokens, offsets, Nat.add_assoc]

/-- The texts of entries that follow each other, with the blank characters behind each. -/
theorem exists_gaps {entries : List Entry}
    (h : ∀ e ∈ entries, Text.trimStart (spell e.tokens) = spell e.tokens) :
    ∃ parts : List (Text × Text), spell (entries.flatMap Entry.tokens) = parts.flatMap (fun p => p.1 ++ p.2) ∧
      parts.map Prod.fst = (entries.map Entry.toAttribute).map Attribute.text ∧
      ∀ p ∈ parts, Text.allBlank p.2 = true := by
  induction entries with
  | nil => exact ⟨[], rfl, rfl, by simp⟩
  | cons e es ih =>
    obtain ⟨parts, hspell, htexts, hblank⟩ := ih fun e' he => h e' (List.mem_cons_of_mem _ he)
    obtain ⟨gap, hgap, he⟩ := Text.exists_trimEnd_append (spell e.tokens)
    have htext : e.toAttribute.text = Text.trimEnd (spell e.tokens) := by
      show Text.trimEnd (Text.trimStart (spell e.tokens)) = _
      rw [h e (by simp)]
    refine ⟨(e.toAttribute.text, gap) :: parts, ?_, by simp [htexts], ?_⟩
    · rw [List.flatMap_cons, Token.spell_append, hspell, List.flatMap_cons, htext, ← he]
    · exact fun p hp => (List.mem_cons.1 hp).elim (fun he => he ▸ hgap) (hblank p)

theorem Entry.first_placed (pos : Nat) (entries : List Entry) :
    (((placed pos entries).map Prod.fst).head?.map Offsets.start).getD
      (pos + width (entries.flatMap tokens)) = pos := by
  cases entries <;> rfl

/-- Every block is read by offsets, and what is read is the same. The offsets of each entry are in
their order. Each part of the block from the first entry on is in one entry alone. An entry
starts with its name, and all entries are the block from the first one on, but for the blank
characters behind each. -/
theorem parse?_eq (inner : Text) :
    ∃ starts first, Offsets.read 0 (spans 0 (tokenize inner)) = some starts ∧
      first = (starts.head?.map Offsets.start).getD (utf8Size inner) ∧
      parse? inner = some (parse inner) ∧
      (∀ p ∈ Offsets.withStops (utf8Size inner) starts, Offsets.InOrder inner p) ∧
      (∀ n, first ≤ n → n < utf8Size inner →
        ∃! i, i ∈ (Offsets.withStops (utf8Size inner) starts).map (fun p => (p.1.start, p.2)) ∧
          i.1 ≤ n ∧ n < i.2) ∧
      (∀ a ∈ (parse inner).entries, a.name <+: a.text) ∧
      ∃ (front : Text) (parts : List (Text × Text)),
        inner = front ++ parts.flatMap (fun p => p.1 ++ p.2) ∧ utf8Size front = first ∧
        parts.map Prod.fst = (parse inner).entries.map Attribute.text ∧
        ∀ p ∈ parts, Text.allBlank p.2 = true := by
  have hread := Offsets.read_spans (fun tok ht => Token.leads_of_mem_tokenize (t := inner) ht) 0 0
  have hparts := split_append 0 (tokenize inner)
  have hstart : ∀ e ∈ (split 0 (tokenize inner)).2, Text.trimStart (spell e.tokens) = spell e.tokens :=
    fun _ he => trimStart_tokens he
  have hname : ∀ e ∈ (split 0 (tokenize inner)).2, e.name.text ≠ [] := fun _ he =>
    (Token.leads_of_mem_tokenize (name_mem_of_mem_split he)).ne_nil
  have hentries : (parse inner).entries = (split 0 (tokenize inner)).2.map Entry.toAttribute := rfl
  generalize (split 0 (tokenize inner)).1 = front at hread hparts
  generalize (split 0 (tokenize inner)).2 = entries at hread hparts hstart hname hentries
  rw [Nat.zero_add] at hread
  have hsize : width front + width (entries.flatMap Entry.tokens) = utf8Size inner := by
    rw [← Token.width_append, hparts, width, Token.spell_tokenize]
  have hstops := Offsets.withStops_placed (width front) entries
  have hfirst := Entry.first_placed (width front) entries
  have hcovers := Entry.covers_placed (width front) hname
  rw [hsize] at hstops hfirst hcovers
  refine ⟨_, _, hread, rfl, ?_, ?_, ?_, ?_, ?_⟩
  · have hcut := Entry.mapM_cut?_placed hparts.symm
    simp only [parse?, hread, Option.bind_eq_bind, Option.bind_some, hstops, hcut]
    exact congrArg (fun es => some (AttributeBlock.mk es)) hentries.symm
  · intro p hp
    rw [hstops] at hp
    obtain ⟨e, before, behind, hb, rfl⟩ := Entry.exists_of_mem_placed hparts.symm hp
    exact Entry.inOrder hb
  · intro n hlo hhi
    rw [hfirst] at hlo
    rw [hstops]
    exact hcovers.existsUnique hlo hhi
  · intro a ha
    rw [← takeWhile_text_of_mem_parse ha]
    exact List.takeWhile_prefix _
  · obtain ⟨parts, hspell, htexts, hblank⟩ := exists_gaps hstart
    refine ⟨spell front, parts, ?_, hfirst.symm, by rw [htexts, hentries], hblank⟩
    rw [← hspell, ← Token.spell_append, hparts, Token.spell_tokenize]

end AttributeBlock
end OpenGrammar
