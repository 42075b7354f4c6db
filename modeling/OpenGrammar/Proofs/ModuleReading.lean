import OpenGrammar.Proofs.Fragment
import OpenGrammar.Proofs.ModuleLines

/-! Reading a dispatch module. The lines of a module tell which slots it has, which of them it
reads, which it resets and which it binds; all of this agrees with the slot table of the same
plan. -/
namespace OpenGrammar
namespace Text

/-- The text between a head and the first stop behind it, and the text from that stop on. -/
def field? (head : Text) (stop : Char) (t : Text) : Option (Text × Text) :=
  (head.isPrefixOf? t).map (·.span (· != stop))

variable {head name rest t : Text} {stop : Char}

theorem field?_append (hname : stop ∉ name) (hrest : rest.head? = some stop) :
    field? head stop (head ++ (name ++ rest)) = some (name, rest) := by
  have hhead : head.isPrefixOf? (head ++ (name ++ rest)) = some (name ++ rest) :=
    List.isPrefixOf?_eq_some_iff_append_eq.2 rfl
  have hpass : ∀ c ∈ name, (c != stop) = true := by
    intro c hc
    exact bne_iff_ne.2 fun heq => hname (heq ▸ hc)
  obtain ⟨tail, rfl⟩ := List.head?_eq_some_iff.1 hrest
  rw [field?, hhead, Option.map_some, List.span_eq_takeWhile_dropWhile,
    List.takeWhile_append_of_pos hpass, List.dropWhile_append_of_pos hpass]
  simp

theorem field?_eq_none (h : ¬ head <+: t) : field? head stop t = none := by
  rw [field?, isPrefixOf?_eq_none_iff.2 h, Option.map_none]

theorem suffix_of_field? (h : field? head stop t = some (name, rest)) : rest <:+ t := by
  obtain ⟨u, hu, hspan⟩ := Option.map_eq_some_iff.1 h
  rw [List.span_eq_takeWhile_dropWhile, Prod.mk.injEq] at hspan
  rw [← List.isPrefixOf?_eq_some_iff_append_eq.1 hu, ← hspan.2]
  exact (List.dropWhile_suffix _).trans (List.suffix_append _ _)

end Text

namespace Kotlin

def unescape (text : Text) : Text := text.filter (· != '\x60')

variable {name : Text}

theorem mem_escape {c : Char} (h : c ∈ escape name) : c = '\x60' ∨ c ∈ name := by
  unfold escape at h
  split at h
  · simpa [or_comm, or_assoc] using h
  · exact Or.inr h

theorem not_mem_escape {c : Char} (h : Token.isIdentifier name = true)
    (hpart : Token.isIdentPart c = false) (hquote : c ≠ '\x60') : c ∉ escape name := by
  intro hc
  rcases mem_escape hc with rfl | hc
  · exact hquote rfl
  · rw [Token.isIdentPart_of_mem h hc] at hpart
    cases hpart

theorem unescape_escape (h : Token.isIdentifier name = true) : unescape (escape name) = name := by
  have hkept : name.filter (· != '\x60') = name := by
    rw [List.filter_eq_self]
    intro c hc
    have hpart := Token.isIdentPart_of_mem h hc
    exact bne_iff_ne.2 (by rintro rfl; exact absurd hpart (by decide))
  unfold escape unescape
  split <;> simp [hkept]

end Kotlin

/-! Readers of lines -/

namespace ModuleText

open Text
open Kotlin (unescape)

def readVariable (line : Text) : Option Text := do
  let (rule, rest) ← field? "  var ".toList ':' line
  if "? = null".toList.isSuffixOf rest then return unescape rule else none

/-- The slot of its own module that a function with a fallback reads. The name of the function
can be any text, so the line is read from its end. -/
def readAccessor (line : Text) : Option Text := do
  let (rule, rest) ← field? " ?: fallback).parse(builder, level)".toList.reverse '.' line.reverse
  if "  fun ".toList.isPrefixOf line && "(this.".toList.reverse.isPrefixOf rest then
    return unescape rule.reverse
  else none

def readReset (line : Text) : Option Text := do
  let (rule, rest) ← field? "    ".toList ' ' line
  if rest = " = null".toList then return unescape rule else none

/-- A slot of the overridden module, with the slot of the module that it calls and the production
that stands in when that one is empty. -/
structure Binding where
  rule : Text
  own : Text
  fallback : Text
  deriving DecidableEq

/-- The binding that a line makes in a file that writes its classes as told. The production can be
any text, so it is what stands before the end of the line. -/
def readBinding (parser : Text) (names : Plan.BindingNames) (line : Text) : Option Binding := do
  let (rule, rest) ← field? ("    ".toList ++ names.parentModule ++ ['.']) ' ' line
  let (own, rest) ←
    field? (" = ".toList ++ parser ++ " \x7b builder, level -> ".toList ++ names.ownModule ++ ['.'])
      '?' rest
  let rest ←
    ("?.parse(builder, level) ?: ".toList ++ names.ownParser ++ ['.']).isPrefixOf? rest
  let fallback ← "(builder, level) \x7d".toList.isSuffixOf? rest
  return ⟨unescape rule, unescape own, fallback⟩

def opensReset (line : Text) : Bool := line = "  fun reset() \x7b".toList

def opensBinding (line : Text) : Bool :=
  "  fun override".toList.isPrefixOf line && "() \x7b".toList.isSuffixOf line

/-- The routines of a module: for each line that opens one, the lines up to the one that closes
it. -/
def routines (opens : Text → Bool) : List Text → List (List Text)
  | [] => []
  | line :: lines =>
    if opens line then lines.takeWhile (· != "  \x7d".toList) :: routines opens lines
    else routines opens lines

/-- What the lines of a module say about its slots. -/
structure Reading where
  /-- The slots that have a variable. -/
  declared : List Text
  /-- The slots that accessors read. -/
  accessed : List Text
  /-- For each reset routine the slots that it empties. -/
  emptied : List (List Text)
  /-- For each binding routine its bindings. -/
  bound : List (List Binding)
  deriving DecidableEq

def read (parser : Text) (names : Option Plan.BindingNames) (lines : List Text) : Reading where
  declared := lines.filterMap readVariable
  accessed := lines.filterMap readAccessor
  emptied := (routines opensReset lines).map (·.filterMap readReset)
  bound := (routines opensBinding lines).map
    (·.filterMap fun line => names.bind (readBinding parser · line))

/-! Lines that say nothing about slots -/

/-- A line that neither declares nor reads a slot and opens no routine. -/
structure Silent (line : Text) : Prop where
  declares : readVariable line = none
  accesses : readAccessor line = none
  resets : opensReset line = false
  binds : opensBinding line = false

variable {line text : Text} {lines more : List Text} {parser : Text} {names? : Option Plan.BindingNames}

theorem third_of_start {head : Text} (h : head <+: text) (hlen : 2 < head.length) :
    text[2]? = head[2]? := by
  obtain ⟨rest, rfl⟩ := h
  rw [List.getElem?_append_left hlen]

theorem readVariable_of_third (h : text[2]? ≠ some 'v') : readVariable text = none := by
  have hhead : ¬ "  var ".toList <+: text := fun hpre => h (third_of_start hpre (by decide))
  rw [readVariable, field?_eq_none hhead]
  rfl

theorem readAccessor_of_third (h : text[2]? ≠ some 'f') : readAccessor text = none := by
  have hhead : "  fun ".toList.isPrefixOf text = false := by
    rw [← Bool.not_eq_true, List.isPrefixOf_iff_prefix]
    exact fun hpre => h (third_of_start hpre (by decide))
  rw [readAccessor, hhead]
  cases field? " ?: fallback).parse(builder, level)".toList.reverse '.' text.reverse <;> rfl

theorem opensReset_of_third (h : text[2]? ≠ some 'f') : opensReset text = false :=
  decide_eq_false (by rintro rfl; exact h rfl)

theorem opensBinding_of_third (h : text[2]? ≠ some 'f') : opensBinding text = false := by
  have hhead : "  fun override".toList.isPrefixOf text = false := by
    rw [← Bool.not_eq_true, List.isPrefixOf_iff_prefix]
    exact fun hpre => h (third_of_start hpre (by decide))
  rw [opensBinding, hhead, Bool.false_and]

theorem Silent.of_third (hdeclares : readVariable text = none) (h : text[2]? ≠ some 'f') :
    Silent text :=
  ⟨hdeclares, readAccessor_of_third h, opensReset_of_third h, opensBinding_of_third h⟩

theorem Silent.of_plain (hv : text[2]? ≠ some 'v') (hf : text[2]? ≠ some 'f') : Silent text :=
  Silent.of_third (readVariable_of_third hv) hf

/-! What the parts of a module add to its reading -/

theorem read_cons_of_silent (h : Silent line) :
    read parser names? (line :: lines) = read parser names? lines := by
  simp only [read, List.filterMap_cons_none h.declares, List.filterMap_cons_none h.accesses, routines,
    h.resets, h.binds, Bool.false_eq_true, if_false]

theorem read_append_of_silent (h : ∀ line ∈ lines, Silent line) :
    read parser names? (lines ++ more) = read parser names? more := by
  induction lines with
  | nil => rfl
  | cons line lines ih =>
    rw [List.forall_mem_cons] at h
    rw [List.cons_append, read_cons_of_silent h.1, ih h.2]

theorem read_cons_of_variable {rule : Text} (h : readVariable text = some rule)
    (hthird : text[2]? ≠ some 'f') :
    read parser names? (text :: lines) =
      { read parser names? lines with declared := rule :: (read parser names? lines).declared } := by
  simp only [read, List.filterMap_cons_some h, List.filterMap_cons_none (readAccessor_of_third hthird),
    routines, opensReset_of_third hthird, opensBinding_of_third hthird, Bool.false_eq_true, if_false]

theorem read_cons_of_accessor {rule : Text} (h : readAccessor line = some rule)
    (hdeclares : readVariable line = none) (hresets : opensReset line = false)
    (hbinds : opensBinding line = false) :
    read parser names? (line :: lines) =
      { read parser names? lines with accessed := rule :: (read parser names? lines).accessed } := by
  simp only [read, List.filterMap_cons_some h, List.filterMap_cons_none hdeclares, routines, hresets,
    hbinds, Bool.false_eq_true, if_false]

theorem routines_append {opens : Text → Bool} (h : ∀ line ∈ lines, opens line = false) :
    routines opens (lines ++ more) = routines opens more := by
  induction lines with
  | nil => rfl
  | cons line lines ih =>
    rw [List.forall_mem_cons] at h
    rw [List.cons_append, routines, if_neg (by simp [h.1]), ih h.2]

/-! The lines of a dispatch module -/

open Plan
open Kotlin (escape unescape_escape not_mem_escape)
open Kotlin.File (indented)

section Lines

variable {types : TypeNames} {names : BindingNames} {slot : SlotPlan}

theorem last_append {tail : Text} {c : Char} (h : tail.getLast? = some c) (front : Text) :
    (front ++ tail).getLast? = some c := by
  rw [List.getLast?_append, h, Option.some_or]

theorem head_append {head : Text} {c : Char} (h : head.head? = some c) (rest : Text) :
    (head ++ rest).head? = some c := by
  rw [List.head?_append, h, Option.some_or]

theorem third_append {head : Text} {c : Char} (h : head[2]? = some c) (rest : Text) :
    (head ++ rest)[2]? = some c := by
  rw [List.getElem?_append_left (List.getElem?_eq_some_iff.1 h).1, h]

theorem indented_zero (text : Text) : indented 0 text = text := by
  cases text <;> rfl

theorem third_indented_one (text : Text) : (indented 1 text)[2]? = text.head? := by
  cases text <;> rfl

theorem indented_of_ne_nil {text : Text} (h : text ≠ []) (depth : Nat) :
    indented depth text = List.replicate (2 * depth) ' ' ++ text := by
  simp [indented, h]

theorem last_indented {text : Text} {c : Char} (h : text.getLast? = some c) (depth : Nat) :
    (indented depth text).getLast? = some c := by
  have hne : text ≠ [] := by
    rintro rfl
    cases h
  rw [indented_of_ne_nil hne, last_append h]

theorem not_suffix_of_last {tail : Text} {c d : Char} (ht : tail.getLast? = some c)
    (hl : line.getLast? = some d) (hne : d ≠ c) : ¬ tail <:+ line := by
  rintro ⟨rest, rfl⟩
  rw [last_append ht] at hl
  exact hne (Option.some.inj hl).symm

theorem third_indented (depth : Nat) (text : Text) :
    (indented (depth + 2) text)[2]? = none ∨ (indented (depth + 2) text)[2]? = some ' ' := by
  unfold indented
  split
  · exact Or.inl rfl
  · right
    have hlen : 2 < (List.replicate (2 * (depth + 2)) ' ').length := by
      rw [List.length_replicate]
      omega
    rw [List.getElem?_append_left hlen, List.getElem?_replicate, if_pos (by omega)]

/-! Variables and accessors -/

theorem variable_line (types : TypeNames) (slot : SlotPlan) :
    indented 1 (slotVariable types slot) =
      "  var ".toList ++ (escape slot.rule ++ (": ".toList ++ types.parser ++ "? = null".toList)) := by
  have htext : slotVariable types slot = "var ".toList ++
      (escape slot.rule ++ (": ".toList ++ types.parser ++ "? = null".toList)) := by
    unfold slotVariable
    simp only [List.append_assoc]
  have hhead : "  var ".toList = List.replicate (2 * 1) ' ' ++ "var ".toList := by decide
  rw [htext, indented_of_ne_nil (List.append_ne_nil_of_left_ne_nil (by decide) _), hhead,
    List.append_assoc (List.replicate _ _)]

theorem third_variable (types : TypeNames) (slot : SlotPlan) :
    (indented 1 (slotVariable types slot))[2]? = some 'v' := by
  rw [variable_line]
  exact third_of_start (List.prefix_append _ _) (by decide)

theorem readVariable_variable (h : Token.isIdentifier slot.rule = true) :
    readVariable (indented 1 (slotVariable types slot)) = some slot.rule := by
  have hstop : ':' ∉ escape slot.rule := not_mem_escape h (by decide) (by decide)
  have hnull : "? = null".toList.isSuffixOf (": ".toList ++ types.parser ++ "? = null".toList) =
      true := List.isSuffixOf_iff_suffix.2 (List.suffix_append _ _)
  rw [readVariable, variable_line, field?_append hstop rfl]
  simp only [Option.bind_eq_bind, Option.bind_some, hnull, if_true, unescape_escape h]
  rfl

theorem readVariable_of_last {d : Char} (hl : line.getLast? = some d) (hne : d ≠ 'l') :
    readVariable line = none := by
  unfold readVariable
  cases hfield : field? "  var ".toList ':' line with
  | none => rfl
  | some found =>
    have hsuffix : "? = null".toList.isSuffixOf found.2 = false := by
      rw [← Bool.not_eq_true, List.isSuffixOf_iff_suffix]
      intro h
      exact not_suffix_of_last (by decide) hl hne (h.trans (suffix_of_field? hfield))
    simp only [Option.bind_eq_bind, Option.bind_some, hsuffix, Bool.false_eq_true, if_false]

theorem accessor_line (types : TypeNames) (slot : SlotPlan) :
    ∃ signature, indented 1 (slotAccessor types slot) =
      "  fun ".toList ++ (signature ++ ("(this.".toList ++
        (escape slot.rule ++ " ?: fallback).parse(builder, level)".toList))) := by
  have hthis : "): Boolean = (this.".toList = "): Boolean = ".toList ++ "(this.".toList := by decide
  have htext : ∃ signature, slotAccessor types slot =
      "fun ".toList ++ (signature ++ ("(this.".toList ++
        (escape slot.rule ++ " ?: fallback).parse(builder, level)".toList))) := by
    refine ⟨slot.accessor ++ ("(builder: ".toList ++ (types.builder ++
      (", level: Int, fallback: ".toList ++ (types.parser ++ "): Boolean = ".toList)))), ?_⟩
    unfold slotAccessor
    rw [hthis]
    simp only [List.append_assoc]
  have hhead : "  fun ".toList = List.replicate (2 * 1) ' ' ++ "fun ".toList := by decide
  obtain ⟨signature, htext⟩ := htext
  refine ⟨signature, ?_⟩
  rw [htext, indented_of_ne_nil (List.append_ne_nil_of_left_ne_nil (by decide) _), hhead,
    List.append_assoc]

theorem third_accessor (types : TypeNames) (slot : SlotPlan) :
    (indented 1 (slotAccessor types slot))[2]? = some 'f' := by
  obtain ⟨signature, hline⟩ := accessor_line types slot
  rw [hline]
  exact third_of_start (List.prefix_append _ _) (by decide)

theorem last_accessor (types : TypeNames) (slot : SlotPlan) :
    (indented 1 (slotAccessor types slot)).getLast? = some ')' := by
  obtain ⟨signature, hline⟩ := accessor_line types slot
  rw [hline]
  exact last_append (last_append (last_append (last_append (by decide) _) _) _) _

theorem readAccessor_accessor (h : Token.isIdentifier slot.rule = true) :
    readAccessor (indented 1 (slotAccessor types slot)) = some slot.rule := by
  obtain ⟨signature, hline⟩ := accessor_line types slot
  have hstop : '.' ∉ (escape slot.rule).reverse := by
    rw [List.mem_reverse]
    exact not_mem_escape h (by decide) (by decide)
  have hhead : "  fun ".toList.isPrefixOf (indented 1 (slotAccessor types slot)) = true := by
    rw [List.isPrefixOf_iff_prefix, hline]
    exact List.prefix_append _ _
  have hthis : "(this.".toList.reverse.isPrefixOf
      ("(this.".toList.reverse ++ (signature.reverse ++ "  fun ".toList.reverse)) = true :=
    List.isPrefixOf_iff_prefix.2 (List.prefix_append _ _)
  rw [readAccessor, hhead, hline]
  simp only [List.reverse_append, List.append_assoc]
  rw [field?_append hstop rfl]
  simp only [Option.bind_eq_bind, Option.bind_some, hthis, Bool.and_self, if_true,
    List.reverse_reverse, unescape_escape h]
  rfl

theorem readAccessor_of_last {d : Char} (hl : line.getLast? = some d) (hne : d ≠ ')') :
    readAccessor line = none := by
  have hsuffix : ¬ " ?: fallback).parse(builder, level)".toList <:+ line :=
    not_suffix_of_last (c := ')') (by decide) hl hne
  rw [← List.reverse_prefix] at hsuffix
  rw [readAccessor, field?_eq_none hsuffix]
  rfl

/-! Routines -/

theorem reset_line (slot : SlotPlan) :
    indented 2 (slotReset slot) = "    ".toList ++ (escape slot.rule ++ " = null".toList) :=
  indented_of_ne_nil (List.append_ne_nil_of_right_ne_nil _ (by decide)) 2

theorem readReset_reset (h : Token.isIdentifier slot.rule = true) :
    readReset (indented 2 (slotReset slot)) = some slot.rule := by
  have hstop : ' ' ∉ escape slot.rule := not_mem_escape h (by decide) (by decide)
  rw [readReset, reset_line]
  generalize hnull : " = null".toList = null
  have hhead : null.head? = some ' ' := by
    rw [← hnull]
    decide
  simp only [field?_append hstop hhead, Option.bind_eq_bind, Option.bind_some, if_true,
    unescape_escape h]
  rfl

theorem readReset_hook (types : TypeNames) :
    readReset (indented 2 (hookName ++ " = ".toList ++ defaultHook types)) = none := by
  have hline : indented 2 (hookName ++ " = ".toList ++ defaultHook types) =
      "    ".toList ++ (hookName ++ (" = ".toList ++ defaultHook types)) := by
    rw [List.append_assoc]
    exact indented_of_ne_nil (List.append_ne_nil_of_left_ne_nil (by decide) _) 2
  have hlast : (" = ".toList ++ defaultHook types).getLast? = some '\x7d' :=
    last_append (last_append (by decide) _) _
  have hne : " = ".toList ++ defaultHook types ≠ " = null".toList := by
    intro h
    rw [h] at hlast
    exact absurd hlast (by decide)
  rw [readReset, hline, field?_append (by decide) rfl]
  simp only [Option.bind_eq_bind, Option.bind_some, hne, if_false]

theorem binding_line (types : TypeNames) (names : BindingNames) (slot : SlotPlan) :
    indented 2 (slotBinding types names slot) =
      ("    ".toList ++ names.parentModule ++ ['.']) ++ (escape slot.rule ++
        ((" = ".toList ++ types.parser ++ " \x7b builder, level -> ".toList ++ names.ownModule ++
            ['.']) ++ (escape slot.rule ++
          (("?.parse(builder, level) ?: ".toList ++ names.ownParser ++ ['.']) ++ (slot.realEntry ++
            "(builder, level) \x7d".toList))))) := by
  have htext : slotBinding types names slot ≠ [] := by
    unfold slotBinding
    exact List.append_ne_nil_of_right_ne_nil _ (by decide)
  have hblanks : "    ".toList = List.replicate (2 * 2) ' ' := by decide
  rw [indented_of_ne_nil htext, hblanks]
  unfold slotBinding
  simp only [List.append_assoc, List.cons_append, List.nil_append]

theorem readBinding_binding (h : Token.isIdentifier slot.rule = true) :
    readBinding types.parser names (indented 2 (slotBinding types names slot)) =
      some ⟨slot.rule, slot.rule, slot.realEntry⟩ := by
  have hblank : ' ' ∉ escape slot.rule := not_mem_escape h (by decide) (by decide)
  have hquestion : '?' ∉ escape slot.rule := not_mem_escape h (by decide) (by decide)
  rw [readBinding, binding_line]
  generalize hone : "    ".toList ++ names.parentModule ++ ['.'] = one
  generalize htwo : " = ".toList ++ types.parser ++ " \x7b builder, level -> ".toList ++
    names.ownModule ++ ['.'] = two
  generalize hthree : "?.parse(builder, level) ?: ".toList ++ names.ownParser ++ ['.'] = three
  generalize "(builder, level) \x7d".toList = close
  have htwo' : two.head? = some ' ' := by
    rw [← htwo]
    exact head_append (head_append (head_append (head_append (by decide) _) _) _) _
  have hthree' : three.head? = some '?' := by
    rw [← hthree]
    exact head_append (head_append (by decide) _) _
  have hcall : three.isPrefixOf? (three ++ (slot.realEntry ++ close)) =
      some (slot.realEntry ++ close) := List.isPrefixOf?_eq_some_iff_append_eq.2 rfl
  have hentry : close.isSuffixOf? (slot.realEntry ++ close) = some slot.realEntry :=
    List.isSuffixOf?_eq_some_iff_append_eq.2 rfl
  simp only [Option.bind_eq_bind, Option.bind_some, field?_append hblank (head_append htwo' _),
    field?_append hquestion (head_append hthree' _), hcall, hentry, unescape_escape h]
  rfl

theorem suffix_of_readBinding {parser : Text} {binding : Binding}
    (h : readBinding parser names line = some binding) :
    "(builder, level) \x7d".toList <:+ line := by
  simp only [readBinding, Option.bind_eq_bind, Option.bind_eq_some_iff] at h
  obtain ⟨⟨rule, rest⟩, hrule, ⟨own, rest'⟩, hown, call, hcall, entry, hentry, -⟩ := h
  have hclose : "(builder, level) \x7d".toList <:+ call :=
    ⟨entry, List.isSuffixOf?_eq_some_iff_append_eq.1 hentry⟩
  have hrest : call <:+ rest' := ⟨_, List.isPrefixOf?_eq_some_iff_append_eq.1 hcall⟩
  exact hclose.trans (hrest.trans ((suffix_of_field? hown).trans (suffix_of_field? hrule)))

theorem readBinding_hookLines {parser : Text} (h : line ∈ hookLines names) :
    readBinding parser names line = none := by
  have hsuffix : ¬ "(builder, level) \x7d".toList <:+ line := by
    simp only [hookLines, List.mem_cons, List.not_mem_nil, or_false] at h
    rcases h with rfl | rfl | rfl | rfl | rfl | rfl | rfl | rfl
    · exact not_suffix_of_last (c := '\x7d') (d := 't') (by decide)
        (last_indented (last_append (by decide) _) 2) (by decide)
    · exact not_suffix_of_last (c := '\x7d') (d := '\x7b') (by decide)
        (last_indented (last_append (by decide) _) 2) (by decide)
    · decide
    · exact not_suffix_of_last (c := '\x7d') (d := ')') (by decide)
        (last_indented (last_append (by decide) _) 4) (by decide)
    · exact not_suffix_of_last (c := '\x7d') (d := '\x7b') (by decide)
        (last_indented (last_append (by decide) _) 3) (by decide)
    · decide
    · decide
    · decide
  cases hread : readBinding parser names line with
  | none => rfl
  | some binding => exact absurd (suffix_of_readBinding hread) hsuffix

/-! The lines that open routines -/

theorem binding_head (parent : ParentBinding) :
    bindingHead parent = "  fun override".toList ++ (parent.parser.simpleName ++ "() \x7b".toList) := by
  have htext : "fun ".toList ++ parent.methodName ++ "() \x7b".toList =
      "fun override".toList ++ (parent.parser.simpleName ++ "() \x7b".toList) := by
    have hhead : "fun override".toList = "fun ".toList ++ "override".toList := by decide
    unfold ParentBinding.methodName
    simp only [hhead, List.append_assoc]
  have hhead : "  fun override".toList = List.replicate (2 * 1) ' ' ++ "fun override".toList := by
    decide
  rw [bindingHead, htext, indented_of_ne_nil (List.append_ne_nil_of_left_ne_nil (by decide) _), hhead,
    List.append_assoc]

theorem opensBinding_bindingHead (parent : ParentBinding) : opensBinding (bindingHead parent) = true := by
  rw [binding_head, opensBinding, Bool.and_eq_true, List.isPrefixOf_iff_prefix,
    List.isSuffixOf_iff_suffix]
  exact ⟨List.prefix_append _ _, (List.suffix_append _ _).trans (List.suffix_append _ _)⟩

theorem opensReset_bindingHead (parent : ParentBinding) : opensReset (bindingHead parent) = false := by
  apply decide_eq_false
  intro h
  have hprefix : "  fun override".toList <+: "  fun reset() \x7b".toList := by
    rw [← h, binding_head]
    exact List.prefix_append _ _
  exact absurd hprefix (by decide)

theorem readVariable_bindingHead (parent : ParentBinding) : readVariable (bindingHead parent) = none := by
  have hthird : (bindingHead parent)[2]? = some 'f' := by
    rw [binding_head]
    exact third_of_start (List.prefix_append _ _) (by decide)
  exact readVariable_of_third (by rw [hthird]; decide)

theorem readAccessor_bindingHead (parent : ParentBinding) : readAccessor (bindingHead parent) = none := by
  refine readAccessor_of_last (d := '\x7b') ?_ (by decide)
  exact last_indented (last_append (by decide) _) 1

theorem opensReset_accessor : opensReset (indented 1 (slotAccessor types slot)) = false := by
  apply decide_eq_false
  intro h
  have hlast := last_accessor types slot
  rw [h] at hlast
  exact absurd hlast (by decide)

theorem opensBinding_accessor : opensBinding (indented 1 (slotAccessor types slot)) = false := by
  have hsuffix : ¬ "() \x7b".toList <:+ indented 1 (slotAccessor types slot) :=
    not_suffix_of_last (c := '\x7b') (by decide) (last_accessor types slot) (by decide)
  rw [← List.isSuffixOf_iff_suffix, Bool.not_eq_true] at hsuffix
  rw [opensBinding, hsuffix, Bool.and_false]

end Lines

/-! The parts of the module -/

def Inner (text : Text) : Prop := text[2]? = none ∨ text[2]? = some ' '

instance decidableInner (line : Text) : Decidable (Inner line) := inferInstanceAs (Decidable (_ ∨ _))

theorem Inner.silent (h : Inner line) : Silent line := by
  apply Silent.of_plain
  · rcases h with h | h <;> simp [h]
  · rcases h with h | h <;> simp [h]

theorem Inner.ne_close (h : Inner line) : line ≠ "  \x7d".toList := by
  rintro rfl
  exact absurd h (by decide)

theorem silent_nil : Silent [] := Silent.of_plain (by decide) (by decide)

theorem silent_close : Silent "  \x7d".toList := Silent.of_plain (by decide) (by decide)

/-- A routine goes up to the line that closes it. -/
theorem routines_of_body {opens : Text → Bool} {head : Text} {body : List Text}
    (hbody : ∀ line ∈ body, Inner line)
    (hquiet : ∀ line, Silent line → opens line = false) :
    routines opens (head :: (body ++ "  \x7d".toList :: more)) =
      (if opens head then [body] else []) ++ routines opens more := by
  have hpass : ∀ line ∈ body, (line != "  \x7d".toList) = true :=
    fun line hl => bne_iff_ne.2 (hbody line hl).ne_close
  have hsilent : ∀ line ∈ body ++ ["  \x7d".toList], opens line = false := by
    rw [List.forall_mem_append]
    exact ⟨fun line hl => hquiet line (hbody line hl).silent, by simpa using hquiet _ silent_close⟩
  have hrest : routines opens (body ++ "  \x7d".toList :: more) = routines opens more := by
    rw [List.append_cons, routines_append hsilent]
  rw [routines, hrest, List.takeWhile_append_of_pos hpass]
  split <;> simp

theorem read_routine {head : Text} {body : List Text} (hdeclares : readVariable head = none)
    (haccesses : readAccessor head = none) (hbody : ∀ line ∈ body, Inner line) :
    read parser names? (head :: (body ++ "  \x7d".toList :: more)) =
      { read parser names? more with
        emptied := (if opensReset head then [body.filterMap readReset] else []) ++
          (read parser names? more).emptied
        bound := (if opensBinding head then
            [body.filterMap fun line => names?.bind (readBinding parser · line)] else []) ++
          (read parser names? more).bound } := by
  have hsilent : ∀ line ∈ body ++ ["  \x7d".toList], Silent line := by
    rw [List.forall_mem_append]
    exact ⟨fun line hl => (hbody line hl).silent, by simpa using silent_close⟩
  have hrest : read parser names? (body ++ "  \x7d".toList :: more) = read parser names? more := by
    rw [List.append_cons, read_append_of_silent hsilent]
  have hdeclared := congrArg Reading.declared hrest
  have haccessed := congrArg Reading.accessed hrest
  simp only [read] at hdeclared haccessed
  simp only [read, List.filterMap_cons_none hdeclares, List.filterMap_cons_none haccesses, hdeclared,
    haccessed, routines_of_body hbody fun _ h => h.resets, routines_of_body hbody fun _ h => h.binds,
    List.map_append, apply_ite (List.map _), List.map_cons, List.map_nil]

section Parts

variable {plan : Plan} {types : TypeNames} {names : BindingNames}

theorem inner_resetBody (h : line ∈ plan.resetBody types) : Inner line := by
  rcases List.mem_cons.1 h with rfl | h
  · exact third_indented 0 _
  · obtain ⟨slot, -, rfl⟩ := List.mem_map.1 h
    exact third_indented 0 _

theorem inner_bindingBody (h : line ∈ plan.bindingBody types names) : Inner line := by
  rcases List.mem_append.1 h with h | h
  · obtain ⟨slot, -, rfl⟩ := List.mem_map.1 h
    exact third_indented 0 _
  · simp only [hookLines, List.mem_cons, List.not_mem_nil, or_false] at h
    rcases h with rfl | rfl | rfl | rfl | rfl | rfl | rfl | rfl
    · exact third_indented 0 _
    · exact third_indented 0 _
    · exact third_indented 1 _
    · exact third_indented 2 _
    · exact third_indented 1 _
    · exact third_indented 2 _
    · exact third_indented 1 _
    · exact third_indented 0 _

theorem silent_openingLines (h : line ∈ plan.openingLines types) : Silent line := by
  simp only [openingLines, List.mem_cons, List.not_mem_nil, or_false] at h
  rcases h with rfl | rfl
  · have hthird : (indented 0 ("object ".toList ++ plan.module.simpleName ++ " : ".toList ++
        types.base ++ "() \x7b".toList))[2]? = some 'j' := by
      rw [indented_zero]
      exact third_append (third_append (third_append (third_append (by decide) _) _) _) _
    exact Silent.of_plain (by rw [hthird]; decide) (by rw [hthird]; decide)
  · -- the variable of the hook has a value
    refine Silent.of_third (readVariable_of_last (d := '\x7d') (last_indented ?_ 1) (by decide)) ?_
    · exact last_append (last_append (by decide) _) _
    · have hhead : ∀ rest : Text, ("var ".toList ++ rest).head? = some 'v' := fun rest =>
        head_append (by decide) rest
      simp only [third_indented_one, List.append_assoc, hhead]
      decide

theorem read_variables {slots : List SlotPlan}
    (h : ∀ slot ∈ slots, Token.isIdentifier slot.rule = true) :
    read parser names? ((slots.flatMap fun slot => [[], indented 1 (slotVariable types slot)]) ++ more) =
      { read parser names? more with
        declared := slots.map SlotPlan.rule ++ (read parser names? more).declared } := by
  induction slots with
  | nil => rfl
  | cons slot slots ih =>
    rw [List.forall_mem_cons] at h
    have hthird : (indented 1 (slotVariable types slot))[2]? ≠ some 'f' := by
      rw [third_variable]
      decide
    rw [List.flatMap_cons, List.append_assoc, List.cons_append, List.cons_append, List.nil_append,
      read_cons_of_silent silent_nil, read_cons_of_variable (readVariable_variable h.1) hthird, ih h.2,
      List.map_cons, List.cons_append]

theorem read_accessors {slots : List SlotPlan}
    (h : ∀ slot ∈ slots, Token.isIdentifier slot.rule = true) :
    read parser names? ((slots.flatMap fun slot =>
        [[], indented 1 ('@' :: types.jvmStatic), indented 1 (slotAccessor types slot)]) ++ more) =
      { read parser names? more with
        accessed := slots.map SlotPlan.rule ++ (read parser names? more).accessed } := by
  have hmark : Silent (indented 1 ('@' :: types.jvmStatic)) := by
    have hthird : (indented 1 ('@' :: types.jvmStatic))[2]? = some '@' := rfl
    exact Silent.of_plain (by rw [hthird]; decide) (by rw [hthird]; decide)
  induction slots with
  | nil => rfl
  | cons slot slots ih =>
    rw [List.forall_mem_cons] at h
    have hdeclares : readVariable (indented 1 (slotAccessor types slot)) = none := by
      apply readVariable_of_third
      rw [third_accessor]
      decide
    rw [List.flatMap_cons, List.append_assoc, List.cons_append, List.cons_append, List.cons_append,
      List.nil_append, read_cons_of_silent silent_nil, read_cons_of_silent hmark,
      read_cons_of_accessor (readAccessor_accessor h.1) hdeclares opensReset_accessor
        opensBinding_accessor, ih h.2, List.map_cons, List.cons_append]

theorem read_resetBody (h : ∀ slot ∈ plan.slots, Token.isIdentifier slot.rule = true) :
    (plan.resetBody types).filterMap readReset = plan.slotNames := by
  rw [resetBody, List.filterMap_cons_none (readReset_hook types), List.filterMap_map, slotNames,
    ← List.filterMap_eq_map]
  apply List.filterMap_congr
  intro slot hslot
  exact readReset_reset (h slot hslot)

def Binding.ofSlot (slot : SlotPlan) : Binding := ⟨slot.rule, slot.rule, slot.realEntry⟩

theorem read_bindingBody (h : ∀ slot ∈ plan.boundSlots, Token.isIdentifier slot.rule = true) :
    (plan.bindingBody types names).filterMap (readBinding types.parser names) =
      plan.boundSlots.map Binding.ofSlot := by
  have hhook : (hookLines names).filterMap (readBinding types.parser names) = [] :=
    List.filterMap_eq_nil_iff.2 fun _ => readBinding_hookLines
  rw [bindingBody, List.filterMap_append, hhook, List.append_nil, List.filterMap_map,
    ← List.filterMap_eq_map]
  apply List.filterMap_congr
  intro slot hslot
  exact readBinding_binding (h slot hslot)

theorem indented_close : indented 1 "\x7d".toList = "  \x7d".toList := by decide

theorem read_slotLines (h : ∀ slot ∈ plan.slots, Token.isIdentifier slot.rule = true) :
    read parser names? (plan.slotLines types ++ more) =
      { declared := plan.slotNames ++ (read parser names? more).declared
        accessed := plan.slotNames ++ (read parser names? more).accessed
        emptied := plan.slotNames :: (read parser names? more).emptied
        bound := (read parser names? more).bound } := by
  have hhead : readVariable (indented 1 "fun reset() \x7b".toList) = none ∧
      readAccessor (indented 1 "fun reset() \x7b".toList) = none ∧
      opensReset (indented 1 "fun reset() \x7b".toList) = true ∧
      opensBinding (indented 1 "fun reset() \x7b".toList) = false := by decide
  obtain ⟨hdeclares, haccesses, hresets, hbinds⟩ := hhead
  rw [slotLines, indented_close]
  simp only [List.append_assoc, List.cons_append, List.nil_append]
  rw [read_append_of_silent fun _ => silent_openingLines, variableLines, read_variables h,
    accessorLines, read_accessors h, read_cons_of_silent silent_nil,
    read_routine hdeclares haccesses fun _ => inner_resetBody, hresets, hbinds, read_resetBody h]
  rfl

theorem read_bindingLines (parent : ParentBinding)
    (h : ∀ slot ∈ plan.boundSlots, Token.isIdentifier slot.rule = true) :
    read types.parser (some names) (plan.bindingLines parent types names ++ more) =
      { read types.parser (some names) more with
        bound := plan.boundSlots.map Binding.ofSlot ::
          (read types.parser (some names) more).bound } := by
  rw [bindingLines, indented_close]
  simp only [List.append_assoc, List.cons_append, List.nil_append]
  rw [read_cons_of_silent silent_nil, read_routine (readVariable_bindingHead parent)
    (readAccessor_bindingHead parent) fun _ => inner_bindingBody, opensReset_bindingHead,
    opensBinding_bindingHead, ← read_bindingBody h]
  rfl

/-- The lines of a module tell the slots of its plan, whatever stands around them. -/
theorem read_moduleLines {before after : List Text}
    (h : ∀ slot ∈ plan.slots, Token.isIdentifier slot.rule = true)
    (hbefore : ∀ line ∈ before, Silent line) (hafter : ∀ line ∈ after, Silent line) :
    read plan.typeTexts.parser (plan.parent.map plan.bindingTexts)
        (before ++ plan.moduleLines ++ after) =
      { declared := plan.slotNames
        accessed := plan.slotNames
        emptied := [plan.slotNames]
        bound := plan.parent.toList.map fun _ => plan.boundSlots.map Binding.ofSlot } := by
  have hend : ∀ (parser : Text) (names? : Option BindingNames),
      read parser names? (indented 0 "\x7d".toList :: after) = ⟨[], [], [], []⟩ := by
    intro parser names?
    rw [read_cons_of_silent (Silent.of_plain (by decide) (by decide)), ← List.append_nil after,
      read_append_of_silent hafter]
    rfl
  have hbound : ∀ slot ∈ plan.boundSlots, Token.isIdentifier slot.rule = true :=
    fun slot hslot => h slot (mem_slots_of_mem_boundSlots hslot)
  rw [List.append_assoc, read_append_of_silent hbefore, moduleLines]
  simp only [List.append_assoc, List.singleton_append]
  rw [read_slotLines h]
  cases plan.parent with
  | none =>
    simp only [Option.toList_none, List.flatMap_nil, List.nil_append, hend, List.append_nil,
      List.map_nil]
  | some parent =>
    simp only [Option.toList_some, List.flatMap_singleton, Option.map_some,
      read_bindingLines parent hbound, hend, List.append_nil, List.map_cons, List.map_nil]

end Parts

end ModuleText
end OpenGrammar
