import OpenGrammar.Proofs.Lines
import OpenGrammar.Source

/-! What a scan declares. The rules of a scanned source have exactly the names that its
lines open, and each name is a trimmed text on one line that holds no separator. -/
namespace OpenGrammar
namespace Text

/-! Trimming -/

theorem trimStart_of_head {t : Text} (h : ∀ c ∈ t.head?, isBlank c = false) : trimStart t = t := by
  cases t with
  | nil => rfl
  | cons c cs => simp [trimStart, h c rfl]

theorem trimEnd_of_last {t : Text} (h : ∀ c ∈ t.getLast?, isBlank c = false) : trimEnd t = t := by
  have hr : trimStart t.reverse = t.reverse := trimStart_of_head (by simpa using h)
  rw [trimEnd, ← trimStart, hr, List.reverse_reverse]

theorem trimEnd_append_blank (t : Text) {c : Char} (h : isBlank c = true) :
    trimEnd (t ++ [c]) = trimEnd t := by
  simp [trimEnd, h]

theorem trimStart_suffix (t : Text) : trimStart t <:+ t := List.dropWhile_suffix _

theorem trimEnd_prefix_self (t : Text) : trimEnd t <+: t := by
  have h : t.reverse.dropWhile isBlank <:+ t.reverse := List.dropWhile_suffix isBlank
  rw [← List.reverse_prefix, List.reverse_reverse] at h
  exact h

theorem trim_infix (t : Text) : trim t <:+: t :=
  (trimEnd_prefix_self _).isInfix.trans (trimStart_suffix t).isInfix

theorem head_trimStart {t : Text} {c : Char} (h : c ∈ (trimStart t).head?) : isBlank c = false := by
  have hd := List.head?_dropWhile_not isBlank t
  rw [← trimStart, Option.mem_def.1 h] at hd
  exact hd

theorem last_trimEnd {t : Text} {c : Char} (h : c ∈ (trimEnd t).getLast?) : isBlank c = false := by
  rw [trimEnd, List.getLast?_reverse] at h
  exact head_trimStart h

theorem head_trim {t : Text} {c : Char} (h : c ∈ (trim t).head?) : isBlank c = false := by
  obtain ⟨rest, hr⟩ := trimEnd_prefix_self (trimStart t)
  refine @head_trimStart t c ?_
  rw [← hr, List.head?_append, Option.mem_def, show (trimEnd (trimStart t)).head? = some c from h]
  rfl

theorem trim_append_blank {t : Text} {c : Char} (hh : ∀ d ∈ t.head?, isBlank d = false)
    (hl : ∀ d ∈ t.getLast?, isBlank d = false) (hc : isBlank c = true) : trim (t ++ [c]) = t := by
  cases t with
  | nil => simp [trim, trimStart, trimEnd, hc]
  | cons d ds =>
    rw [trim, trimStart_of_head (by simpa using hh), trimEnd_append_blank _ hc, trimEnd_of_last hl]

end Text

/-- A text stands where it occurs first. -/
theorem Text.eraseDups_concat (items : List Text) (item : Text) :
    (items ++ [item]).eraseDups = items.eraseDups ++ if item ∈ items then [] else [item] := by
  rw [List.eraseDups_append]
  by_cases h : item ∈ items <;> simp [List.removeAll, h, List.eraseDups_cons]

namespace RuleTable

theorem names_insert (table : RuleTable) (name body : Text) :
    (table.insert name body).names = table.names ++ if name ∈ table.names then [] else [name] := by
  unfold insert
  split
  · rename_i h
    rw [names, map_name_replace, if_pos (show name ∈ table.names from h), List.append_nil]
    rfl
  · rename_i h
    rw [names, List.map_append, if_neg (show name ∉ table.names from h)]
    rfl

theorem mem_names_insert {table : RuleTable} {name body other : Text} :
    other ∈ (table.insert name body).names ↔ other = name ∨ other ∈ table.names := by
  rw [names_insert]
  split
  · rename_i h
    rw [List.append_nil]
    exact ⟨Or.inr, fun ho => ho.elim (fun he => he ▸ h) id⟩
  · rw [List.mem_append, List.mem_singleton, or_comm]

end RuleTable

namespace Source

def Opens (line name : Text) : Prop :=
  ∃ before after, Text.cut? separator line = some (before, after) ∧ name = Text.trim before

namespace Progress

/-- The name has a rule, or is that of the rule still being read. -/
def Declares (p : Progress) (name : Text) : Prop :=
  name ∈ p.rules.names ∨ p.current = some name

theorem mem_names_close_iff {p : Progress} {name : Text} :
    name ∈ p.close.rules.names ↔ p.Declares name := by
  unfold close Declares
  cases hc : p.current with
  | none => simp
  | some current =>
    simp only [RuleTable.mem_names_insert, Option.some.injEq, eq_comm, or_comm]

theorem declare_declares_iff {p : Progress} {name body other : Text} :
    (p.declare name body).Declares other ↔ p.Declares other ∨ other = name := by
  unfold declare
  cases hc : p.current with
  | none => simp [Declares, hc, eq_comm]
  | some current =>
    rw [← mem_names_close_iff (p := p)]
    simp [Declares, eq_comm]

theorem extend_declares_iff {p : Progress} {line name : Text} :
    (p.extend line).Declares name ↔ p.Declares name := by
  unfold extend
  split <;> rfl

theorem step_declares_iff {p : Progress} {line name : Text} :
    (p.step line).Declares name ↔ p.Declares name ∨ Opens line name := by
  unfold step Opens
  cases hc : Text.cut? separator line with
  | none => simp [extend_declares_iff]
  | some cut => simp [declare_declares_iff, Prod.ext_iff]

theorem run_declares_iff (lines : List Text) {p : Progress} {name : Text} :
    (lines.foldl step p).Declares name ↔ p.Declares name ∨ ∃ line ∈ lines, Opens line name := by
  induction lines generalizing p with
  | nil => simp
  | cons line lines ih => simp [ih, step_declares_iff, or_assoc]

/-- A scan knows its first rule as soon as any is declared, and declares that rule. -/
structure KnowsFirst (p : Progress) : Prop where
  isSome : ∀ name, p.Declares name → p.firstRule.isSome
  declares : ∀ name, p.firstRule = some name → p.Declares name

theorem declare_knowsFirst {p : Progress} (h : p.KnowsFirst) (name body : Text) :
    (p.declare name body).KnowsFirst := by
  cases hc : p.current with
  | none =>
    have hf : (p.declare name body).firstRule = some name := by simp [declare, hc]
    constructor
    · intro other _
      simp [hf]
    · intro other ho
      rw [hf, Option.some.injEq] at ho
      exact declare_declares_iff.2 (Or.inr ho.symm)
  | some current =>
    have hf : (p.declare name body).firstRule = p.firstRule := by simp [declare, close, hc]
    constructor
    · intro other _
      rw [hf]
      exact h.isSome current (Or.inr hc)
    · intro other ho
      rw [hf] at ho
      exact declare_declares_iff.2 (Or.inl (h.declares other ho))

theorem step_knowsFirst {p : Progress} (h : p.KnowsFirst) (line : Text) : (p.step line).KnowsFirst := by
  unfold step
  split
  · exact declare_knowsFirst h _ _
  · have hf : (p.extend line).firstRule = p.firstRule := by
      unfold extend
      split <;> rfl
    constructor
    · intro name hd
      rw [hf]
      exact h.isSome name (extend_declares_iff.1 hd)
    · intro name hn
      rw [hf] at hn
      exact extend_declares_iff.2 (h.declares name hn)

theorem run_knowsFirst (lines : List Text) {p : Progress} (h : p.KnowsFirst) :
    (lines.foldl step p).KnowsFirst := by
  induction lines generalizing p with
  | nil => exact h
  | cons line lines ih => exact ih (step_knowsFirst h line)

theorem not_declares_start (name : Text) : ¬ Declares {} name := by
  simp [Declares, RuleTable.empty, RuleTable.names]

theorem knowsFirst_start : KnowsFirst {} where
  isSome name h := absurd h (not_declares_start name)
  declares name h := by simp at h

end Progress

def lastProgress (text : Text) : Progress := (Text.lines text).foldl Progress.step {}

theorem lastProgress_declares_iff {text name : Text} :
    (lastProgress text).Declares name ↔ ∃ line ∈ Text.lines text, Opens line name := by
  rw [lastProgress, Progress.run_declares_iff]
  simp [Progress.not_declares_start]

theorem scan_eq_ok_iff {text : Text} {path : Option Text} {source : Source} :
    scan text path = .ok source ↔
      ∃ first, (lastProgress text).firstRule = some first ∧
        source = ⟨(lastProgress text).close.header, (lastProgress text).close.rules, first,
          (lastProgress text).close.duplicates⟩ := by
  simp only [scan, lastProgress]
  cases (List.foldl Progress.step {} (Text.lines text)).firstRule with
  | none => simp
  | some first => simp [eq_comm]

/-- The rules of a source have the names that the lines of the text open. -/
theorem mem_names_iff_of_scan {text : Text} {path : Option Text} {source : Source}
    (h : scan text path = .ok source) {name : Text} :
    name ∈ source.rules.names ↔ ∃ line ∈ Text.lines text, Opens line name := by
  obtain ⟨first, -, rfl⟩ := scan_eq_ok_iff.1 h
  rw [Progress.mem_names_close_iff, lastProgress_declares_iff]

theorem firstRule_mem_of_scan {text : Text} {path : Option Text} {source : Source}
    (h : scan text path = .ok source) : source.firstRule ∈ source.rules.names := by
  obtain ⟨first, hf, rfl⟩ := scan_eq_ok_iff.1 h
  have hk := Progress.run_knowsFirst (Text.lines text) Progress.knowsFirst_start
  exact Progress.mem_names_close_iff.2 (hk.declares first hf)

theorem exists_scan_of_opens {text line name : Text} (path : Option Text)
    (hl : line ∈ Text.lines text) (ho : Opens line name) :
    ∃ source, scan text path = .ok source ∧ name ∈ source.rules.names := by
  have hk := Progress.run_knowsFirst (Text.lines text) Progress.knowsFirst_start
  have hd : (lastProgress text).Declares name := lastProgress_declares_iff.2 ⟨line, hl, ho⟩
  obtain ⟨first, hf⟩ := Option.isSome_iff_exists.1 (hk.isSome name hd)
  obtain ⟨source, hs⟩ : ∃ source, scan text path = .ok source :=
    ⟨_, scan_eq_ok_iff.2 ⟨first, hf, rfl⟩⟩
  exact ⟨source, hs, (mem_names_iff_of_scan hs).2 ⟨line, hl, ho⟩⟩

/-- What a rule name is: a trimmed text on one line that holds no separator. -/
structure IsName (name : Text) : Prop where
  oneLine : '\n' ∉ name
  free : ¬ separator <:+: name
  head : ∀ c ∈ name.head?, Text.isBlank c = false
  last : ∀ c ∈ name.getLast?, Text.isBlank c = false

theorem isName_of_cut? {line before after : Text} (hn : '\n' ∉ line)
    (hc : Text.cut? separator line = some (before, after)) : IsName (Text.trim before) := by
  obtain ⟨he, hf⟩ := Text.cut?_eq_some hc
  have hi : Text.trim before <:+: before := Text.trim_infix before
  refine ⟨fun hm => hn ?_, fun hm => hf (by decide) (hm.trans hi), fun c => Text.head_trim,
    fun c => Text.last_trimEnd⟩
  rw [he]
  simp [hi.subset hm]

theorem isName_of_opens {text line name : Text} (hl : line ∈ Text.lines text)
    (h : Opens line name) : IsName name := by
  obtain ⟨before, after, hc, rfl⟩ := h
  exact isName_of_cut? (Text.newline_not_mem_of_mem_lines hl) hc

theorem isName_of_scan {text : Text} {path : Option Text} {source : Source}
    (h : scan text path = .ok source) {rule : Rule} (hr : rule ∈ source.rules.rules) :
    IsName rule.name := by
  have hn : rule.name ∈ source.rules.names := List.mem_map_of_mem hr
  obtain ⟨line, hl, ho⟩ := (mem_names_iff_of_scan h).1 hn
  exact isName_of_opens hl ho

theorem cut?_of_isName {name : Text} (h : IsName name) (rest : Text) :
    Text.cut? separator (name ++ " ::= ".toList ++ rest) = some (name ++ [' '], ' ' :: rest) := by
  have hfree : ¬ separator <:+: (name ++ [' ']) ++ separator.dropLast := by
    rw [List.append_assoc, List.singleton_append, Text.infix_append_cons_iff (by decide)]
    rintro (hm | hm)
    · exact h.free hm
    · exact absurd hm (by decide)
  rw [← Text.cut?_append (' ' :: rest) (by decide) hfree]
  simp [separator]

theorem trim_of_isName {name : Text} (h : IsName name) : Text.trim (name ++ [' ']) = name :=
  Text.trim_append_blank h.head h.last (by decide)

theorem opens_append {name : Text} (h : IsName name) (rest : Text) :
    Opens (name ++ " ::= ".toList ++ rest) name :=
  ⟨name ++ [' '], ' ' :: rest, cut?_of_isName h rest, (trim_of_isName h).symm⟩

end Source
end OpenGrammar
