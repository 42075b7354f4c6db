import Mathlib.Data.List.TakeWhile
import OpenGrammar.Proofs.Scanning

/-! Printed grammars. What a scan has read can be written out again, each rule on lines of
its own, and a scan of that text gives the same header and the same rules. -/
namespace OpenGrammar

def Rule.print (rule : Rule) : Text := rule.name ++ " ::= ".toList ++ rule.body ++ ['\n']

theorem RuleTable.eq_of_rules {table other : RuleTable} (h : table.rules = other.rules) :
    table = other := by
  cases table
  cases other
  cases h
  rfl

namespace Source

def printHeader : Option Text → Text
  | some header => header ++ ['\n']
  | none => []

def print (source : Source) : Text :=
  printHeader source.header ++ (source.rules.rules.map Rule.print).flatten

/-! Texts that open no rule -/

/-- No line of the text opens a rule, and each ends where its line feed stands. -/
structure Inert (t : Text) : Prop where
  free : ¬ separator <:+: t
  unreturned : '\r' ∉ t

theorem inert_nil : Inert [] := ⟨by decide, by simp⟩

theorem Inert.of_infix {t u : Text} (h : Inert t) (hu : u <:+: t) : Inert u :=
  ⟨fun hs => h.free (hs.trans hu), fun hr => h.unreturned (hu.subset hr)⟩

theorem Inert.append_newline {a b : Text} (ha : Inert a) (hb : Inert b) :
    Inert (a ++ '\n' :: b) := by
  constructor
  · rw [Text.infix_append_cons_iff (by decide)]
    rintro (hs | hs)
    · exact ha.free hs
    · exact hb.free hs
  · simp [ha.unreturned, hb.unreturned]

theorem cut?_of_free {line : Text} (h : ¬ separator <:+: line) :
    Text.cut? separator line = none := by
  cases hc : Text.cut? separator line with
  | none => rfl
  | some cut =>
    have he := (Text.cut?_eq_some hc).1
    exact absurd (he ▸ List.infix_append _ _ _) h

theorem free_of_cut?_eq_none {line : Text} (h : Text.cut? separator line = none) :
    ¬ separator <:+: line := by
  induction line with
  | nil => decide
  | cons c line ih =>
    simp only [Text.cut?] at h
    split at h
    · cases h
    · rename_i hprefix
      rw [List.infix_cons_iff, not_or]
      exact ⟨Text.isPrefixOf?_eq_none_iff.1 hprefix, ih (Option.map_eq_none_iff.1 h)⟩

theorem chopLineEnd_of_unreturned {line : Text} (h : '\r' ∉ line) :
    Text.chopLineEnd (line ++ ['\n']) = line := by
  rcases Text.chopLineEnd_append_newline line with hc | hc
  · exact hc
  · rw [hc] at h
    simp at h

theorem lines_of_unreturned {line : Text} (rest : Text) (hn : '\n' ∉ line) (hr : '\r' ∉ line) :
    Text.lines (line ++ '\n' :: rest) = line :: Text.lines rest := by
  rw [Text.lines_of_not_mem rest hn, chopLineEnd_of_unreturned hr]

namespace Progress

variable {p : Progress}

theorem step_of_free {line : Text} (h : ¬ separator <:+: line) : p.step line = p.extend line := by
  rw [step, cut?_of_free h]

/-- Behind an open text the lines of an inert text are appended to it. -/
theorem run_inert {t : Text} (h : Inert t) (hopen : p.current.isSome ∨ p.openText ≠ []) :
    (Text.lines (t ++ ['\n'])).foldl step p = { p with openText := p.openText ++ '\n' :: t } := by
  induction hlen : t.length using Nat.strongRecOn generalizing t p with
  | ind n ih =>
    rcases Text.exists_newline_split t with hn | ⟨first, rest, hn, rfl⟩
    · have hstep : p.step t = { p with openText := p.openText ++ '\n' :: t } := by
        rw [step_of_free h.free, extend, if_pos hopen]
      rw [lines_of_unreturned [] hn h.unreturned]
      exact hstep
    · have hfirst : Inert first := h.of_infix (List.prefix_append _ _).isInfix
      have hrest : Inert rest :=
        h.of_infix ((List.suffix_cons _ _).isInfix.trans (List.suffix_append _ _).isInfix)
      have hstep : p.step first = { p with openText := p.openText ++ '\n' :: first } := by
        rw [step_of_free hfirst.free, extend, if_pos hopen]
      have hlt : rest.length < n := by
        rw [← hlen]
        simp
        omega
      rw [List.append_assoc, List.cons_append, lines_of_unreturned _ hn hfirst.unreturned,
        List.foldl_cons, hstep, ih rest.length hlt hrest (Or.inr (by simp)) rfl]
      simp

theorem run_header {header : Text} (h : Inert header) (hhead : header.head? = some '{') :
    (Text.lines (header ++ ['\n'])).foldl step {} = { openText := header } := by
  have hstart : ∀ first : Text, ¬ separator <:+: first →
      step {} first = { openText := first } := by
    intro first hfree
    rw [step_of_free hfree]
    rfl
  rcases Text.exists_newline_split header with hn | ⟨first, rest, hn, rfl⟩
  · rw [lines_of_unreturned [] hn h.unreturned]
    exact hstart header h.free
  · have hfirst : Inert first := h.of_infix (List.prefix_append _ _).isInfix
    have hrest : Inert rest :=
      h.of_infix ((List.suffix_cons _ _).isInfix.trans (List.suffix_append _ _).isInfix)
    have hne : first ≠ [] := by
      rintro rfl
      simp at hhead
    rw [List.append_assoc, List.cons_append, lines_of_unreturned _ hn hfirst.unreturned,
      List.foldl_cons, hstart first hfirst.free, run_inert hrest (Or.inr hne)]

end Progress

/-! Bodies -/

/-- What a body is: it does not start with a space or a tab, and no line but its first can
hold a separator. -/
structure IsBody (body : Text) : Prop where
  head : ∀ c ∈ body.head?, (c == ' ' || c == '\t') = false
  unreturned : '\r' ∉ body
  free : ¬ separator <:+: body.dropWhile (· != '\n')

theorem IsBody.extend {body line : Text} (h : IsBody body) (hl : Inert line) :
    IsBody (body ++ '\n' :: line) := by
  refine ⟨?_, ?_, ?_⟩
  · cases body with
    | nil => simp
    | cons c body => exact h.head
  · simp [h.unreturned, hl.unreturned]
  · have hfree : ¬ separator <:+: '\n' :: line := by
      rw [Text.infix_cons_iff_of_not_mem (by decide) (by decide)]
      exact hl.free
    rw [List.dropWhile_append]
    split
    · simpa using hfree
    · rw [Text.infix_append_cons_iff (by decide)]
      rintro (hs | hs)
      · exact h.free hs
      · exact hl.free hs

theorem IsBody.inert_of_split {first rest : Text} (h : IsBody (first ++ '\n' :: rest))
    (hn : '\n' ∉ first) : Inert rest := by
  have hdrop : (first ++ '\n' :: rest).dropWhile (· != '\n') = '\n' :: rest := by
    rw [List.dropWhile_append_of_pos]
    · simp
    · intro c hc
      have hne : c ≠ '\n' := fun he => hn (he ▸ hc)
      simpa using hne
  have hfree := h.free
  rw [hdrop, Text.infix_cons_iff_of_not_mem (by decide) (by decide)] at hfree
  have hr := h.unreturned
  simp only [List.mem_append, List.mem_cons, not_or] at hr
  exact ⟨hfree, hr.2.2⟩

theorem isBody_of_cut? {line before after : Text} (hn : '\n' ∉ line) (hr : '\r' ∉ line)
    (hc : Text.cut? separator line = some (before, after)) :
    IsBody (after.dropWhile fun c => c == ' ' || c == '\t') := by
  have hsuffix : (after.dropWhile fun c => c == ' ' || c == '\t') <:+ line := by
    rw [(Text.cut?_eq_some hc).1]
    exact (List.dropWhile_suffix _).trans (List.suffix_append _ _)
  refine ⟨?_, fun hm => hr (hsuffix.subset hm), ?_⟩
  · intro c hm
    have hd := List.head?_dropWhile_not (fun c => c == ' ' || c == '\t') after
    rw [Option.mem_def.1 hm] at hd
    simpa using hd
  · have hdrop : (after.dropWhile fun c => c == ' ' || c == '\t').dropWhile (· != '\n') = [] := by
      refine List.dropWhile_eq_nil_iff.2 fun c hm => ?_
      have hne : c ≠ '\n' := fun he => hn (hsuffix.subset (he ▸ hm))
      simpa using hne
    rw [hdrop]
    decide

structure IsRule (rule : Rule) : Prop where
  name : IsName rule.name
  unreturned : '\r' ∉ rule.name
  body : IsBody rule.body

/-- The lines of a printed rule declare it. -/
theorem Progress.run_rule {p : Progress} {rule : Rule} (h : IsRule rule) :
    (Text.lines rule.print).foldl step p = p.declare rule.name rule.body := by
  obtain ⟨hname, hr, hbody⟩ := h
  -- The head line is cut behind the name, and what follows the separator there is trimmed.
  have hhead : ∀ first : Text, (∀ c ∈ first.head?, (c == ' ' || c == '\t') = false) →
      p.step (rule.name ++ " ::= ".toList ++ first) = p.declare rule.name first := by
    intro first hfirst
    have hdrop : (' ' :: first).dropWhile (fun c => c == ' ' || c == '\t') = first := by
      cases first with
      | nil => rfl
      | cons c first => simp [hfirst c rfl]
    rw [step, cut?_of_isName hname]
    simp only [hdrop, trim_of_isName hname]
  rcases Text.exists_newline_split rule.body with hn | ⟨first, rest, hn, hsplit⟩
  · have hline : Text.lines rule.print = [rule.name ++ " ::= ".toList ++ rule.body] := by
      refine lines_of_unreturned [] ?_ ?_
      · simp [hname.oneLine, hn]
      · simp [hr, hbody.unreturned]
    rw [hline]
    exact hhead rule.body hbody.head
  · have hrest : Inert rest := by
      refine IsBody.inert_of_split ?_ hn
      rw [← hsplit]
      exact hbody
    have hfirst : ∀ c ∈ first.head?, (c == ' ' || c == '\t') = false := by
      cases first with
      | nil => simp
      | cons c first =>
        intro d hd
        exact hbody.head d (by rw [hsplit]; exact hd)
    have hfirstReturn : '\r' ∉ first := by
      have hbr := hbody.unreturned
      rw [hsplit, List.mem_append, not_or] at hbr
      exact hbr.1
    have hprint : rule.print =
        (rule.name ++ " ::= ".toList ++ first) ++ '\n' :: (rest ++ ['\n']) := by
      simp [Rule.print, hsplit]
    have hline : Text.lines rule.print =
        (rule.name ++ " ::= ".toList ++ first) :: Text.lines (rest ++ ['\n']) := by
      rw [hprint]
      refine lines_of_unreturned _ ?_ ?_
      · simp [hname.oneLine, hn]
      · simp [hr, hfirstReturn]
    have hopen : (p.declare rule.name first).current.isSome := by
      cases hc : p.current <;> simp [declare, hc]
    rw [hline, List.foldl_cons, hhead first hfirst, run_inert hrest (Or.inl hopen), hsplit]
    cases hc : p.current <;> simp [declare, hc]

/-! What a scan keeps -/

namespace Progress

/-- All that was read so far can be printed, and the rule that comes first in the table is
the one that was declared first. -/
structure Printable (p : Progress) : Prop where
  rules : ∀ rule ∈ p.rules.rules, IsRule rule
  current : ∀ name ∈ p.current, IsRule ⟨name, p.openText⟩
  before : p.current = none → Inert p.openText ∧ p.rules.rules = []
  header : ∀ header ∈ p.header, Inert header ∧ header.head? = some '{'
  first : p.firstRule = (p.rules.names ++ p.current.toList).head?

end Progress

theorem mem_rules_insert {table : RuleTable} {name body : Text} {rule : Rule}
    (h : rule ∈ (table.insert name body).rules) :
    rule ∈ table.rules ∨ rule = ⟨name, body⟩ := by
  unfold RuleTable.insert at h
  split at h
  · obtain ⟨other, hmem, rfl⟩ := List.mem_map.1 h
    split
    · rename_i hname
      right
      rw [hname]
    · left
      exact hmem
  · simpa using h

theorem head?_names_insert (table : RuleTable) (name body : Text) :
    (table.insert name body).names.head? = (table.names ++ [name]).head? := by
  rw [RuleTable.names_insert]
  split
  · rename_i h
    have hne : table.names ≠ [] := List.ne_nil_of_mem h
    rw [List.append_nil, List.head?_append_of_ne_nil _ hne]
  · rfl

namespace Progress

variable {p : Progress}

theorem printable_start : Printable {} where
  rules := by simp [RuleTable.empty]
  current := by simp
  before _ := ⟨inert_nil, rfl⟩
  header := by simp
  first := rfl

theorem Printable.extend {line : Text} (h : p.Printable) (hl : Inert line) :
    (p.extend line).Printable := by
  unfold Progress.extend
  split
  · refine ⟨h.rules, fun name hname => ?_, fun hnone => ?_, h.header, h.first⟩
    · obtain ⟨hn, hr, hb⟩ := h.current name hname
      exact ⟨hn, hr, hb.extend hl⟩
    · obtain ⟨hopen, hrules⟩ := h.before hnone
      exact ⟨hopen.append_newline hl, hrules⟩
  · rename_i hopen
    rw [not_or] at hopen
    refine ⟨h.rules, fun name hname => ?_, fun hnone => ⟨hl, (h.before hnone).2⟩, h.header,
      h.first⟩
    rw [Option.mem_def.1 hname] at hopen
    exact absurd rfl hopen.1

theorem fromBrace?_eq_some {t header : Text} (h : fromBrace? t = some header) :
    header <:+ t ∧ header.head? = some '{' := by
  have hheader : t.dropWhile (· != '{') = header := by
    unfold fromBrace? at h
    split at h
    · cases h
    · exact Option.some.inj h
  have hne : header ≠ [] := by
    rintro rfl
    simp [fromBrace?, hheader] at h
  have hd := List.head?_dropWhile_not (· != '{') t
  rw [hheader] at hd
  refine ⟨hheader ▸ List.dropWhile_suffix _, ?_⟩
  cases header with
  | nil => exact absurd rfl hne
  | cons c header => simpa using hd

theorem Printable.closed (h : p.Printable) :
    (∀ rule ∈ p.close.rules.rules, IsRule rule) ∧
      (∀ header ∈ p.close.header, Inert header ∧ header.head? = some '{') ∧
      p.firstRule = p.close.rules.names.head? := by
  have hfirst := h.first
  cases hc : p.current with
  | none =>
    simp only [close, hc, Option.toList_none, List.append_nil] at hfirst ⊢
    exact ⟨h.rules, h.header, hfirst⟩
  | some current =>
    simp only [close, hc, Option.toList_some] at hfirst ⊢
    refine ⟨fun rule hrule => ?_, h.header, ?_⟩
    · rcases mem_rules_insert hrule with hold | rfl
      · exact h.rules rule hold
      · exact h.current current hc
    · rw [hfirst, head?_names_insert]

theorem Printable.declare {name body : Text} (h : p.Printable) (hrule : IsRule ⟨name, body⟩) :
    (p.declare name body).Printable := by
  unfold Progress.declare
  cases hc : p.current with
  | none =>
    obtain ⟨hopen, hrules⟩ := h.before hc
    refine ⟨h.rules, ?_, by simp, ?_, by simp [RuleTable.names, hrules]⟩
    · rintro _ ⟨⟩
      exact hrule
    · intro header hheader
      obtain ⟨hsuffix, hbrace⟩ := fromBrace?_eq_some hheader
      exact ⟨hopen.of_infix hsuffix.isInfix, hbrace⟩
  | some current =>
    obtain ⟨hrules, hheader, hfirst⟩ := h.closed
    have hne : p.close.rules.names ≠ [] :=
      List.ne_nil_of_mem (mem_names_close_iff.2 (Or.inr hc))
    have hkept : p.close.firstRule = p.firstRule := by simp [close, hc]
    refine ⟨hrules, ?_, by simp, hheader, ?_⟩
    · rintro _ ⟨⟩
      exact hrule
    · rw [List.head?_append_of_ne_nil _ hne, ← hfirst]
      exact hkept

theorem Printable.step {line : Text} (h : p.Printable) (hn : '\n' ∉ line) (hr : '\r' ∉ line) :
    (p.step line).Printable := by
  unfold Progress.step
  split
  · rename_i before after hc
    have hbefore : Text.trim before <:+: line := by
      rw [(Text.cut?_eq_some hc).1, List.append_assoc]
      exact (Text.trim_infix before).trans (List.prefix_append _ _).isInfix
    exact h.declare ⟨isName_of_cut? hn hc, fun hm => hr (hbefore.subset hm),
      isBody_of_cut? hn hr hc⟩
  · rename_i hc
    exact h.extend ⟨free_of_cut?_eq_none hc, hr⟩

theorem Printable.run {lines : List Text} (h : p.Printable)
    (hl : ∀ line ∈ lines, '\n' ∉ line ∧ '\r' ∉ line) : (lines.foldl Progress.step p).Printable := by
  induction lines generalizing p with
  | nil => exact h
  | cons line lines ih =>
    obtain ⟨hn, hr⟩ := hl line (by simp)
    exact ih (h.step hn hr) fun other ho => hl other (List.mem_cons_of_mem _ ho)

theorem printable_lastProgress {text : Text} (h : '\r' ∉ text) : (lastProgress text).Printable :=
  printable_start.run fun _ hl => ⟨Text.newline_not_mem_of_mem_lines hl,
    fun hr => h ((Text.infix_of_mem_lines hl).subset hr)⟩

/-! Reading a printed grammar -/

theorem close_of_fresh {name : Text} (hc : p.current = some name) (h : name ∉ p.rules.names) :
    p.close.rules.rules = p.rules.rules ++ [⟨name, p.openText⟩] ∧
      p.close.duplicates = p.duplicates := by
  have hfresh : p.rules.contains name = false := by simpa [RuleTable.contains] using h
  simp only [close, hc, hfresh, Bool.false_eq_true, if_false, and_true]
  rw [RuleTable.insert, dif_neg (show name ∉ p.rules.rules.map Rule.name from h)]

theorem close_foldl_declare {rules : List Rule} {name : Text} (hc : p.current = some name)
    (hnodup : (p.rules.names ++ name :: rules.map Rule.name).Nodup) :
    let last := rules.foldl (fun p rule => p.declare rule.name rule.body) p
    last.close.rules.rules = p.rules.rules ++ ⟨name, p.openText⟩ :: rules ∧
      last.close.duplicates = p.duplicates ∧ last.close.header = p.header ∧
      last.firstRule = p.firstRule := by
  induction rules generalizing p name with
  | nil =>
    have hfresh : name ∉ p.rules.names := by
      rw [List.nodup_append] at hnodup
      exact fun hm => hnodup.2.2 name hm name (by simp) rfl
    obtain ⟨hrules, hduplicates⟩ := close_of_fresh hc hfresh
    exact ⟨hrules, hduplicates, by simp [close, hc], rfl⟩
  | cons rule rules ih =>
    have hfresh : name ∉ p.rules.names := by
      rw [List.nodup_append] at hnodup
      exact fun hm => hnodup.2.2 name hm name (by simp) rfl
    obtain ⟨hrules, hduplicates⟩ := close_of_fresh hc hfresh
    have hdeclare : p.declare rule.name rule.body =
        { p.close with current := some rule.name, openText := rule.body } := by
      simp [declare, hc]
    have hkept : p.close.header = p.header ∧ p.close.firstRule = p.firstRule := by
      simp [close, hc]
    have hnext : (p.close.rules.names ++ rule.name :: rules.map Rule.name).Nodup := by
      simpa [RuleTable.names, hrules] using hnodup
    rw [List.foldl_cons, hdeclare]
    have hlast := ih (p := { p.close with current := some rule.name, openText := rule.body })
      rfl hnext
    simpa [hrules, hduplicates, hkept] using hlast

theorem run_rules {rules : List Rule}
    (h : ∀ rule ∈ rules, IsRule rule) :
    (Text.lines (rules.map Rule.print).flatten).foldl step p =
      rules.foldl (fun p rule => p.declare rule.name rule.body) p := by
  have hlines : Text.lines (rules.map Rule.print).flatten =
      (rules.map Rule.print).flatMap Text.lines := by
    refine Text.lines_flatten fun t ht => ?_
    obtain ⟨rule, -, rfl⟩ := List.mem_map.1 ht
    exact ⟨_, rfl⟩
  rw [hlines]
  clear hlines
  induction rules generalizing p with
  | nil => rfl
  | cons rule rules ih =>
    rw [List.map_cons, List.flatMap_cons, List.foldl_append, run_rule (h rule (by simp)),
      List.foldl_cons, ih fun other ho => h other (List.mem_cons_of_mem _ ho)]

theorem run_printHeader {header : Option Text} (rest : Text)
    (h : ∀ text ∈ header, Inert text ∧ text.head? = some '{') :
    ∃ openText, fromBrace? openText = header ∧
      (Text.lines (printHeader header ++ rest)).foldl step {} =
        (Text.lines rest).foldl step { openText } := by
  cases header with
  | none => exact ⟨[], rfl, rfl⟩
  | some header =>
    obtain ⟨hinert, hbrace⟩ := h header rfl
    refine ⟨header, ?_, ?_⟩
    · cases header with
      | nil => simp at hbrace
      | cons c header =>
        obtain rfl : c = '{' := by simpa using hbrace
        simp [fromBrace?]
    · rw [printHeader, List.append_assoc, List.singleton_append, Text.lines_append_newline,
        List.foldl_append, run_header hinert hbrace]

end Progress

/-- What a scan gives can be printed, and its first rule is the first of its table. -/
theorem printable_of_scan {text : Text} {path : Option Text} {source : Source}
    (hr : '\r' ∉ text) (h : scan text path = .ok source) :
    (∀ rule ∈ source.rules.rules, IsRule rule) ∧
      (∀ header ∈ source.header, Inert header ∧ header.head? = some '{') ∧
      ∃ body rest, source.rules.rules = ⟨source.firstRule, body⟩ :: rest := by
  obtain ⟨first, hfirst, rfl⟩ := scan_eq_ok_iff.1 h
  obtain ⟨hrules, hheader, hhead⟩ := (Progress.printable_lastProgress hr).closed
  refine ⟨hrules, hheader, ?_⟩
  cases hsplit : (lastProgress text).close.rules.rules with
  | nil => simp [hfirst, RuleTable.names, hsplit] at hhead
  | cons rule rest =>
    have hname : first = rule.name := by simpa [hfirst, RuleTable.names, hsplit] using hhead
    exact ⟨rule.body, rest, by rw [hname]⟩

/-- A scan of a printed source gives the source again, with each rule declared once. -/
theorem scan_print {text : Text} {path : Option Text} {source : Source}
    (unreturned : '\r' ∉ text) (scanned : scan text path = .ok source) (again : Option Text) :
    scan source.print again = .ok { source with duplicates := [] } := by
  obtain ⟨hrules, hheader, body, rest, hsplit⟩ := printable_of_scan unreturned scanned
  obtain ⟨openText, hopen, hrun⟩ := Progress.run_printHeader
    (source.rules.rules.map Rule.print).flatten hheader
  have hlast : lastProgress source.print =
      rest.foldl (fun p rule => p.declare rule.name rule.body)
        (Progress.declare { openText } source.firstRule body) := by
    rw [lastProgress, print, hrun, Progress.run_rules hrules, hsplit, List.foldl_cons]
  have hnodup := source.rules.nodup
  rw [hsplit] at hnodup
  obtain ⟨hread, hduplicates, hheaderAgain, hfirst⟩ := Progress.close_foldl_declare
    (p := Progress.declare { openText } source.firstRule body) rfl hnodup
  rw [← hlast] at hread hduplicates hheaderAgain hfirst
  have htable : (lastProgress source.print).close.rules = source.rules :=
    RuleTable.eq_of_rules (hread.trans hsplit.symm)
  refine scan_eq_ok_iff.2 ⟨source.firstRule, hfirst, ?_⟩
  rw [htable, hheaderAgain, hduplicates]
  simp [Progress.declare, hopen]

/-- A header that starts within a line, an empty name, bodies over several lines, one of them
with a separator, and a name declared twice. -/
def loose : Text :=
  "x \x7b a=1\n\n\x7d\n\nr ::=\n  b | c\n\n ::= 'e'\nb ::= 'x' ::= 'y'\n\nr ::= b\n | 'c'".toList

theorem scan_print_loose :
    '\r' ∉ loose ∧ ∃ source, scan loose none = .ok source ∧ source.duplicates = ["r".toList] ∧
      scan source.print none = .ok { source with duplicates := [] } := by
  have hr : '\r' ∉ loose := by decide
  have hok : (scan loose none).toOption.any (·.duplicates = ["r".toList]) = true := by
    decide +kernel
  cases hscan : scan loose none with
  | error error => simp [hscan, Except.toOption] at hok
  | ok source =>
    have hd : source.duplicates = ["r".toList] := by
      simpa [hscan, Except.toOption] using hok
    exact ⟨hr, source, rfl, hd, scan_print hr hscan none⟩

end Source
end OpenGrammar
