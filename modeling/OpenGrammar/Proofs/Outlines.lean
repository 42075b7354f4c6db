import Mathlib.Data.List.Nodup
import OpenGrammar.Proofs.Printing
import OpenGrammar.Proofs.Segments

/-! Outlines of grammar texts. The lines of a text are grouped at those that hold a separator:
first the lines before any rule, then each declaration with its head line and the lines below
it. What a scan gives follows from the outline alone, whatever the order of the lines is. -/
namespace OpenGrammar
namespace RuleTable

theorem get?_eq_some_iff {table : RuleTable} {name : Text} {rule : Rule} :
    table.get? name = some rule ↔ rule ∈ table.rules ∧ rule.name = name := by
  constructor
  · intro h
    exact ⟨List.mem_of_find?_eq_some h, by simpa using List.find?_some h⟩
  · rintro ⟨hm, rfl⟩
    cases hg : table.get? rule.name with
    | none => simpa using List.find?_eq_none.1 hg rule hm
    | some other =>
      have hname : other.name = rule.name := by simpa using List.find?_some hg
      rw [List.inj_on_of_nodup_map table.nodup (List.mem_of_find?_eq_some hg) hm hname]

theorem get?_insert (table : RuleTable) (name body other : Text) :
    (table.insert name body).get? other = if other = name then some ⟨name, body⟩ else table.get? other := by
  split
  · rename_i h
    subst h
    refine get?_eq_some_iff.2 ⟨?_, rfl⟩
    unfold insert
    split
    · rename_i hm
      obtain ⟨rule, hr, hn⟩ := List.mem_map.1 hm
      refine List.mem_map.2 ⟨rule, hr, ?_⟩
      rw [if_pos hn, hn]
    · simp
  · rename_i h
    have hkept : ∀ rule : Rule, rule.name = other →
        (rule ∈ (table.insert name body).rules ↔ rule ∈ table.rules) := by
      rintro rule rfl
      unfold insert
      split
      · rw [List.mem_map]
        constructor
        · rintro ⟨old, ho, he⟩
          split at he
          · rename_i hn
            exact absurd (by rw [← he, hn]) h
          · rwa [← he]
        · intro hr
          exact ⟨rule, hr, if_neg h⟩
      · have hne : rule ≠ ⟨name, body⟩ := fun he => h (by rw [he])
        simp [hne]
    refine Option.ext fun rule => ?_
    rw [get?_eq_some_iff, get?_eq_some_iff]
    exact and_congr_left (hkept rule)

/-- A table is told by its names in order and the body of each. -/
theorem eq_of_names {table other : RuleTable} (hn : table.names = other.names)
    (hb : ∀ name, (table.get? name).map Rule.body = (other.get? name).map Rule.body) :
    table = other := by
  have hrules : ∀ t : RuleTable,
      t.rules = t.names.map fun name => ⟨name, ((t.get? name).map Rule.body).getD []⟩ := by
    intro t
    rw [names, List.map_map]
    conv_lhs => rw [← List.map_id t.rules]
    refine List.map_congr_left fun rule hr => ?_
    have hg : t.get? rule.name = some rule := get?_eq_some_iff.2 ⟨hr, rfl⟩
    simp [hg]
  refine eq_of_rules ?_
  rw [hrules table, hrules other, hn]
  exact List.map_congr_left fun name _ => by rw [hb]

end RuleTable

namespace Source

/-- A rule as its lines declare it: the head line, cut at its first separator, and the lines
below it. -/
structure Declaration where
  before : Text
  after : Text
  below : List Text

namespace Declaration

def name (d : Declaration) : Text := Text.trim d.before

/-- The body: what stands behind the separator, without spaces and tabs at its start, and then
each line below. -/
def body (d : Declaration) : Text :=
  Text.join ['\n'] ((d.after.dropWhile fun c => c == ' ' || c == '\t') :: d.below)

def lines (d : Declaration) : List Text := (d.before ++ separator ++ d.after) :: d.below

/-- No separator stands before the one in the head line, and none in the lines below. -/
structure Proper (d : Declaration) : Prop where
  first : ¬ separator <:+: d.before ++ separator.dropLast
  below : ∀ line ∈ d.below, ¬ separator <:+: line

theorem Proper.cut? {d : Declaration} (h : d.Proper) :
    Text.cut? separator (d.before ++ separator ++ d.after) = some (d.before, d.after) :=
  Text.cut?_append d.after (by decide) h.first

end Declaration

/-- The lines of a grammar text: those before the first rule, and the declarations. -/
structure Outline where
  preface : List Text
  declarations : List Declaration

namespace Outline

def lines (o : Outline) : List Text := o.preface ++ o.declarations.flatMap Declaration.lines

def names (o : Outline) : List Text := o.declarations.map Declaration.name

/-- The outline has the given lines, and a declaration at each that holds a separator. -/
structure IsOf (o : Outline) (lines : List Text) : Prop where
  lines_eq : o.lines = lines
  preface : ∀ line ∈ o.preface, ¬ separator <:+: line
  declarations : ∀ d ∈ o.declarations, d.Proper

/-- The outline of some lines. What comes before the first head of the later lines is below the
head in front of them. -/
def ofLines : List Text → Outline
  | [] => ⟨[], []⟩
  | line :: lines =>
    match Text.cut? separator line with
    | some (before, after) =>
      ⟨[], ⟨before, after, (ofLines lines).preface⟩ :: (ofLines lines).declarations⟩
    | none => ⟨line :: (ofLines lines).preface, (ofLines lines).declarations⟩

theorem isOf_ofLines (lines : List Text) : (ofLines lines).IsOf lines := by
  induction lines with
  | nil => exact ⟨rfl, by simp [ofLines], by simp [ofLines]⟩
  | cons line lines ih =>
    obtain ⟨hlines, hpreface, hdeclarations⟩ := ih
    unfold ofLines
    cases hc : Text.cut? separator line with
    | none =>
      exact ⟨congrArg (line :: ·) hlines,
        List.forall_mem_cons.2 ⟨free_of_cut?_eq_none hc, hpreface⟩, hdeclarations⟩
    | some cut =>
      obtain ⟨before, after⟩ := cut
      have hproper : Declaration.Proper ⟨before, after, (ofLines lines).preface⟩ :=
        ⟨Text.not_infix_of_cut? (by decide) hc, hpreface⟩
      refine ⟨?_, by simp, List.forall_mem_cons.2 ⟨hproper, hdeclarations⟩⟩
      rw [(Text.cut?_eq_some hc).1]
      exact congrArg ((before ++ separator ++ after) :: ·) hlines

theorem ofLines_append {front : List Text} (h : ∀ line ∈ front, ¬ separator <:+: line)
    (lines : List Text) :
    ofLines (front ++ lines) = ⟨front ++ (ofLines lines).preface, (ofLines lines).declarations⟩ := by
  induction front with
  | nil => rfl
  | cons line front ih =>
    have hrest := ih fun other ho => h other (List.mem_cons_of_mem _ ho)
    rw [List.cons_append, ofLines, cut?_of_free (h line (by simp))]
    simp [hrest]

theorem ofLines_declarations {ds : List Declaration} (h : ∀ d ∈ ds, d.Proper) :
    ofLines (ds.flatMap Declaration.lines) = ⟨[], ds⟩ := by
  induction ds with
  | nil => rfl
  | cons d ds ih =>
    have hd := h d (by simp)
    have hrest := ih fun other ho => h other (List.mem_cons_of_mem _ ho)
    rw [List.flatMap_cons, Declaration.lines, List.cons_append, ofLines, hd.cut?,
      ofLines_append hd.below, hrest]
    simp

/-- Some lines have one outline. -/
theorem isOf_iff {o : Outline} {lines : List Text} : o.IsOf lines ↔ o = ofLines lines := by
  constructor
  · rintro ⟨rfl, hpreface, hdeclarations⟩
    rw [Outline.lines, ofLines_append hpreface, ofLines_declarations hdeclarations, List.append_nil]
  · rintro rfl
    exact isOf_ofLines lines

theorem declarations_eq_nil_iff {o : Outline} {lines : List Text} (h : o.IsOf lines) :
    o.declarations = [] ↔ ∀ line ∈ lines, ¬ separator <:+: line := by
  obtain ⟨rfl, hpreface, -⟩ := h
  constructor
  · intro hnil
    simpa [Outline.lines, hnil] using hpreface
  · intro hfree
    refine List.eq_nil_iff_forall_not_mem.2 fun d hd => ?_
    refine hfree (d.before ++ separator ++ d.after) ?_ (List.infix_append _ _ _)
    exact List.mem_append_right _ (List.mem_flatMap.2 ⟨d, hd, List.mem_cons_self⟩)

end Outline

def repeats (names : List Text) : List Text :=
  names.zipIdx.filterMap fun x => if x.1 ∈ names.take x.2 then some x.1 else none

theorem repeats_concat (names : List Text) (name : Text) :
    repeats (names ++ [name]) = repeats names ++ if name ∈ names then [name] else [] := by
  have hbefore : ∀ x ∈ names.zipIdx, (names ++ [name]).take x.2 = names.take x.2 := by
    rintro ⟨other, i⟩ hx
    have hi : i < names.length := (List.getElem?_eq_some_iff.1 (List.mk_mem_zipIdx_iff_getElem?.1 hx)).1
    rw [List.take_append_of_le_length (Nat.le_of_lt hi)]
  rw [repeats, List.zipIdx_append, List.filterMap_append, repeats]
  congr 1
  · exact List.filterMap_congr fun x hx => by rw [hbefore x hx]
  · by_cases h : name ∈ names <;> simp [h]

namespace Progress

variable {p : Progress}

/-! One declaration -/

theorem run_free {lines : List Text} (h : ∀ line ∈ lines, ¬ separator <:+: line)
    (hopen : p.current.isSome ∨ p.openText ≠ []) :
    lines.foldl step p = { p with openText := Text.join ['\n'] (p.openText :: lines) } := by
  induction lines generalizing p with
  | nil => simp
  | cons line lines ih =>
    have hstep : p.step line = { p with openText := p.openText ++ '\n' :: line } := by
      rw [step_of_free (h line (by simp)), extend, if_pos hopen]
    rw [List.foldl_cons, hstep, ih (fun other ho => h other (List.mem_cons_of_mem _ ho)) (Or.inr (by simp))]
    simp [Text.join_cons_eq]

/-- Empty lines at the start of a text are passed over. -/
theorem run_preface {lines : List Text} (h : ∀ line ∈ lines, ¬ separator <:+: line) :
    lines.foldl step {} = { openText := Text.join ['\n'] (lines.dropWhile List.isEmpty) } := by
  induction lines with
  | nil => rfl
  | cons line lines ih =>
    have hrest := fun other ho => h other (List.mem_cons_of_mem _ ho)
    have hstep : step {} line = { openText := line } := by
      rw [step_of_free (h line (by simp))]
      rfl
    rw [List.foldl_cons, hstep]
    cases line with
    | nil => exact ih hrest
    | cons c line => exact run_free hrest (Or.inr (List.cons_ne_nil c line))

theorem isSome_declare (name body : Text) : (p.declare name body).current.isSome := by
  cases hc : p.current <;> simp [declare, hc]

theorem run_declaration {d : Declaration} (h : d.Proper) :
    d.lines.foldl step p = p.declare d.name d.body := by
  rw [Declaration.lines, List.foldl_cons, step, h.cut?]
  simp only
  rw [run_free h.below (Or.inl (isSome_declare _ _))]
  cases hc : p.current <;> simp [declare, hc, Declaration.name, Declaration.body]

def declareAll (p : Progress) (ds : List Declaration) : Progress :=
  ds.foldl (fun p d => p.declare d.name d.body) p

theorem declareAll_concat (ds : List Declaration) (d : Declaration) :
    p.declareAll (ds ++ [d]) = (p.declareAll ds).declare d.name d.body := by
  rw [declareAll, List.foldl_append]
  rfl

theorem run_declarations {ds : List Declaration} (h : ∀ d ∈ ds, d.Proper) :
    (ds.flatMap Declaration.lines).foldl step p = p.declareAll ds := by
  induction ds generalizing p with
  | nil => rfl
  | cons d ds ih =>
    rw [List.flatMap_cons, List.foldl_append, run_declaration (h d (by simp)),
      ih fun other ho => h other (List.mem_cons_of_mem _ ho)]
    rfl

/-! Several declarations -/

theorem close_declare (p : Progress) (name body : Text) :
    (p.declare name body).close.rules = p.close.rules.insert name body ∧
      (p.declare name body).close.duplicates =
        p.close.duplicates ++ if name ∈ p.close.rules.names then [name] else [] := by
  cases hc : p.current <;>
    by_cases h : name ∈ p.close.rules.names <;>
      simp_all [declare, close, RuleTable.contains]

/-- The table, with the rule that is still being read, holds what the declarations say. -/
structure Files (p : Progress) (ds : List Declaration) : Prop where
  names : p.close.rules.names = (ds.map Declaration.name).eraseDups
  body : ∀ name, (p.close.rules.get? name).map Rule.body =
    (ds.filter (·.name = name)).getLast?.map Declaration.body
  duplicates : p.close.duplicates = repeats (ds.map Declaration.name)

theorem files_start (openText : Text) : Files { openText } [] where
  names := rfl
  body _ := rfl
  duplicates := rfl

theorem Files.declare {ds : List Declaration} (h : p.Files ds) (d : Declaration) :
    (p.declare d.name d.body).Files (ds ++ [d]) := by
  obtain ⟨hrules, hduplicates⟩ := close_declare p d.name d.body
  have hmem : d.name ∈ p.close.rules.names ↔ d.name ∈ ds.map Declaration.name := by
    rw [h.names, List.mem_eraseDups]
  constructor
  · rw [hrules, RuleTable.names_insert, h.names, List.map_append, List.map_singleton,
      Text.eraseDups_concat]
    simp only [List.mem_eraseDups]
  · intro name
    rw [hrules, RuleTable.get?_insert, List.filter_append]
    split
    · rename_i hn
      simp [hn]
    · rename_i hn
      rw [h.body]
      simp [Ne.symm hn]
  · rw [hduplicates, h.duplicates, List.map_append, List.map_singleton, repeats_concat]
    simp only [hmem]

theorem files_declareAll (openText : Text) (ds : List Declaration) :
    (declareAll { openText } ds).Files ds := by
  induction ds using List.reverseRecOn with
  | nil => exact files_start openText
  | append_singleton ds d ih =>
    rw [declareAll_concat]
    exact ih.declare d

theorem declareAll_of_open (h : p.current.isSome) (ds : List Declaration) :
    (p.declareAll ds).header = p.header ∧ (p.declareAll ds).firstRule = p.firstRule := by
  induction ds generalizing p with
  | nil => exact ⟨rfl, rfl⟩
  | cons d ds ih =>
    obtain ⟨current, hc⟩ := Option.isSome_iff_exists.1 h
    have hkept : (p.declare d.name d.body).header = p.header ∧
        (p.declare d.name d.body).firstRule = p.firstRule := by simp [declare, close, hc]
    obtain ⟨hheader, hfirst⟩ := ih (isSome_declare (p := p) d.name d.body)
    exact ⟨hheader.trans hkept.1, hfirst.trans hkept.2⟩

theorem firstRule_declareAll (openText : Text) (ds : List Declaration) :
    (declareAll { openText } ds).firstRule = (ds.map Declaration.name).head? := by
  cases ds with
  | nil => rfl
  | cons d ds => exact (declareAll_of_open (isSome_declare d.name d.body) ds).2

theorem close_header (p : Progress) : p.close.header = p.header := by
  cases hc : p.current <;> simp [close, hc]

theorem header_declareAll {openText : Text} {ds : List Declaration} (h : ds ≠ []) :
    (declareAll { openText } ds).close.header = fromBrace? openText := by
  cases ds with
  | nil => exact absurd rfl h
  | cons d ds =>
    rw [close_header]
    exact (declareAll_of_open (isSome_declare d.name d.body) ds).1

end Progress

/-! The whole text -/

theorem lastProgress_eq {text : Text} {o : Outline} (h : o.IsOf (Text.lines text)) :
    lastProgress text = Progress.declareAll
      { openText := Text.join ['\n'] (o.preface.dropWhile List.isEmpty) } o.declarations := by
  rw [lastProgress, ← h.lines_eq, Outline.lines, List.foldl_append, Progress.run_preface h.preface,
    Progress.run_declarations h.declarations]

theorem fromBrace?_eq_iff {t : Text} {header : Option Text} :
    fromBrace? t = header ↔ ∃ skipped, '{' ∉ skipped ∧ t = skipped ++ header.getD [] ∧
      ∀ kept ∈ header, kept.head? = some '{' := by
  constructor
  · rintro rfl
    have hskipped : '{' ∉ t.takeWhile (· != '{') := fun hm => by
      simpa using List.all_eq_true.1 List.all_takeWhile _ hm
    refine ⟨t.takeWhile (· != '{'), hskipped, ?_, fun kept hk => (Progress.fromBrace?_eq_some hk).2⟩
    have hdrop : (fromBrace? t).getD [] = t.dropWhile (· != '{') := by
      unfold fromBrace?
      split
      · rename_i hd
        rw [hd]
        rfl
      · rfl
    rw [hdrop, List.takeWhile_append_dropWhile]
  · rintro ⟨skipped, hs, rfl, hk⟩
    have hpass : ∀ c ∈ skipped, (c != '{') = true := fun c hc =>
      bne_iff_ne.2 fun he => hs (he ▸ hc)
    cases header with
    | none => simp [fromBrace?, List.dropWhile_eq_nil_iff.2 hpass]
    | some kept =>
      have hbrace := hk kept rfl
      cases kept with
      | nil => cases hbrace
      | cons c kept =>
        obtain rfl : c = '{' := Option.some.inj hbrace
        simp [fromBrace?, List.dropWhile_append_of_pos hpass]

structure Outline.Gives (o : Outline) (source : Source) : Prop where
  firstRule : o.names.head? = some source.firstRule
  names : source.rules.names = o.names.eraseDups
  body : ∀ name, (source.rules.get? name).map Rule.body =
    (o.declarations.filter (·.name = name)).getLast?.map Declaration.body
  duplicates : source.duplicates = repeats o.names
  header : ∃ skipped, '{' ∉ skipped ∧
    Text.join ['\n'] (o.preface.dropWhile List.isEmpty) = skipped ++ source.header.getD [] ∧
      ∀ kept ∈ source.header, kept.head? = some '{'

theorem Outline.Gives.unique {o : Outline} {source other : Source} (h : o.Gives source)
    (ho : o.Gives other) : source = other := by
  have hrules : source.rules = other.rules :=
    RuleTable.eq_of_names (h.names.trans ho.names.symm) fun name =>
      (h.body name).trans (ho.body name).symm
  have hfirst := Option.some.inj (h.firstRule.symm.trans ho.firstRule)
  have hheader := (fromBrace?_eq_iff.2 h.header).symm.trans (fromBrace?_eq_iff.2 ho.header)
  have hduplicates := h.duplicates.trans ho.duplicates.symm
  cases source
  cases other
  cases hrules
  cases hfirst
  cases hheader
  cases hduplicates
  rfl

section Scan

variable {text : Text} {path : Option Text} {o : Outline} (h : o.IsOf (Text.lines text))
include h

theorem gives_of_scan {source : Source} (hs : scan text path = .ok source) : o.Gives source := by
  obtain ⟨first, hfirst, rfl⟩ := scan_eq_ok_iff.1 hs
  rw [lastProgress_eq h] at hfirst ⊢
  rw [Progress.firstRule_declareAll] at hfirst
  have hne : o.declarations ≠ [] := by
    intro hnil
    rw [hnil] at hfirst
    cases hfirst
  obtain ⟨hnames, hbody, hduplicates⟩ := Progress.files_declareAll
    (Text.join ['\n'] (o.preface.dropWhile List.isEmpty)) o.declarations
  exact ⟨hfirst, hnames, hbody, hduplicates,
    fromBrace?_eq_iff.1 (Progress.header_declareAll hne).symm⟩

theorem scan_eq_error_iff {error : Error} :
    scan text path = .error error ↔ error = .noRules path ∧ o.declarations = [] := by
  have hfirst : (lastProgress text).firstRule = o.names.head? := by
    rw [lastProgress_eq h]
    exact Progress.firstRule_declareAll _ _
  have hnil : o.names.head? = none ↔ o.declarations = [] := by
    rw [List.head?_eq_none_iff, Outline.names, List.map_eq_nil_iff]
  rw [← hnil, ← hfirst]
  cases hf : (lastProgress text).firstRule with
  | none =>
    rw [lastProgress] at hf
    simp [scan, hf, eq_comm]
  | some first =>
    have hok : scan text path = .ok _ := scan_eq_ok_iff.2 ⟨first, hf, rfl⟩
    simp [hok]

end Scan

/-- A text that holds no separator on any line is no grammar, and any other is scanned as its one
outline says. -/
theorem scan_outlined (text : Text) (path : Option Text) :
    ∃ o : Outline, (∀ other, other.IsOf (Text.lines text) ↔ other = o) ∧
      (∀ error, scan text path = .error error ↔
        error = .noRules path ∧ ∀ line ∈ Text.lines text, ¬ separator <:+: line) ∧
      ∀ source, scan text path = .ok source ↔ o.Gives source := by
  have h := Outline.isOf_ofLines (Text.lines text)
  refine ⟨Outline.ofLines (Text.lines text), fun _ => Outline.isOf_iff, fun error => ?_,
    fun source => ⟨gives_of_scan h, fun hg => ?_⟩⟩
  · rw [scan_eq_error_iff h, Outline.declarations_eq_nil_iff h]
  · cases hs : scan text path with
    | ok found => rw [hg.unique (gives_of_scan h hs)]
    | error error =>
      have hnil := ((scan_eq_error_iff h).1 hs).2
      have hfirst := hg.firstRule
      simp [Outline.names, hnil] at hfirst

end Source
end OpenGrammar
