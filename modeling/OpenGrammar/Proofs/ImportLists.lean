import OpenGrammar.Proofs.DirectiveReading
import OpenGrammar.Proofs.SpreadDirectives

/-! The import list of a header, as it is read and as it is written. The reader looks for a whole
list and the writer for the bracket that opens one; both look for the same place, and what the
writer puts behind the bracket is read as the first entries of the list. -/
namespace OpenGrammar
namespace Directives

open Text

variable {t start list d : Text}

def importsKey : Text := "parserImports".toList

def IsOpening (start : Text) : Prop :=
  ∃ gap gap', allBlank gap = true ∧ allBlank gap' = true ∧
    start = importsKey ++ (gap ++ '=' :: (gap' ++ ['[']))

theorem importsOpen?_eq_some_iff {u : Unit} :
    importsOpen? t = some (u, start) ↔ IsOpening start ∧ start <+: t := by
  unfold importsOpen? IsOpening
  have hkey : "parserImports".toList = importsKey := rfl
  rw [hkey]
  generalize importsKey = key
  simp only [Option.bind_eq_bind, Option.bind_eq_some_iff, afterKey?_eq_some_iff]
  constructor
  · rintro ⟨a, ⟨gap, gap', hgap, hgap', ht, -⟩, h⟩
    split at h
    · rename_i rest
      have ht' : t = key ++ (gap ++ '=' :: (gap' ++ ['['])) ++ rest := by
        rw [ht]
        simp only [List.append_assoc, List.cons_append, List.nil_append]
      rw [ht', upTo_append] at h
      cases h
      exact ⟨⟨gap, gap', hgap, hgap', rfl⟩, rest, ht'.symm⟩
    · cases h
  · rintro ⟨⟨gap, gap', hgap, hgap', rfl⟩, rest, rfl⟩
    refine ⟨'[' :: rest, ⟨gap, gap', hgap, hgap', ?_, by simp [isBlank]⟩, ?_⟩
    · simp only [List.append_assoc, List.cons_append, List.nil_append]
    · simp only [upTo_append]
      rfl

theorem closesList_iff {body rest : Text} : body.dropWhile (· != ']') = ']' :: rest ↔
    ∃ list, ']' ∉ list ∧ body = list ++ ']' :: rest ∧ body.takeWhile (· != ']') = list := by
  constructor
  · intro h
    refine ⟨_, fun hm => ?_, by rw [← h, List.takeWhile_append_dropWhile], rfl⟩
    simpa using List.all_eq_true.1 List.all_takeWhile _ hm
  · rintro ⟨list, hlist, rfl, -⟩
    have hpass : ∀ c ∈ list, (c != ']') = true :=
      fun c hc => bne_iff_ne.2 fun h => hlist (h ▸ hc)
    exact (Token.span_append_iff.2 ⟨hpass, by simp⟩).2

theorem imports?_eq_some_iff : imports? t = some (list, d) ↔
    ∃ start, IsOpening start ∧ ']' ∉ list ∧ d = start ++ (list ++ [']']) ∧ d <+: t := by
  unfold imports? IsOpening
  have hkey : "parserImports".toList = importsKey := rfl
  rw [hkey]
  generalize importsKey = key
  simp only [Option.bind_eq_bind, Option.bind_eq_some_iff, afterKey?_eq_some_iff]
  constructor
  · rintro ⟨a, ⟨gap, gap', hgap, hgap', ht, -⟩, h⟩
    split at h
    · rename_i body
      split at h
      · rename_i rest hrest
        obtain ⟨list', hlist, rfl, htake⟩ := closesList_iff.1 hrest
        have ht' : t = key ++ (gap ++ '=' :: (gap' ++ ['['])) ++ (list' ++ [']']) ++ rest := by
          rw [ht]
          simp only [List.append_assoc, List.cons_append, List.nil_append]
        rw [htake, ht', upTo_append] at h
        cases h
        exact ⟨_, ⟨gap, gap', hgap, hgap', rfl⟩, hlist, rfl, rest, ht'.symm⟩
      · cases h
    · cases h
  · rintro ⟨_, ⟨gap, gap', hgap, hgap', rfl⟩, hlist, rfl, rest, rfl⟩
    refine ⟨'[' :: (list ++ ']' :: rest), ⟨gap, gap', hgap, hgap', ?_, by simp [isBlank]⟩, ?_⟩
    · simp only [List.append_assoc, List.cons_append, List.nil_append]
    · have hpass : ∀ c ∈ list, (c != ']') = true :=
        fun c hc => bne_iff_ne.2 fun h => hlist (h ▸ hc)
      have htake : (list ++ ']' :: rest).takeWhile (· != ']') = list := by
        rw [List.takeWhile_append_of_pos hpass]
        simp
      simp only [closesList_iff.2 ⟨list, hlist, rfl, htake⟩, htake, upTo_append]
      rfl

/-! Openings -/

theorem IsOpening.exists_concat (h : IsOpening start) :
    ∃ e, start = e ++ ['['] ∧ '[' ∉ e ∧ '"' ∉ start := by
  obtain ⟨gap, gap', hgap, hgap', rfl⟩ := h
  have hmem : ∀ c, isBlank c = false → c ≠ '=' → c ∉ importsKey →
      c ∉ importsKey ++ (gap ++ '=' :: gap') := by
    intro c hc hne hkey
    simp [hkey, not_mem_of_allBlank hgap hc, not_mem_of_allBlank hgap' hc, hne]
  refine ⟨importsKey ++ (gap ++ '=' :: gap'), by simp, hmem _ (by decide) (by decide) (by decide), ?_⟩
  have hquote := hmem '"' (by decide) (by decide) (by decide)
  simp only [List.mem_append, List.mem_cons, List.not_mem_nil, or_false, not_or] at hquote ⊢
  exact ⟨hquote.1, hquote.2.1, hquote.2.2.1, hquote.2.2.2, by decide⟩

theorem IsOpening.ne_nil (h : IsOpening start) : start ≠ [] := by
  obtain ⟨e, rfl, -⟩ := h.exists_concat
  exact List.concat_ne_nil '[' e

theorem IsOpening.head? (h : IsOpening start) : start.head? = some 'p' := by
  obtain ⟨gap, gap', -, -, rfl⟩ := h
  rfl

theorem head?_of_importsOpen? (t : Text) (hit : Unit × Text) (h : importsOpen? t = some hit) :
    t.head? = some 'p' := by
  obtain ⟨hs, rest, rfl⟩ := importsOpen?_eq_some_iff.1 h
  rw [List.head?_append, hs.head?, Option.some_or]

theorem importsOpen?_append_bracket (a b : Text) :
    importsOpen? (a ++ '[' :: b) = importsOpen? (a ++ ['[']) := by
  ext ⟨⟨⟩, start⟩
  simp only [importsOpen?_eq_some_iff]
  refine and_congr_right fun hs => ⟨fun h => ?_, fun h => h.trans ⟨b, by simp⟩⟩
  obtain ⟨e, rfl, he, -⟩ := hs.exists_concat
  have hpre : e <+: a := prefix_of_prefix_append_cons he ((List.prefix_append e ['[']).trans h)
  obtain ⟨v, rfl⟩ := hpre
  rw [List.append_assoc, List.prefix_append_right_inj] at h
  rw [List.append_assoc, List.prefix_append_right_inj]
  cases v with
  | nil => exact List.prefix_rfl
  | cons c v =>
    have hc : '[' = c := (List.cons_prefix_cons.1 h).1
    rw [hc]
    exact List.prefix_append [c] _

theorem barren_opening {a start b : Text} (hs : IsOpening start)
    (h : BarrenBefore importsOpen? a (start ++ b)) (b' : Text) :
    BarrenBefore importsOpen? a (start ++ b') := by
  obtain ⟨e, rfl, -⟩ := hs.exists_concat
  intro u hu hne
  have hu' := h u hu hne
  rw [List.append_assoc, List.singleton_append, ← List.append_assoc,
    importsOpen?_append_bracket] at hu' ⊢
  exact hu'

/-- A quotation mark closes a stretch without opening bracket. -/
theorem quiet_importsOpen_concat {a : Text} (ha : '[' ∉ a) : Quiet importsOpen? (a ++ ['"']) := by
  apply quiet_concat
  intro v b hit hv hd
  obtain ⟨hs, hpre⟩ := importsOpen?_eq_some_iff.1 hd
  obtain ⟨e, he, -, hquote⟩ := hs.exists_concat
  have hin := prefix_of_prefix_append_cons hquote hpre
  exact ha (hv.subset (hin.subset (by simp [he])))

theorem barren_imports_of_barren {a b : Text} (h : BarrenBefore importsOpen? a b) :
    BarrenBefore imports? a b := by
  intro u hu hne
  rw [Option.eq_none_iff_forall_ne_some]
  rintro ⟨list, d⟩ hd
  obtain ⟨start, hs, -, rfl, hpre⟩ := imports?_eq_some_iff.1 hd
  have hnone := h u hu hne
  rw [(importsOpen?_eq_some_iff (u := ())).2
    ⟨hs, (List.prefix_append start _).trans hpre⟩] at hnone
  cases hnone

theorem anchored_imports : Anchored imports? := by
  intro t list d h
  obtain ⟨start, hs, -, rfl, hpre⟩ := imports?_eq_some_iff.1 h
  exact ⟨List.append_ne_nil_of_left_ne_nil hs.ne_nil _, hpre⟩

/-- No list reaches into a text without closing bracket. -/
theorem unreached_imports {b : Text} (hb : ']' ∉ b) : Unreached imports? b := by
  have hclose : ∀ {start list : Text}, start ++ (list ++ [']']) = (start ++ list) ++ [']'] := by
    simp
  constructor
  · intro u hu _
    rw [List.append_nil, Option.eq_none_iff_forall_ne_some]
    rintro ⟨list, d⟩ h
    obtain ⟨start, -, -, rfl, hpre⟩ := imports?_eq_some_iff.1 h
    exact hb (hu.subset (hpre.subset (by simp)))
  · intro t
    ext ⟨list, d⟩
    simp only [imports?_eq_some_iff]
    refine exists_congr fun start => and_congr_right fun _ => and_congr_right fun _ =>
      and_congr_right fun hd => ⟨fun h => ?_, fun h => h.trans (List.prefix_append t b)⟩
    rw [hd, hclose] at h ⊢
    exact prefix_of_concat_prefix_append hb h

/-! Entries -/

theorem importEntries_of_barren (h : BarrenBefore importsOpen? t []) : importEntries t = [] := by
  rw [importEntries, (find?_eq_none_iff anchored_imports).2 (barren_imports_of_barren h)]

theorem importEntries_append {a b : Text} (h : BarrenBefore importsOpen? a b) :
    importEntries (a ++ b) = importEntries b := by
  rw [importEntries, find?_append (barren_imports_of_barren h)]
  rfl

theorem importEntries_opening {start : Text} (hs : IsOpening start) (hlist : ']' ∉ list)
    (rest : Text) :
    importEntries (start ++ (list ++ ']' :: rest)) = (findAll string? list).map Prod.fst := by
  have hsplit : start ++ (list ++ ']' :: rest) = (start ++ (list ++ [']'])) ++ rest := by simp
  have hfound : imports? ((start ++ (list ++ [']'])) ++ rest) = some (list, start ++ (list ++ [']'])) :=
    imports?_eq_some_iff.2 ⟨start, hs, hlist, rfl, List.prefix_append _ _⟩
  have hne : start ++ (list ++ [']']) ≠ [] := List.append_ne_nil_of_left_ne_nil hs.ne_nil _
  rw [hsplit, importEntries, find?_eq_head?, findAll_found hne hfound]
  rfl

theorem importEntries_unreached {b : Text} (hb : ']' ∉ b) (t : Text) :
    importEntries (t ++ b) = importEntries t := by
  rw [importEntries, find?_unreached anchored_imports (unreached_imports hb)]
  rfl

theorem stringTail?_append {item rest : Text} (hquote : '"' ∉ item) (hslash : '\\' ∉ item) :
    stringTail? (item ++ '"' :: rest) = some (item, rest) := by
  induction item with
  | nil => rfl
  | cons c cs ih =>
    rw [List.mem_cons, not_or] at hquote hslash
    rw [List.cons_append, stringTail?.eq_4 _ _ (by grind) (by grind), if_neg (Ne.symm hslash.1),
      ih hquote.2 hslash.2]
    rfl

def quoted (item : Text) : Text := '"' :: (item ++ ['"'])

theorem quoted_ne_nil (item : Text) : quoted item ≠ [] := List.cons_ne_nil _ _

theorem string?_quoted {item : Text} (hquote : '"' ∉ item) (hslash : '\\' ∉ item) (rest : Text) :
    string? (quoted item ++ rest) = some (item, quoted item) := by
  have hsplit : quoted item ++ rest = '"' :: (item ++ '"' :: rest) := by simp [quoted]
  have hup : upTo (quoted item ++ rest) rest = quoted item := upTo_append _ _
  rw [hsplit] at hup ⊢
  simp only [string?, stringTail?_append hquote hslash, Option.bind_eq_bind, Option.bind_some, hup]
  rfl

theorem quiet_string {a : Text} (ha : '"' ∉ a) : Quiet string? a := by
  refine quiet_of_not_mem (fun t hit h => ?_) ha
  unfold string? at h
  split at h
  · rfl
  · cases h

/-- The entries of a list that starts with some new ones, each between texts without quotation
mark. -/
theorem findAll_string_flatMap {items : List Text} {before after : Text}
    (hitems : ∀ item ∈ items, '"' ∉ item ∧ '\\' ∉ item) (hbefore : '"' ∉ before)
    (hafter : '"' ∉ after) (rest : Text) :
    (findAll string? ((items.flatMap fun item => before ++ (quoted item ++ after)) ++ rest)).map
      Prod.fst = items ++ (findAll string? rest).map Prod.fst := by
  induction items with
  | nil => rfl
  | cons item items ih =>
    rw [List.forall_mem_cons] at hitems
    obtain ⟨⟨hquote, hslash⟩, hitems⟩ := hitems
    rw [List.flatMap_cons, List.append_assoc, List.append_assoc, findAll_append (quiet_string hbefore _),
      List.append_assoc, findAll_found (quoted_ne_nil item) (string?_quoted hquote hslash _),
      List.map_cons, findAll_append (quiet_string hafter _), ih hitems]
    rfl

end Directives

namespace Header

open Text Directives

variable {header : Option Text} {names : GrammarNames} {kept : Text} {items : List Text}

/-! The text that is kept -/

/-- Without the key of base class directives the header is kept behind its brace, but for blank
characters there. -/
theorem exists_header_eq (hbrace : ∀ t ∈ header, t.head? = some '\x7b')
    (hkey : ¬ baseClassKey <:+: header.getD []) :
    ∃ gap, allBlank gap = true ∧ header.getD "\x7b\n\x7d".toList = '\x7b' :: (gap ++ keptText header) := by
  have hhead : (header.getD "\x7b\n\x7d".toList).head? = some '\x7b' := by
    cases header with
    | none => rfl
    | some t => exact hbrace t rfl
  have hno : ¬ baseClassKey <:+: header.getD "\x7b\n\x7d".toList := by
    cases header with
    | none =>
      intro h
      exact absurd (h.subset (by decide : 'p' ∈ baseClassKey)) (by decide)
    | some t => exact hkey
  change ∃ gap, allBlank gap = true ∧
    _ = '\x7b' :: (gap ++ withoutBaseClass (afterBrace (header.getD "\x7b\n\x7d".toList)))
  generalize header.getD "\x7b\n\x7d".toList = t at hhead hno
  obtain ⟨rest, rfl⟩ := List.head?_eq_some_iff.1 hhead
  obtain ⟨gap, hgap, hinner⟩ := exists_inner_eq ('\x7b' :: rest)
  have hrest : rest = gap ++ afterBrace ('\x7b' :: rest) := hinner
  have hkept : ¬ baseClassKey <:+: afterBrace ('\x7b' :: rest) := by
    intro h
    refine hno (h.trans ((List.suffix_append gap _).trans ?_).isInfix)
    rw [← hrest]
    exact List.suffix_cons _ rest
  have hlines : ∀ line ∈ rawLines (afterBrace ('\x7b' :: rest)), dropBaseClass line = line := by
    intro line hl
    have hin : line <:+: afterBrace ('\x7b' :: rest) := by
      rw [← flatten_rawLines (afterBrace ('\x7b' :: rest))]
      exact List.infix_of_mem_flatten hl
    rw [dropBaseClass, (find?_eq_none_iff anchored_baseClassDirective).2
      (barren_of_no_key fun h => hkept (h.trans hin))]
    rfl
  refine ⟨gap, hgap, ?_⟩
  rw [withoutBaseClass, List.flatMap_congr hlines, List.flatMap_id', flatten_rawLines, ← hrest]

theorem reading_kept {α : Type} {recognise : Text → Option (α × Text)} {c : Char}
    (hhead : ∀ t hit, recognise t = some hit → t.head? = some c)
    (hc : c ∉ "\x7b\x7d".toList ∧ isBlank c = false) (hbrace : ∀ t ∈ header, t.head? = some '\x7b')
    (hkey : ¬ baseClassKey <:+: header.getD []) :
    findAll recognise (header.getD []) = findAll recognise (keptText header) ∧
      (splitAtFind? recognise (header.getD [])).map Prod.snd =
        (splitAtFind? recognise (keptText header)).map Prod.snd := by
  cases header with
  | none =>
    have hnone : Quiet recognise "\x7d".toList :=
      quiet_of_not_mem hhead fun hm => hc.1 (List.mem_cons_of_mem _ hm)
    have hkept : keptText none = "\x7d".toList ++ [] := by decide
    rw [hkept, findAll_append (hnone []), splitAtFind?_append (hnone [])]
    exact ⟨rfl, rfl⟩
  | some t =>
    obtain ⟨gap, hgap, he⟩ := exists_header_eq hbrace hkey
    have hfront : Quiet recognise ('\x7b' :: gap) := by
      refine quiet_of_not_mem hhead ?_
      rw [List.mem_cons, not_or]
      exact ⟨fun h => hc.1 (h ▸ List.mem_cons_self), not_mem_of_allBlank hgap hc.2⟩
    simp only [Option.getD_some] at he ⊢
    generalize keptText (some t) = kept at he ⊢
    rw [he, ← List.cons_append, findAll_append (hfront kept), splitAtFind?_append (hfront kept),
      Option.map_map]
    exact ⟨rfl, rfl⟩

theorem importEntries_kept (hbrace : ∀ t ∈ header, t.head? = some '\x7b')
    (hkey : ¬ baseClassKey <:+: header.getD []) :
    importEntries (header.getD []) = importEntries (keptText header) := by
  have hhead : ∀ t hit, imports? t = some hit → t.head? = some 'p' := by
    rintro t ⟨list, d⟩ h
    obtain ⟨start, hs, -, rfl, rest, rfl⟩ := imports?_eq_some_iff.1 h
    rw [List.append_assoc, List.head?_append, hs.head?, Option.some_or]
  unfold importEntries
  rw [find?_eq_head?, find?_eq_head?, (reading_kept hhead (by decide) hbrace hkey).1]

/-! The import list of the composed header -/

/-- What is found in no generated line is not found in front of the text that is kept. -/
theorem quiet_generated {α : Type} {recognise : Text → Option (α × Text)}
    (hopen : Quiet recognise "\x7b\n".toList)
    (hproperty : ∀ key value, Dotted key → Dotted value → Quiet recognise (property key value))
    (h : names.Dotted) : Quiet recognise ("\x7b\n".toList ++ generated names) := by
  have hline : ∀ key value : Text, key.all (fun c => Token.isIdentPart c || c == '.') = true →
      Dotted value → Quiet recognise (property key value) :=
    fun key value hkey hvalue => hproperty key value (dotted_literal hkey) hvalue
  unfold generated
  exact hopen.append (((((hline _ _ (by decide) h.dispatchModule).append
    (hline _ _ (by decide) h.parserClass)).append (hline _ _ (by decide) h.elementHolder)).append
    (hline _ _ (by decide) h.psiPackage)).append (hline _ _ (by decide) h.psiImplPackage))

/-- No list is opened in front of the text that is kept. -/
theorem quiet_importsOpen_generated (h : names.Dotted) :
    Quiet importsOpen? ("\x7b\n".toList ++ generated names) := by
  refine quiet_generated (quiet_of_not_mem head?_of_importsOpen? (by decide)) ?_ h
  intro key value hkey hvalue
  have hsplit : property key value =
      ("  ".toList ++ key ++ "=\"".toList ++ value ++ ['"']) ++ ['\n'] := by
    simp [property]
  have hbracket : '[' ∉ "  ".toList ++ key ++ "=\"".toList ++ value := by
    simp [hkey.not_mem (c := '[') (by decide) (by decide),
      hvalue.not_mem (c := '[') (by decide) (by decide)]
  rw [hsplit]
  exact (quiet_importsOpen_concat hbracket).append
    (quiet_of_not_mem head?_of_importsOpen? (by decide))

theorem importEntries_emit_eq (h : names.Dotted) (header : Option Text) (imports : ImportSet)
    (existing : List Text) : importEntries (emit header names imports existing) =
      importEntries (withImports (keptText header)
        (imports.items.filter (!existing.contains ·))) := by
  have hgap := exists_trimEnd_append (untrimmed names
    (withImports (keptText header) (imports.items.filter (!existing.contains ·))))
  rw [emit_eq, importEntries_unreached (by decide)]
  generalize withImports (keptText header) (imports.items.filter (!existing.contains ·)) = body at hgap ⊢
  obtain ⟨gap, hgap, he⟩ := hgap
  rw [← importEntries_unreached (not_mem_of_allBlank hgap (by decide)) (trimEnd _), ← he, untrimmed,
    importEntries_append (quiet_importsOpen_generated h body)]

theorem importEntry_eq (item : Text) : importEntry item = "    ".toList ++ quoted item := by
  simp [importEntry, quoted]

/-- The imports are read in front of the entries that the kept text has. -/
theorem importEntries_withImports
    (hitems : ∀ item ∈ items, '"' ∉ item ∧ '\\' ∉ item ∧ ']' ∉ item)
    (hclosed : ∀ p, splitAtFind? importsOpen? kept = some p → ']' ∈ p.2.2) :
    importEntries (withImports kept items) = items ++ importEntries kept := by
  have hstrings : ∀ item ∈ items, '"' ∉ item ∧ '\\' ∉ item :=
    fun item hi => ⟨(hitems item hi).1, (hitems item hi).2.1⟩
  unfold withImports
  cases hsplit : splitAtFind? importsOpen? kept with
  | some parts =>
    obtain ⟨before, start, after⟩ := parts
    obtain ⟨hkept, hbarren, ⟨⟩, hstart⟩ := (splitAtFind?_eq_some_iff anchored_importsOpen).1 hsplit
    have hs := (importsOpen?_eq_some_iff.1 hstart).1
    obtain ⟨list, rest, hafter, hlist⟩ := List.eq_append_cons_of_mem (hclosed _ hsplit)
    simp only at hafter
    have hnew : (items.flatMap fun item => '\n' :: importEntry item) =
        items.flatMap fun item => "\n    ".toList ++ (quoted item ++ []) :=
      List.flatMap_congr fun item _ => by simp [importEntry_eq]
    have hclose : ']' ∉ (items.flatMap fun item => "\n    ".toList ++ (quoted item ++ [])) ++ list := by
      simp only [List.mem_append, List.mem_flatMap, not_or, not_exists, not_and]
      refine ⟨fun item hi => ?_, hlist⟩
      simp [quoted, (hitems item hi).2.2]
    have hwhole : before ++ start ++ (items.flatMap fun item => '\n' :: importEntry item) ++ after =
        before ++ (start ++
          (((items.flatMap fun item => "\n    ".toList ++ (quoted item ++ [])) ++ list) ++
            ']' :: rest)) := by
      rw [hnew, hafter]
      simp only [List.append_assoc]
    simp only
    rw [hwhole, importEntries_append (barren_opening hs hbarren _), importEntries_opening hs hclose,
      findAll_string_flatMap hstrings (by decide) (by simp), hkept,
      importEntries_append (hafter ▸ hbarren), hafter, importEntries_opening hs hlist]
  | none =>
    have hbarren := (splitAtFind?_eq_none_iff anchored_importsOpen).1 hsplit
    rw [importEntries_of_barren hbarren, List.append_nil]
    simp only
    cases items with
    | nil => exact importEntries_of_barren hbarren
    | cons item items =>
      generalize hall : item :: items = all at hitems hstrings ⊢
      have hne : all.isEmpty = false := by rw [← hall]; rfl
      have hs : IsOpening "parserImports=[".toList := ⟨[], [], rfl, rfl, by decide⟩
      have hnew : (all.flatMap fun item => importEntry item ++ ['\n']) =
          all.flatMap fun item => "    ".toList ++ (quoted item ++ ['\n']) :=
        List.flatMap_congr fun item _ => by simp [importEntry_eq]
      have hclose : ']' ∉ ['\n'] ++
          ((all.flatMap fun item => "    ".toList ++ (quoted item ++ ['\n'])) ++ "  ".toList) := by
        simp only [List.mem_append, List.mem_flatMap, not_or, not_exists, not_and]
        refine ⟨by decide, fun item hi => ?_, by decide⟩
        simp [quoted, (hitems item hi).2.2]
      have hwhole : "  parserImports=[\n".toList ++
          (all.flatMap fun item => importEntry item ++ ['\n']) ++ "  ]\n".toList ++ kept =
          "  ".toList ++ ("parserImports=[".toList ++ ((['\n'] ++
            ((all.flatMap fun item => "    ".toList ++ (quoted item ++ ['\n'])) ++ "  ".toList)) ++
              ']' :: ('\n' :: kept))) := by
        have hopen : "  parserImports=[\n".toList =
            "  ".toList ++ ("parserImports=[".toList ++ ['\n']) := by decide
        have hend : "  ]\n".toList = "  ".toList ++ [']', '\n'] := by decide
        rw [hnew, hopen, hend]
        simp only [List.append_assoc, List.cons_append, List.nil_append]
      have hblank : Quiet importsOpen? "  ".toList :=
        quiet_of_not_mem head?_of_importsOpen? (by decide)
      rw [hne]
      simp only [Bool.false_eq_true, if_false]
      rw [hwhole, importEntries_append (hblank _), importEntries_opening hs hclose,
        findAll_append (quiet_string (by decide) _), findAll_string_flatMap hstrings (by decide) (by decide),
        findAll_barren (quiet_string (by decide) [])]
      simp

/-- The import list of the composed header has the imports that the given one does not list, in
their order, and behind them the entries of that one. -/
theorem importEntries_emit (hnames : names.Dotted) (hbrace : ∀ t ∈ header, t.head? = some '\x7b')
    (hkey : ¬ baseClassKey <:+: header.getD [])
    (hclosed : ∀ p, splitAtFind? importsOpen? (header.getD []) = some p → ']' ∈ p.2.2)
    {imports : ImportSet} (hitems : ∀ item ∈ imports.items, '"' ∉ item ∧ '\\' ∉ item ∧ ']' ∉ item) :
    importEntries (emit header names imports (importEntries (header.getD []))) =
      imports.items.filter (!(importEntries (header.getD [])).contains ·) ++
        importEntries (header.getD []) := by
  have hsame := (reading_kept head?_of_importsOpen? (by decide) hbrace hkey).2
  have hkept : ∀ p, splitAtFind? importsOpen? (keptText header) = some p → ']' ∈ p.2.2 := by
    intro p hp
    rw [hp, Option.map_some, Option.map_eq_some_iff] at hsame
    obtain ⟨q, hq, he⟩ := hsame
    rw [← he]
    exact hclosed q hq
  rw [importEntries_emit_eq hnames, importEntries_withImports ?_ hkept, ← importEntries_kept hbrace hkey]
  exact fun item hi => hitems item (List.mem_of_mem_filter hi)

end Header
end OpenGrammar
