import OpenGrammar.Proofs.ImportLists

/-! Reading a composed header again. Its import list has the new imports and the old entries; what
can be different are the subclass directives, as an import is put into the header as a text and
the directives are found wherever they stand in it. -/
namespace OpenGrammar
namespace Text

theorem append_cons_cancel {a a' b b' : Text} {c : Char} (h : c ∉ a) (h' : c ∉ a')
    (he : a ++ c :: b = a' ++ c :: b') : a = a' ∧ b = b' := by
  have hcut : ∀ {x y : Text}, c ∉ x →
      (x ++ c :: y).takeWhile (· != c) = x ∧ (x ++ c :: y).dropWhile (· != c) = c :: y := by
    intro x y hx
    exact Token.span_append_iff.2 ⟨fun e hm => bne_iff_ne.2 fun heq => hx (heq ▸ hm), by simp⟩
  have hfirst := hcut (y := b) h
  rw [he, (hcut h').1, (hcut h').2] at hfirst
  exact ⟨hfirst.1.symm, (List.cons.inj hfirst.2).2.symm⟩

end Text

namespace Directives

open Text

variable {pattern elementType d t a b : Text}

/-! Subclass directives around a place -/

theorem IsSubclass.starts_with_key (h : IsSubclass pattern elementType d) : extendsKey <+: d := by
  obtain ⟨-, -, -, one, two, three, four, -, -, -, -, rfl⟩ := h
  rw [spellPattern, List.append_assoc]
  exact List.prefix_append _ _

theorem starts_with_extendsKey (t : Text) (hit : (Text × Text) × Text) (h : extends? t = some hit) :
    extendsKey <+: t := by
  obtain ⟨⟨pattern, elementType⟩, d⟩ := hit
  obtain ⟨hd, rest, rfl, -⟩ := extends?_eq_some_iff.1 h
  exact hd.starts_with_key.trans (List.prefix_append d rest)

theorem head?_of_extends? (t : Text) (hit : (Text × Text) × Text) (h : extends? t = some hit) :
    t.head? = some 'e' := by
  obtain ⟨rest, rfl⟩ := starts_with_extendsKey t hit h
  rfl

theorem quiet_extends_of_no_paren {c : Char} (hc : c ∉ extendsKey) (ha : '(' ∉ a) :
    Quiet extends? (a ++ [c]) :=
  quiet_of_no_key starts_with_extendsKey hc fun h => ha (h.subset (by decide))

theorem unreached_extends {gap : Text} (hgap : allBlank gap = true) : Unreached extends? gap := by
  constructor
  · refine quiet_of_not_mem head?_of_extends? (not_mem_of_allBlank hgap (by decide)) []
  · intro t
    ext ⟨⟨pattern, elementType⟩, d⟩
    simp only [extends?_eq_some_iff]
    refine and_congr_right fun hd => ⟨?_, ?_⟩
    · rintro ⟨rest, ht, hrest⟩
      obtain ⟨e, c, rfl, hc⟩ := hd.exists_concat
      have hmem : c ∉ gap := fun hm => by
        rw [isIdentPart_of_isBlank (List.all_eq_true.1 hgap c hm)] at hc
        cases hc
      obtain ⟨rest', rfl⟩ := prefix_of_concat_prefix_append hmem ⟨rest, ht.symm⟩
      rw [List.append_assoc _ rest', List.append_cancel_left_eq] at ht
      refine ⟨rest', rfl, fun c' hc' => hrest c' ?_⟩
      rw [← ht, List.head?_append, Option.mem_def.1 hc']
      rfl
    · rintro ⟨rest, rfl, hrest⟩
      refine ⟨rest ++ gap, by simp, fun c hc => ?_⟩
      cases rest with
      | nil => exact isIdentPart_of_isBlank (List.all_eq_true.1 hgap c (List.mem_of_mem_head? hc))
      | cons e rest => exact hrest c hc

/-- A bracket cuts a text in two for the directives if none is recognised across it. -/
theorem cut_at_bracket
    (h : ∀ u hit, u <:+ a ++ ['['] → extends? (u ++ b) = some hit → hit.2 <+: u) :
    CutBefore extends? (a ++ ['[']) b := by
  intro u hu hne
  obtain rfl | ⟨w, rfl, -⟩ := List.suffix_concat_iff.1 hu
  · exact absurd rfl hne
  -- Behind a directive in front of the bracket some text is left.
  have hleft : ∀ {pattern elementType d r : Text}, IsSubclass pattern elementType d →
      w ++ ['['] = d ++ r → ∃ c r', r = c :: r' := by
    intro pattern elementType d r hd he
    cases r with
    | cons c r' => exact ⟨c, r', rfl⟩
    | nil =>
      obtain ⟨e, c, rfl, hc⟩ := hd.exists_concat
      rw [List.append_nil] at he
      have hlast := List.singleton_inj.1 (List.append_inj' he rfl).2
      rw [← hlast] at hc
      cases hc
  ext ⟨⟨pattern, elementType⟩, d⟩
  constructor
  · intro hit
    obtain ⟨r, hr⟩ := h _ _ hu hit
    obtain ⟨hd, rest, ht, hrest⟩ := extends?_eq_some_iff.1 hit
    obtain ⟨c, r', rfl⟩ := hleft hd hr.symm
    rw [← hr, List.append_assoc, List.append_cancel_left_eq] at ht
    exact extends?_eq_some_iff.2 ⟨hd, c :: r', hr.symm, fun e he => hrest e (by rw [← ht]; exact he)⟩
  · intro hit
    obtain ⟨hd, r, hr, hrest⟩ := extends?_eq_some_iff.1 hit
    obtain ⟨c, r', rfl⟩ := hleft hd hr
    exact extends?_eq_some_iff.2 ⟨hd, c :: r' ++ b, by rw [hr, List.append_assoc], hrest⟩

/-- A directive that goes on behind a bracket has it in its pattern. -/
theorem IsSubclass.exists_across {w z : Text} (h : IsSubclass pattern elementType d)
    (hd : d = w ++ '[' :: z) :
    ∃ mid gap rest, allBlank gap = true ∧ '"' ∉ mid ∧ z = mid ++ '"' :: (gap ++ ')' :: rest) := by
  obtain ⟨-, hquote, hident, one, two, three, four, hone, htwo, hthree, hfour, hspell⟩ := h
  have hfront : '[' ∉ extendsKey ++ one ∧ '"' ∉ extendsKey ++ one := by
    have hkey : '[' ∉ extendsKey ∧ '"' ∉ extendsKey := by decide
    simp [hkey, not_mem_of_allBlank (c := '[') hone, not_mem_of_allBlank (c := '"') hone, isBlank]
  have hback : '[' ∉ spellElement two three four elementType := by
    have hname : '[' ∉ elementType := fun hm => by
      have hpart := Token.isIdentPart_of_mem hident hm
      cases hpart
    simp [spellElement, hname, not_mem_of_allBlank (c := '[') htwo,
      not_mem_of_allBlank (c := '[') hthree, not_mem_of_allBlank (c := '[') hfour, isBlank]
  rw [hd, spellPattern] at hspell
  -- The bracket stands neither behind the pattern nor in front of it.
  rcases List.append_eq_append_iff.1 hspell with ⟨v, hv, hz⟩ | ⟨v, -, hz⟩
  swap
  · exact absurd (by rw [hz]; simp) hback
  cases v with
  | nil => exact absurd (by rw [List.nil_append] at hz; rw [← hz]; simp) hback
  | cons c v =>
    obtain ⟨rfl, rfl⟩ := List.cons.inj hz
    have hopen : extendsKey ++ (one ++ '"' :: (pattern ++ ['"'])) =
        (extendsKey ++ one) ++ ('"' :: pattern ++ ['"']) := by simp
    rw [hopen] at hv
    rcases List.append_eq_append_iff.1 hv with ⟨x, -, hx⟩ | ⟨x, hx, hy⟩
    swap
    · cases x with
      | nil => cases hy
      | cons e x =>
        obtain ⟨rfl, -⟩ := List.cons.inj hy
        exact absurd (by rw [hx]; simp) hfront.1
    cases x with
    | nil => cases hx
    | cons e x =>
      obtain ⟨-, hinner⟩ := List.cons.inj hx
      cases v using List.reverseRecOn with
      | nil =>
        have hlast := (List.append_inj' hinner rfl).2
        cases hlast
      | append_singleton mid last =>
        have hx' : pattern ++ ['"'] = (x ++ '[' :: mid) ++ [last] := by
          rw [List.append_assoc]
          exact hinner
        obtain ⟨hpattern, hlast⟩ := List.append_inj' hx' rfl
        obtain rfl := List.singleton_inj.1 hlast
        refine ⟨mid, two, three ++ '=' :: (four ++ elementType), htwo, fun hm => ?_, ?_⟩
        · exact hquote (by rw [hpattern]; simp [hm])
        · change mid ++ ['"'] ++ spellElement two three four elementType = _
          simp [spellElement]

/-- An import without closing parenthesis is not the rest of a directive in front of it. -/
theorem prefix_of_extends_entry {w gap item rest : Text} {hit : (Text × Text) × Text}
    (hgap : '"' ∉ gap) (hitem : ')' ∉ item)
    (h : extends? (w ++ '[' :: (gap ++ '"' :: (item ++ '"' :: rest))) = some hit) :
    hit.2 <+: w ++ ['['] := by
  obtain ⟨⟨pattern, elementType⟩, d⟩ := hit
  obtain ⟨hd, behind, ht, -⟩ := extends?_eq_some_iff.1 h
  rcases List.append_eq_append_iff.1 ht with ⟨v, hdv, hv⟩ | ⟨v, hw, -⟩
  swap
  · exact (show d <+: w from ⟨v, hw.symm⟩).trans (List.prefix_append w _)
  cases v with
  | nil => simp [hdv]
  | cons c z =>
    obtain ⟨rfl, hz⟩ := List.cons.inj hv
    obtain ⟨mid, blanks, more, hblanks, hmid, rfl⟩ := hd.exists_across hdv
    have hz' : gap ++ '"' :: (item ++ '"' :: rest) =
        mid ++ '"' :: (blanks ++ ')' :: (more ++ behind)) := by
      rw [hz]
      change mid ++ '"' :: (blanks ++ ')' :: more) ++ behind = _
      simp
    obtain ⟨rfl, hbehind⟩ := append_cons_cancel hgap hmid hz'
    have hclose : blanks ++ [')'] <+: item ++ '"' :: rest := by
      rw [hbehind]
      exact ⟨more ++ behind, by simp⟩
    have hquote : '"' ∉ blanks ++ [')'] := by
      simp [not_mem_of_allBlank (c := '"') hblanks, isBlank]
    exact absurd ((prefix_of_prefix_append_cons hquote hclose).subset (by simp)) hitem

/-- No subclass directive of a text reaches over the bracket that opens its import list. -/
def ListApart (t : Text) : Prop :=
  ∀ before start after, splitAtFind? importsOpen? t = some (before, start, after) →
    ∀ u hit, u <:+ before ++ start → extends? (u ++ after) = some hit → hit.2 <+: u

theorem ListApart.cut {before e after : Text} (h : ListApart t)
    (hsplit : splitAtFind? importsOpen? t = some (before, e ++ ['['], after)) :
    CutBefore extends? (before ++ e ++ ['[']) after := by
  refine cut_at_bracket fun u hit hu => h before _ after hsplit u hit ?_
  rwa [← List.append_assoc]

end Directives

namespace Header

open Text Directives
open OpenGrammar.Composition (sampleNames)

variable {header : Option Text} {names : GrammarNames} {kept : Text} {items : List Text}

theorem quiet_extends_importEntry {item : Text} (h : '(' ∉ item) :
    Quiet extends? (importEntry item) := by
  change Quiet extends? ("    \"".toList ++ item ++ ['"'])
  refine quiet_extends_of_no_paren (by decide) ?_
  simp [h]

/-- Imports without parentheses change no directive of the kept text. -/
theorem findAll_extends_withImports (hitems : ∀ item ∈ items, '(' ∉ item ∧ ')' ∉ item)
    (hapart : ListApart kept) :
    findAll extends? (withImports kept items) = findAll extends? kept := by
  have hopen : ∀ item ∈ items, '(' ∉ item := fun item hi => (hitems item hi).1
  unfold withImports
  cases hsplit : splitAtFind? importsOpen? kept with
  | none =>
    simp only
    split
    · rfl
    · have hopens : Quiet extends? ("  parserImports=[".toList ++ ['\n']) :=
        quiet_extends_of_no_paren (by decide) (by decide)
      have hentries : Quiet extends? (items.flatMap fun item => importEntry item ++ ['\n']) :=
        Quiet.flatMap fun item hi => (quiet_extends_importEntry (hopen item hi)).append
          (quiet_extends_of_no_paren (a := []) (by decide) (by simp))
      have hcloses : Quiet extends? ("  ]".toList ++ ['\n']) :=
        quiet_extends_of_no_paren (by decide) (by decide)
      exact findAll_append (((hopens.append hentries).append hcloses) kept)
  | some parts =>
    obtain ⟨before, start, after⟩ := parts
    obtain ⟨hkept, -, ⟨⟩, hstart⟩ := (splitAtFind?_eq_some_iff anchored_importsOpen).1 hsplit
    obtain ⟨e, rfl, -⟩ := (importsOpen?_eq_some_iff.1 hstart).1.exists_concat
    simp only
    cases items with
    | nil => simp [hkept]
    | cons item items =>
      generalize hlist : (item :: items).flatMap (fun item => '\n' :: importEntry item) = list
      have hquiet : Quiet extends? list := by
        rw [← hlist]
        exact Quiet.flatMap fun item hi => (quiet_extends_of_no_paren (a := []) (by decide)
          (by simp)).append (quiet_extends_importEntry (hopen item hi))
      -- The first of the imports closes whatever pattern is open at the bracket.
      have hcut : CutBefore extends? (before ++ e ++ ['[']) (list ++ after) := by
        refine cut_at_bracket fun u hit hu hd => ?_
        obtain rfl | ⟨w, rfl, -⟩ := List.suffix_concat_iff.1 hu
        · rw [← hlist] at hd
          have hhead := head?_of_extends? _ hit hd
          cases hhead
        · have hblank : '"' ∉ "\n    ".toList := by decide
          have hfirst : w ++ ['['] ++ (list ++ after) = w ++ '[' :: ("\n    ".toList ++ '"' :: (item ++
              '"' :: (items.flatMap (fun item => '\n' :: importEntry item) ++ after))) := by
            rw [← hlist]
            simp [importEntry]
          rw [hfirst] at hd
          exact prefix_of_extends_entry hblank (hitems item List.mem_cons_self).2 hd
      have hwhole : before ++ (e ++ ['[']) ++ list ++ after = (before ++ e ++ ['[']) ++ (list ++ after) := by
        simp only [List.append_assoc]
      have hold : before ++ (e ++ ['['] ++ after) = (before ++ e ++ ['[']) ++ after := by
        simp only [List.append_assoc]
      rw [hwhole, findAll_append_of_cut anchored_extends hcut, findAll_append (hquiet after), hkept, hold,
        findAll_append_of_cut anchored_extends (hapart.cut hsplit)]

theorem listApart_keptText (hbrace : ∀ t ∈ header, t.head? = some '\x7b')
    (hkey : ¬ baseClassKey <:+: header.getD []) (h : ListApart (header.getD [])) :
    ListApart (keptText header) := by
  intro before start after hsplit u hit hu hd
  have hsame := (reading_kept head?_of_importsOpen? (by decide) hbrace hkey).2
  rw [hsplit, Option.map_some, Option.map_eq_some_iff] at hsame
  obtain ⟨⟨before', start', after'⟩, hsplit', he⟩ := hsame
  obtain ⟨rfl, rfl⟩ := Prod.mk.inj he
  refine h before' start' after' hsplit' u hit (hu.trans ?_) hd
  cases header with
  | none => cases hsplit'
  | some t =>
    obtain ⟨gap, -, hheader⟩ := exists_header_eq hbrace hkey
    have ht := ((splitAtFind?_eq_some_iff anchored_importsOpen).1 hsplit').1
    have hkept := ((splitAtFind?_eq_some_iff anchored_importsOpen).1 hsplit).1
    simp only [Option.getD_some] at hheader ht
    rw [hkept, ht, ← List.append_assoc before', ← List.append_assoc before, ← List.append_assoc gap,
      ← List.cons_append, List.append_left_inj] at hheader
    rw [hheader]
    exact List.suffix_append ('\x7b' :: gap) _

theorem findAll_extends_emit (h : names.Dotted) (header : Option Text) (imports : ImportSet)
    (existing : List Text) : findAll extends? (emit header names imports existing) =
      findAll extends? (withImports (keptText header)
        (imports.items.filter (!existing.contains ·))) := by
  have hfront : Quiet extends? ("\x7b\n".toList ++ generated names) := by
    refine quiet_generated (quiet_of_not_mem head?_of_extends? (by decide)) ?_ h
    intro key value hkey hvalue
    have hsplit : property key value = ("  ".toList ++ key ++ "=\"".toList ++ value ++ ['"']) ++ ['\n'] := by
      simp [property]
    rw [hsplit]
    refine quiet_extends_of_no_paren (by decide) ?_
    simp [hkey.not_mem (c := '(') (by decide) (by decide),
      hvalue.not_mem (c := '(') (by decide) (by decide)]
  have hgap := exists_trimEnd_append (untrimmed names
    (withImports (keptText header) (imports.items.filter (!existing.contains ·))))
  rw [emit_eq, findAll_unreached anchored_extends (unreached_extends (by decide))]
  generalize withImports (keptText header) (imports.items.filter (!existing.contains ·)) = body
    at hgap ⊢
  obtain ⟨gap, hgap, he⟩ := hgap
  rw [← findAll_unreached anchored_extends (unreached_extends hgap) (trimEnd _), ← he, untrimmed,
    findAll_append (hfront body)]

/-- A composed header that can be read lists the required imports that the given header does not
list, in their order, and then the entries of that one. It cannot be read only because of a
subclass directive that the given header does not have; and with imports without parentheses,
none of which gets into a directive, it is read and has the same patterns. -/
theorem read_emit {engine : PatternEngine} {default : Text} {directives : Directives} (hnames : names.Dotted)
    (hbrace : ∀ t ∈ header, t.head? = some '\x7b') (hkey : ¬ baseClassKey <:+: header.getD [])
    (hclosed : ∀ p, splitAtFind? importsOpen? (header.getD []) = some p → ']' ∈ p.2.2)
    {imports : ImportSet} (hitems : ∀ item ∈ imports.items, '"' ∉ item ∧ '\\' ∉ item ∧ ']' ∉ item)
    (hread : read header default = .ok directives) (default' : Text) :
    let fresh := imports.items.filter (!directives.existingImports.contains ·)
    let outcome := read (some (emit header names imports directives.existingImports)) default'
    (∀ again, outcome = .ok again →
      again.existingImports = fresh ++ directives.existingImports ∧
        (∀ item ∈ imports.items, item ∈ again.existingImports) ∧
        (directives.existingImports.Nodup → again.existingImports.Nodup)) ∧
    (∀ e, outcome = .error e → ∃ d cause, e = .invalidPattern d cause ∧
      d ∉ (findAll extends? (header.getD [])).map Prod.snd) ∧
    ((∀ item ∈ fresh, '(' ∉ item ∧ ')' ∉ item) → ListApart (header.getD []) →
      ∃ again, outcome = .ok again ∧ again.subclassPatterns = directives.subclassPatterns) := by
  intro fresh outcome
  have hexisting := existingImports_of_read hread
  have hpatterns := compilePatterns_of_read hread
  refine ⟨fun again hagain => ?_, fun e he => ?_, fun hparens hapart => ?_⟩
  · have hmerged : again.existingImports = fresh ++ directives.existingImports := by
      rw [existingImports_of_read hagain, Option.getD_some]
      have hlist := importEntries_emit hnames hbrace hkey hclosed hitems
      rwa [← hexisting] at hlist
    rw [hmerged]
    refine ⟨rfl, fun item hi => ?_, fun hnodup => ?_⟩
    · rw [List.mem_append]
      by_cases hmem : item ∈ directives.existingImports
      · exact Or.inr hmem
      · exact Or.inl (List.mem_filter.2 ⟨hi, by simpa using hmem⟩)
    · rw [List.nodup_append]
      refine ⟨imports.nodup.filter _, hnodup, ?_⟩
      rintro item hi _ hmem rfl
      have hnot := (List.mem_filter.1 hi).2
      simp [hmem] at hnot
  · obtain ⟨front, ⟨⟨pattern, elementType⟩, d⟩, back, fault, hsplit, -, hfault, rfl⟩ :=
      compilePatterns_eq_error_iff.1 (read_eq_error_iff.1 he)
    have hmem := hsplit ▸ List.mem_append_right front List.mem_cons_self
    refine ⟨d, _, rfl, fun hold => ?_⟩
    obtain ⟨⟨⟨pattern', elementType'⟩, _⟩, hmem', rfl⟩ := List.mem_map.1 hold
    obtain ⟨rfl, -⟩ := (isSubclass_of_mem_findAll hmem).eq_of_eq (isSubclass_of_mem_findAll hmem')
    obtain ⟨r, hr⟩ := exists_compilePatterns_iff.1 ⟨_, hpatterns⟩ _ hmem'
    cases hr.symm.trans hfault
  · have hsame : findAll extends? (emit header names imports directives.existingImports) =
        findAll extends? (header.getD []) := by
      rw [findAll_extends_emit hnames, findAll_extends_withImports hparens
        (listApart_keptText hbrace hkey hapart),
        (reading_kept head?_of_extends? (by decide) hbrace hkey).1]
    have hagain : compilePatterns (findAll extends?
        ((some (emit header names imports directives.existingImports)).getD [])) =
        .ok directives.subclassPatterns := by
      rw [Option.getD_some, hsame, hpatterns]
    exact exists_read hagain default'

def listedHeader : Text :=
  "\x7b\n  extends(\"s_.*\")=stmt\n  parserImports = [ \"static a.B.*\" ]\n\x7d".toList

def newImports : ImportSet :=
  ImportSet.empty.insertAll ["static p.Top.*".toList, "static a.B.*".toList]

theorem read_emit_listed :
    ∃ directives again,
      read (some listedHeader) [] = .ok directives ∧
      read (some (emit (some listedHeader) sampleNames newImports directives.existingImports)) [] =
        .ok again ∧
      again.existingImports = ["static p.Top.*".toList, "static a.B.*".toList] ∧
      again.subclassPatterns = directives.subclassPatterns := by
  have hrun : (read (some listedHeader) []).toOption.any (fun directives =>
      decide (directives.existingImports = ["static a.B.*".toList])) = true := by
    decide +kernel
  cases hread : read (some listedHeader) [] with
  | error e =>
    rw [hread] at hrun
    cases hrun
  | ok directives =>
    rw [hread] at hrun
    have hexisting : directives.existingImports = ["static a.B.*".toList] := of_decide_eq_true hrun
    have hsplit : splitAtFind? importsOpen? listedHeader =
        some ("\x7b\n  extends(\"s_.*\")=stmt\n  ".toList, "parserImports = [".toList,
          " \"static a.B.*\" ]\n\x7d".toList) := by
      decide
    have hclosed : ∀ p, splitAtFind? importsOpen? listedHeader = some p → ']' ∈ p.2.2 := by
      intro p hp
      rw [hsplit] at hp
      cases hp
      decide
    have hapart : ListApart listedHeader := by
      intro before start after hp u hit hu hd
      rw [hsplit] at hp
      cases hp
      have hall : ∀ u ∈ ("\x7b\n  extends(\"s_.*\")=stmt\n  parserImports = [".toList).tails,
          ∀ hit ∈ extends? (u ++ " \"static a.B.*\" ]\n\x7d".toList), hit.2 <+: u := by
        decide
      exact hall u ((List.mem_tails _ _).2 hu) hit hd
    have hitems : ∀ item ∈ newImports.items, '"' ∉ item ∧ '\\' ∉ item ∧ ']' ∉ item := by decide
    have hnames : sampleNames.Dotted := ⟨dotted_literal (by decide), dotted_literal (by decide)⟩
    obtain ⟨hmerged, -, hsafe⟩ := @read_emit (some listedHeader) _ _ _ _ hnames (by decide) (by decide)
      hclosed _ hitems hread []
    obtain ⟨again, hagain, hsame⟩ := hsafe (by rw [hexisting]; decide) hapart
    refine ⟨directives, again, rfl, hagain, ?_, hsame⟩
    rw [(hmerged again hagain).1, hexisting]
    decide

def openHeader : Text := "\x7b(\")=x\x7d".toList

def callImport : ImportSet := ImportSet.empty.insert "extends(".toList

/-- A header with a directive that reaches over the bracket of its import list. -/
def crossedHeader : Text := "\x7bextends(\"parserImports=[a])extends(\")=x((\")=y\x7d".toList

/-- The composed header cannot be read: an import is the start of a directive, or the imports break
a directive in whose pattern another one stands. -/
theorem read_emit_fails :
    sampleNames.Dotted ∧
    (∀ item ∈ callImport.items, '"' ∉ item ∧ '\\' ∉ item ∧ ']' ∉ item) ∧
    openHeader.head? = some '\x7b' ∧ ¬ baseClassKey <:+: openHeader ∧
    splitAtFind? importsOpen? openHeader = none ∧
    ((read (some openHeader) []).toOption.map existingImports = some [] ∧
      (read (some (emit (some openHeader) sampleNames callImport [])) []).toOption.map
        existingImports = none) ∧
    (splitAtFind? importsOpen? crossedHeader).map (·.2.2.contains ']') = some true ∧
    (read (some crossedHeader) []).toOption.map existingImports = some [] ∧
    (read (some (emit (some crossedHeader) sampleNames newImports [])) []).toOption.map
      existingImports = none := by
  refine ⟨⟨dotted_literal (by decide), dotted_literal (by decide)⟩, ?_⟩
  decide +kernel

end Header
end OpenGrammar
