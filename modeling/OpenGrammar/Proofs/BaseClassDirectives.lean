import OpenGrammar.Header
import OpenGrammar.Proofs.Finds
import OpenGrammar.Proofs.Trimming

/-! The directive that names the base class, as the header is read and as it is written. What
the composed header puts in front holds one such directive; all others are those of the
text that is kept. -/
namespace OpenGrammar
namespace Text

theorem trimStart_eq_iff {t rest : Text} : trimStart t = rest ↔
    ∃ gap, allBlank gap = true ∧ t = gap ++ rest ∧ ∀ c ∈ rest.head?, isBlank c = false := by
  constructor
  · rintro rfl
    exact ⟨t.takeWhile isBlank, List.all_takeWhile, List.takeWhile_append_dropWhile.symm,
      fun c hc => head_trimStart hc⟩
  · rintro ⟨gap, hgap, rfl, hrest⟩
    exact (Token.span_append_iff.2 ⟨List.all_eq_true.1 hgap, hrest⟩).2

theorem not_mem_of_allBlank {gap : Text} {c : Char} (h : allBlank gap = true)
    (hc : isBlank c = false) : c ∉ gap :=
  fun hm => ne_of_isBlank (List.all_eq_true.1 h c hm) hc rfl

def Dotted (t : Text) : Prop := ∀ c ∈ t, Token.isIdentPart c = true ∨ c = '.'

theorem Dotted.append {a b : Text} (ha : Dotted a) (hb : Dotted b) : Dotted (a ++ b) := by
  intro c hc
  rcases List.mem_append.1 hc with hc | hc
  · exact ha c hc
  · exact hb c hc

theorem Dotted.not_mem {t : Text} {c : Char} (h : Dotted t) (hc : Token.isIdentPart c = false)
    (hdot : c ≠ '.') : c ∉ t := by
  intro hm
  rcases h c hm with hp | hp
  · rw [hc] at hp
    cases hp
  · exact hdot hp

theorem dotted_literal {t : Text} (h : t.all (fun c => Token.isIdentPart c || c == '.') = true) :
    Dotted t := by
  intro c hc
  simpa using List.all_eq_true.1 h c hc

end Text

namespace GrammarNames

structure Dotted (names : GrammarNames) : Prop where
  package : Text.Dotted names.package
  stem : Text.Dotted names.stem

variable {names : GrammarNames}

theorem dotted_qualify {package name : Text} (hp : Text.Dotted package) (hn : Text.Dotted name) :
    Text.Dotted (qualify package name) := by
  unfold qualify
  split
  · exact hn
  · exact hp.append (Text.Dotted.append (a := ['.']) (Text.dotted_literal (by decide)) hn)

theorem display_topLevelOf (package name : Text) :
    (ClassName.topLevelOf package name).display = qualify package name := by
  rw [ClassName.display, ClassName.relativeName, ClassName.topLevelOf, Text.join,
    List.intercalate_singleton, qualify]

theorem dotted_titleCase {stem : Text} (h : Text.Dotted stem) :
    Text.Dotted (Naming.titleCase stem) := by
  cases stem with
  | nil => exact h
  | cons c cs =>
    refine Text.Dotted.append ?_ fun d hd => h d (List.mem_cons_of_mem c hd)
    intro d hd
    rcases h c List.mem_cons_self with hc | rfl
    · exact .inl (Text.isIdentPart_of_mem_uppercase hc hd)
    · exact .inr (by simpa [Text.uppercase] using hd)

namespace Dotted

theorem qualified {package literal : Text} (hp : Text.Dotted package) (h : names.Dotted)
    (hl : Text.Dotted literal) :
    Text.Dotted (ClassName.topLevelOf package (names.title ++ literal)).display := by
  rw [display_topLevelOf]
  exact dotted_qualify hp ((dotted_titleCase h.stem).append hl)

theorem dispatchModule (h : names.Dotted) : Text.Dotted names.dispatchModule.display :=
  qualified h.package h (Text.dotted_literal (by decide))

theorem parserClass (h : names.Dotted) : Text.Dotted names.parserClass.display :=
  qualified h.package h (Text.dotted_literal (by decide))

theorem psiPackage (h : names.Dotted) : Text.Dotted names.psiPackage :=
  dotted_qualify h.package (Text.dotted_literal (by decide))

theorem psiImplPackage (h : names.Dotted) : Text.Dotted names.psiImplPackage :=
  h.psiPackage.append (Text.dotted_literal (by decide))

theorem elementHolder (h : names.Dotted) : Text.Dotted names.elementHolder.display :=
  qualified h.psiPackage h (Text.dotted_literal (by decide))

end Dotted
end GrammarNames

namespace Directives

variable {key t rest : Text}

theorem upTo_append (d rest : Text) : upTo (d ++ rest) rest = d := by
  simp [upTo]

theorem afterKey?_eq_some_iff : afterKey? key t = some rest ↔
    ∃ gap gap', Text.allBlank gap = true ∧ Text.allBlank gap' = true ∧
      t = key ++ (gap ++ '=' :: (gap' ++ rest)) ∧ ∀ c ∈ rest.head?, Text.isBlank c = false := by
  unfold afterKey?
  simp only [Option.bind_eq_bind, Option.bind_eq_some_iff, List.isPrefixOf?_eq_some_iff_append_eq]
  constructor
  · rintro ⟨a, rfl, h⟩
    split at h
    · rename_i x hx
      obtain ⟨gap, hgap, rfl, -⟩ := Text.trimStart_eq_iff.1 hx
      obtain ⟨gap', hgap', rfl, hrest⟩ := Text.trimStart_eq_iff.1 (Option.some.inj h)
      exact ⟨gap, gap', hgap, hgap', rfl, hrest⟩
    · cases h
  · rintro ⟨gap, gap', hgap, hgap', rfl, hrest⟩
    have hsign : Text.trimStart (gap ++ '=' :: (gap' ++ rest)) = '=' :: (gap' ++ rest) :=
      Text.trimStart_eq_iff.2 ⟨gap, hgap, rfl, by simp [Text.isBlank]⟩
    have hvalue : Text.trimStart (gap' ++ rest) = rest :=
      Text.trimStart_eq_iff.2 ⟨gap', hgap', rfl, hrest⟩
    refine ⟨_, rfl, ?_⟩
    rw [hsign]
    exact congrArg some hvalue

theorem quotedRun?_eq_some {p : Char → Bool} {run : Text}
    (h : quotedRun? p t = some (run, rest)) :
    run ≠ [] ∧ (∀ c ∈ run, p c = true) ∧ t = '"' :: (run ++ '"' :: rest) := by
  unfold quotedRun? at h
  split at h
  · rename_i body
    split at h
    · rename_i after hafter
      simp only [List.isEmpty_iff] at h
      split at h
      · cases h
      · rename_i hne
        cases h
        refine ⟨hne, List.all_eq_true.1 List.all_takeWhile, ?_⟩
        rw [← hafter, List.takeWhile_append_dropWhile]
    · cases h
  · cases h

end Directives

namespace Header

def baseClassKey : Text := "parserUtilClass".toList

/-- A base class directive with the blank characters on both sides of its sign. -/
def spellBaseClass (gap gap' value : Text) : Text :=
  baseClassKey ++ (gap ++ '=' :: (gap' ++ '"' :: (value ++ ['"'])))

def IsBaseClass (d : Text) : Prop :=
  ∃ gap gap' value, Text.allBlank gap = true ∧ Text.allBlank gap' = true ∧ '"' ∉ value ∧
    d = spellBaseClass gap gap' value

theorem closesQuote_iff {body rest : Text} : body.dropWhile (· != '"') = '"' :: rest ↔
    ∃ value, '"' ∉ value ∧ body = value ++ '"' :: rest := by
  constructor
  · intro h
    refine ⟨body.takeWhile (· != '"'), fun hm => ?_, by rw [← h, List.takeWhile_append_dropWhile]⟩
    simpa using List.all_eq_true.1 List.all_takeWhile _ hm
  · rintro ⟨value, hvalue, rfl⟩
    refine (Token.span_append_iff.2 ⟨fun c hc => ?_, by simp⟩).2
    rw [bne_iff_ne]
    rintro rfl
    exact hvalue hc

theorem baseClassDirective?_eq_some_iff {t d : Text} :
    baseClassDirective? t = some ((), d) ↔ IsBaseClass d ∧ d <+: t := by
  unfold baseClassDirective? IsBaseClass spellBaseClass
  have hkey : "parserUtilClass".toList = baseClassKey := rfl
  rw [hkey]
  -- Nothing depends on the letters of the key.
  generalize baseClassKey = key
  simp only [Option.bind_eq_bind, Option.bind_eq_some_iff, Directives.afterKey?_eq_some_iff]
  constructor
  · rintro ⟨a, ⟨gap, gap', hgap, hgap', ht, -⟩, h⟩
    split at h
    · rename_i body
      split at h
      · rename_i rest hrest
        obtain ⟨value, hvalue, rfl⟩ := closesQuote_iff.1 hrest
        have ht' : t = key ++ (gap ++ '=' :: (gap' ++ '"' :: (value ++ ['"']))) ++ rest := by
          rw [ht]
          simp only [List.append_assoc, List.cons_append, List.nil_append]
        rw [ht', Directives.upTo_append] at h
        cases h
        exact ⟨⟨gap, gap', value, hgap, hgap', hvalue, rfl⟩, rest, ht'.symm⟩
      · cases h
    · cases h
  · rintro ⟨⟨gap, gap', value, hgap, hgap', hvalue, rfl⟩, rest, rfl⟩
    refine ⟨'"' :: (value ++ '"' :: rest), ⟨gap, gap', hgap, hgap', ?_, by simp [Text.isBlank]⟩, ?_⟩
    · simp only [List.append_assoc, List.cons_append, List.nil_append]
    · simp only [closesQuote_iff.2 ⟨value, hvalue, rfl⟩, Directives.upTo_append]
      rfl

/-- What the reader of the directives takes for a base class directive is one, and it names a
class. -/
theorem spelled_of_baseClass? {t name d : Text} (h : Directives.baseClass? t = some (name, d)) :
    ∃ gap gap', Text.allBlank gap = true ∧ Text.allBlank gap' = true ∧ d <+: t ∧
      d = spellBaseClass gap gap' name ∧
      ∀ c ∈ name, (Directives.isClassChar c || c == '$') = true := by
  unfold Directives.baseClass? at h
  unfold spellBaseClass
  have hkey : "parserUtilClass".toList = baseClassKey := rfl
  rw [hkey] at h
  generalize baseClassKey = key at h ⊢
  simp only [Option.bind_eq_bind, Option.bind_eq_some_iff, Directives.afterKey?_eq_some_iff] at h
  obtain ⟨a, ⟨gap, gap', hgap, hgap', ht, -⟩, ⟨run, rest⟩, hrun, h⟩ := h
  obtain ⟨-, hname, rfl⟩ := Directives.quotedRun?_eq_some hrun
  have ht' : t = key ++ (gap ++ '=' :: (gap' ++ '"' :: (run ++ ['"']))) ++ rest := by
    rw [ht]
    simp only [List.append_assoc, List.cons_append, List.nil_append]
  rw [ht', Directives.upTo_append] at h
  cases h
  exact ⟨gap, gap', hgap, hgap', ⟨rest, ht'.symm⟩, rfl, hname⟩

theorem anchored_baseClassDirective : Text.Anchored baseClassDirective? := by
  intro t value d h
  obtain ⟨⟨gap, gap', name, -, -, -, rfl⟩, hpre⟩ := baseClassDirective?_eq_some_iff.1 h
  exact ⟨by simp [spellBaseClass], hpre⟩

theorem IsBaseClass.exists_concat {d : Text} (h : IsBaseClass d) : ∃ e, d = e ++ ['"'] := by
  obtain ⟨gap, gap', value, -, -, -, rfl⟩ := h
  exact ⟨baseClassKey ++ (gap ++ '=' :: (gap' ++ '"' :: value)), by simp [spellBaseClass]⟩

theorem IsBaseClass.ne_nil {d : Text} (h : IsBaseClass d) : d ≠ [] := by
  obtain ⟨e, rfl⟩ := h.exists_concat
  exact List.concat_ne_nil '"' e

theorem IsBaseClass.starts_with_key {d : Text} (h : IsBaseClass d) : baseClassKey <+: d := by
  obtain ⟨gap, gap', value, -, -, -, rfl⟩ := h
  exact List.prefix_append _ _

theorem unreached_of_no_quote {b : Text} (hb : '"' ∉ b) : Text.Unreached baseClassDirective? b := by
  have hquote : ∀ {d t : Text}, IsBaseClass d → d <+: t → '"' ∈ t := by
    intro d t h hpre
    obtain ⟨e, rfl⟩ := h.exists_concat
    exact hpre.subset (by simp)
  constructor
  · intro u hu _
    rw [List.append_nil, Option.eq_none_iff_forall_ne_some]
    rintro ⟨⟨⟩, d⟩ h
    obtain ⟨hd, hpre⟩ := baseClassDirective?_eq_some_iff.1 h
    exact hb (hu.subset (hquote hd hpre))
  · intro t
    ext ⟨⟨⟩, d⟩
    simp only [baseClassDirective?_eq_some_iff]
    refine and_congr_right fun hd => ⟨fun h => ?_, fun h => h.trans (List.prefix_append t b)⟩
    obtain ⟨e, rfl⟩ := hd.exists_concat
    exact Text.prefix_of_concat_prefix_append hb h

theorem starts_with_key_of_eq_some (t : Text) (hit : Unit × Text)
    (h : baseClassDirective? t = some hit) : baseClassKey <+: t := by
  obtain ⟨hd, hpre⟩ := baseClassDirective?_eq_some_iff.1 h
  exact hd.starts_with_key.trans hpre

theorem quiet_of_no_key {a : Text} {c : Char} (hc : c ∉ baseClassKey) (ha : ¬ baseClassKey <:+: a) :
    Text.Quiet baseClassDirective? (a ++ [c]) :=
  Text.quiet_of_no_key starts_with_key_of_eq_some hc ha

theorem quiet_singleton {c : Char} (hc : c ∉ baseClassKey) : Text.Quiet baseClassDirective? [c] := by
  refine quiet_of_no_key (a := []) hc ?_
  rw [List.infix_nil]
  exact List.cons_ne_nil _ _

/-- Between the key and the quotation mark of a directive there is its sign. -/
theorem quiet_of_no_sign {a : Text} (ha : '=' ∉ a) :
    Text.Quiet baseClassDirective? (a ++ ['"']) := by
  apply Text.quiet_concat
  intro v b hit hv hd
  obtain ⟨⟨gap, gap', value, hgap, -, -, hspell⟩, hpre⟩ := baseClassDirective?_eq_some_iff.1 hd
  rw [hspell] at hpre
  have hsign : baseClassKey ++ gap ++ ['='] <+: v ++ '"' :: b := by
    refine List.IsPrefix.trans ?_ hpre
    rw [spellBaseClass, List.append_assoc, List.prefix_append_right_inj,
      List.prefix_append_right_inj]
    exact List.prefix_append ['='] _
  have hquote : '"' ∉ baseClassKey ++ gap ++ ['='] := by
    have hkey : '"' ∉ baseClassKey := by decide
    have hblank := Text.not_mem_of_allBlank (c := '"') hgap (by decide)
    simp [hkey, hblank]
  have hv' := Text.prefix_of_prefix_append_cons hquote hsign
  exact ha (hv.subset (hv'.subset (by simp)))

/-! The composed header -/

def generatedBaseClass (names : GrammarNames) : Text :=
  spellBaseClass [] [] names.dispatchModule.display

theorem isBaseClass_generated {names : GrammarNames} (h : names.Dotted) :
    IsBaseClass (generatedBaseClass names) :=
  ⟨[], [], _, rfl, rfl, h.dispatchModule.not_mem (by decide) (by decide), rfl⟩

theorem quiet_property {key value : Text} (hkey : ¬ baseClassKey <:+: "  ".toList ++ key)
    (hvalue : Text.Dotted value) : Text.Quiet baseClassDirective? (property key value) := by
  have hsplit : property key value =
      ("  ".toList ++ key ++ ['=']) ++ ['"'] ++ (value ++ ['"']) ++ ['\n'] := by
    simp [property]
  rw [hsplit]
  exact (((quiet_of_no_key (by decide) hkey).append (quiet_singleton (by decide))).append
    (quiet_of_no_sign (hvalue.not_mem (by decide) (by decide)))).append
      (quiet_singleton (by decide))

def furtherLines (names : GrammarNames) : Text :=
  property "parserClass".toList names.parserClass.display ++
  property "elementTypeHolderClass".toList names.elementHolder.display ++
  property "psiPackage".toList names.psiPackage ++
  property "psiImplPackage".toList names.psiImplPackage

theorem property_baseClassKey (value : Text) : property baseClassKey value =
    "  ".toList ++ (spellBaseClass [] [] value ++ ['\n']) := by
  unfold property spellBaseClass
  generalize baseClassKey = key
  simp

theorem generated_eq (names : GrammarNames) :
    generated names = "  ".toList ++ (generatedBaseClass names ++ '\n' :: furtherLines names) := by
  have hfirst : generated names =
      property baseClassKey names.dispatchModule.display ++ furtherLines names := by
    simp only [generated, furtherLines, List.append_assoc]
    rfl
  rw [hfirst, property_baseClassKey, generatedBaseClass]
  simp only [List.append_assoc, List.singleton_append]

theorem quiet_furtherLines {names : GrammarNames} (h : names.Dotted) :
    Text.Quiet baseClassDirective? (furtherLines names) :=
  (((quiet_property (by decide) h.parserClass).append
    (quiet_property (by decide) h.elementHolder)).append
      (quiet_property (by decide) h.psiPackage)).append (quiet_property (by decide) h.psiImplPackage)

/-- The composed header before blank characters are taken from its end. -/
def untrimmed (names : GrammarNames) (kept : Text) : Text :=
  "\x7b\n".toList ++ generated names ++ kept

theorem findAll_untrimmed {names : GrammarNames} (h : names.Dotted) (kept : Text) :
    Text.findAll baseClassDirective? (untrimmed names kept) =
      ((), generatedBaseClass names) :: Text.findAll baseClassDirective? kept := by
  have hsplit : untrimmed names kept = ("\x7b\n ".toList ++ [' ']) ++
      (generatedBaseClass names ++ ((['\n'] ++ furtherLines names) ++ kept)) := by
    rw [untrimmed, generated_eq]
    simp
  have hfront : Text.Quiet baseClassDirective? ("\x7b\n ".toList ++ [' ']) :=
    quiet_of_no_key (by decide) (by decide)
  have hback : Text.Quiet baseClassDirective? (['\n'] ++ furtherLines names) :=
    (quiet_singleton (by decide)).append (quiet_furtherLines h)
  have hfound := baseClassDirective?_eq_some_iff.2 ⟨isBaseClass_generated h,
    List.prefix_append _ ((['\n'] ++ furtherLines names) ++ kept)⟩
  rw [hsplit, Text.findAll_append (hfront _),
    Text.findAll_found (isBaseClass_generated h).ne_nil hfound, Text.findAll_append (hback kept)]

theorem emit_eq (header : Option Text) (names : GrammarNames) (imports : ImportSet)
    (existing : List Text) : emit header names imports existing = Text.trimEnd (untrimmed names
      (withImports (keptText header) (imports.items.filter (!existing.contains ·)))) ++ ['\n'] := rfl

/-- The composed header holds the directive that was put in front, and then those of the text
behind the generated lines. -/
theorem findAll_emit {names : GrammarNames} (h : names.Dotted) (header : Option Text)
    (imports : ImportSet) (existing : List Text) :
    Text.findAll baseClassDirective? (emit header names imports existing) =
      ((), generatedBaseClass names) :: Text.findAll baseClassDirective?
        (withImports (keptText header) (imports.items.filter (!existing.contains ·))) := by
  rw [emit_eq, ← findAll_untrimmed h, Text.findAll_unreached anchored_baseClassDirective
    (unreached_of_no_quote (by decide))]
  obtain ⟨gap, hgap, he⟩ := Text.exists_trimEnd_append (untrimmed names
    (withImports (keptText header) (imports.items.filter (!existing.contains ·))))
  conv_rhs => rw [he]
  exact (Text.findAll_unreached anchored_baseClassDirective
    (unreached_of_no_quote (Text.not_mem_of_allBlank hgap (by decide))) _).symm

end Header
end OpenGrammar
