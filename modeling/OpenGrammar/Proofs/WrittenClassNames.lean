import OpenGrammar.Linkage
import OpenGrammar.Proofs.ClassNames
import OpenGrammar.Proofs.DirectiveReading
import OpenGrammar.Proofs.Lines

/-! Class names that are written and read again. A class name that was read from a dotted name is
written as the segments of that name, and its text is read as the same class name; so it
survives the headers and the imports through which one grammar names the classes of another. -/
namespace OpenGrammar
namespace Text

/-- Joining drops the empty segments of a dotted name and nothing else. -/
theorem dotSegments_eq (t : Text) : dotSegments t = (t.splitOn '.').filter (· ≠ []) := by
  rw [dotSegments]
  congr 1
  funext segment
  cases segment <;> rfl

end Text

namespace GrammarNames

theorem display_topLevelOf_ne_nil (package : Text) {name : Text} (h : name ≠ []) :
    (ClassName.topLevelOf package name).display ≠ [] := by
  rw [display_topLevelOf, qualify]
  split
  · exact h
  · simp

end GrammarNames

namespace Directives

open Text Header

def overridesKey : Text := "overrides".toList

def naming (key value : Text) : Text := key ++ "=\"".toList ++ value ++ ['"']

/-- `key="Name"`, with a name of one or more characters of the class `p`. -/
def named? (p : Char → Bool) (key t : Text) : Option (Text × Text) := do
  let (name, rest) ← quotedRun? p (← afterKey? key t)
  return (name, upTo t rest)

theorem baseClass?_eq : baseClass? = named? (fun c => isClassChar c || c == '$') baseClassKey := rfl

theorem overrides?_eq : overrides? = named? isClassChar overridesKey := rfl

variable {p : Char → Bool} {key value : Text}

theorem starts_with_key_of_named? (t : Text) (hit : Text × Text) (h : named? p key t = some hit) :
    key <+: t := by
  simp only [named?, Option.bind_eq_bind, Option.bind_eq_some_iff, afterKey?_eq_some_iff] at h
  obtain ⟨u, ⟨gap, gap', -, -, ht, -⟩, -⟩ := h
  exact ⟨_, ht.symm⟩

theorem named?_naming (hne : value ≠ []) (hvalue : ∀ c ∈ value, p c = true) (hquote : p '"' = false)
    (back : Text) : named? p key (naming key value ++ back) = some (value, naming key value) := by
  have hsplit : naming key value ++ back =
      key ++ ([] ++ '=' :: ([] ++ '"' :: (value ++ '"' :: back))) := by
    simp [naming]
  have hkey : afterKey? key (naming key value ++ back) = some ('"' :: (value ++ '"' :: back)) := by
    rw [afterKey?_eq_some_iff]
    exact ⟨[], [], rfl, rfl, hsplit, by simp [isBlank]⟩
  simp only [named?, hkey, Option.bind_eq_bind, Option.bind_some,
    quotedRun?_append hne hvalue hquote, upTo_append]
  rfl

/-- A text without the key in front hides no name that is given behind it. -/
theorem find?_named {front : Text} {c : Char} (hc : c ∉ key) (hfront : ¬ key <:+: front)
    (hne : value ≠ []) (hvalue : ∀ c ∈ value, p c = true) (hquote : p '"' = false) (back : Text) :
    (find? (named? p key) ((front ++ [c]) ++ (naming key value ++ back))).map Prod.fst = some value := by
  have hquiet : Quiet (named? p key) (front ++ [c]) :=
    quiet_of_no_key starts_with_key_of_named? hc hfront
  have hnamed : named? p key (naming key value ++ back) = some (value, naming key value) :=
    named?_naming hne hvalue hquote back
  have hfound := findAll_found (by simp [naming]) hnamed
  rw [find?_append (hquiet _), find?_eq_head?, hfound]
  rfl

theorem find?_named_property {front : Text} (hkey : key ≠ []) (hc : ' ' ∉ key)
    (hfront : ¬ key <:+: front) (hne : value ≠ []) (hvalue : ∀ c ∈ value, p c = true)
    (hquote : p '"' = false) (back : Text) :
    (find? (named? p key) (front ++ (property key value ++ back))).map Prod.fst = some value := by
  have hsplit : front ++ (property key value ++ back) =
      ((front ++ [' ']) ++ [' ']) ++ (naming key value ++ ('\n' :: back)) := by
    simp [property, naming]
  have hblank : ¬ key <:+: front ++ [' '] := by
    rw [infix_concat_iff_of_not_mem hkey hc]
    exact hfront
  rw [hsplit]
  exact find?_named hc hblank hne hvalue hquote _

variable {engine : PatternEngine} {header : Option Text} {base front : Text}
  {directives : Directives}

theorem baseClass_of_read {name : Text} (hd : declaredBase (header.getD []) = some name)
    (h : read header base = .ok directives) :
    directives.baseClass = ClassName.ofDotted name ∧ directives.baseClassDeclared = true := by
  obtain ⟨patterns, -, rfl⟩ := read_eq_ok_iff.1 h
  simp [ofPatterns, hd]

theorem overrides_of_read {name : Text} (hd : overridden (header.getD []) = some name)
    (h : read header base = .ok directives) : directives.overrides = some (.ofDotted name) := by
  obtain ⟨patterns, -, rfl⟩ := read_eq_ok_iff.1 h
  simp [ofPatterns, hd]

/-- The header is read as directives with the property, unless the text of one of its subclass
directives is no pattern. -/
def Reads [PatternEngine] (header base : Text) (p : Directives → Prop) : Prop :=
  (∃ directives, read (some header) base = .ok directives ∧ p directives) ∨
    ∃ hit ∈ findAll extends? header, ∃ fault : PatternEngine.Fault,
      PatternEngine.compile (PatternEngine.anchored hit.1.1) = .error fault ∧
        read (some header) base = .error (.invalidPattern hit.2 (PatternEngine.describe fault))

theorem reads_of_forall {header base : Text} {p : Directives → Prop}
    (h : ∀ directives, read (some header) base = .ok directives → p directives) :
    Reads header base p := by
  cases hread : read (some header) base with
  | ok directives => exact Or.inl ⟨directives, hread, h directives hread⟩
  | error e =>
    obtain ⟨before, hit, behind, fault, hsplit, -, hfault, rfl⟩ :=
      compilePatterns_eq_error_iff.1 (read_eq_error_iff.1 hread)
    have hmem : hit ∈ findAll extends? header := by
      rw [Option.getD_some] at hsplit
      rw [hsplit]
      exact List.mem_append_right before List.mem_cons_self
    exact Or.inr ⟨hit, hmem, fault, hfault, hread⟩

theorem Reads.imp {header base : Text} {p q : Directives → Prop} (h : Reads header base p)
    (hpq : ∀ directives, p directives → q directives) : Reads header base q :=
  h.imp_left fun ⟨directives, hread, hp⟩ => ⟨directives, hread, hpq directives hp⟩

theorem Reads.exists_read {header base : Text} {p : Directives → Prop} (h : Reads header base p)
    (hnone : findAll extends? header = []) :
    ∃ directives, read (some header) base = .ok directives ∧ p directives := by
  rcases h with h | ⟨hit, hmem, -⟩
  · exact h
  · rw [hnone] at hmem
    cases hmem

theorem declaredBase_property (hfront : ¬ baseClassKey <:+: front) (hne : value ≠ [])
    (hvalue : ∀ c ∈ value, (isClassChar c || c == '$') = true) (back : Text) :
    declaredBase (front ++ (property baseClassKey value ++ back)) = some value := by
  rw [declaredBase, baseClass?_eq]
  exact find?_named_property (by decide) (by decide) hfront hne hvalue (by decide) back

theorem overridden_property (hfront : ¬ overridesKey <:+: front) (hne : value ≠ [])
    (hvalue : ∀ c ∈ value, isClassChar c = true) (back : Text) :
    overridden (front ++ (property overridesKey value ++ back)) = some value := by
  rw [overridden, overrides?_eq]
  exact find?_named_property (by decide) (by decide) hfront hne hvalue (by decide) back

theorem exists_emit_eq (header : Option Text) (names : GrammarNames) (imports : ImportSet)
    (existing : List Text) : ∃ back, emit header names imports existing =
      ("\x7b\n ".toList ++ [' ']) ++ (naming baseClassKey names.dispatchModule.display ++ back) := by
  rw [emit_eq]
  generalize withImports (keptText header) (imports.items.filter (!existing.contains ·)) = kept
  obtain ⟨gap, hgap, htrim⟩ := exists_trimEnd_append (untrimmed names kept)
  have hstart : (("\x7b\n  ".toList ++ baseClassKey ++ "=\"".toList ++ names.dispatchModule.display) ++
      ['"']) <+: trimEnd (untrimmed names kept) ++ gap := by
    refine ⟨'\n' :: (furtherLines names ++ kept), ?_⟩
    rw [← htrim, untrimmed, generated_eq, generatedBaseClass, spellBaseClass]
    simp
  obtain ⟨back, hback⟩ := prefix_of_concat_prefix_append (not_mem_of_allBlank hgap (by decide)) hstart
  refine ⟨back ++ ['\n'], ?_⟩
  rw [← hback]
  simp [naming]

theorem isClassChar_of_dotted {t : Text} (h : Dotted t) : ∀ c ∈ t, isClassChar c = true := by
  intro c hc
  rcases h c hc with hp | rfl
  · simp only [Token.isIdentPart, Bool.or_eq_true] at hp
    simp only [isClassChar, Bool.or_eq_true]
    exact Or.inl hp
  · decide

theorem declaredBase_emit {names : GrammarNames} (h : names.Dotted) (header : Option Text)
    (imports : ImportSet) (existing : List Text) :
    declaredBase (emit header names imports existing) = some names.dispatchModule.display := by
  obtain ⟨back, hback⟩ := exists_emit_eq header names imports existing
  have hne : names.dispatchModule.display ≠ [] :=
    GrammarNames.display_topLevelOf_ne_nil _ (by simp)
  have hvalue : ∀ c ∈ names.dispatchModule.display, (isClassChar c || c == '$') = true := by
    intro c hc
    rw [isClassChar_of_dotted h.dispatchModule c hc]
    rfl
  rw [hback, declaredBase, baseClass?_eq]
  exact find?_named (by decide) (by decide) hne hvalue (by decide) back

end Directives

namespace ClassName

open Text Header Directives

/-- A class name that is found again where it was written: in the headers that name it, and in the
imports of its members and of the accessors of its module. -/
structure Survives [PatternEngine] (c : ClassName) : Prop where
  /-- In a header that overrides the class. -/
  overrides : ∀ {front back base : Text}, ¬ overridesKey <:+: front → c.display ≠ [] →
    (∀ x ∈ c.display, isClassChar x = true) →
    Reads (front ++ (property overridesKey c.display ++ back)) base fun directives =>
      directives.overrides = some c
  /-- In a header that names the class for its module to extend. -/
  baseClass : ∀ {front back base : Text}, ¬ baseClassKey <:+: front → c.display ≠ [] →
    (∀ x ∈ c.display, (isClassChar x || x == '$') = true) →
    Reads (front ++ (property baseClassKey c.display ++ back)) base fun directives =>
      directives.baseClass = c ∧ directives.baseClassDeclared = true
  /-- In the composed header of the grammar whose module it is. -/
  composed : ∀ {header : Option Text} {names : GrammarNames} {imports : ImportSet}
    {existing : List Text} {base : Text}, names.Dotted → names.dispatchModule = c →
    Reads (emit header names imports existing) base fun directives =>
      directives.baseClass = c ∧ directives.baseClassDeclared = true
  /-- In the import of its members. -/
  members : ∀ {t : Text}, Linkage.parentImport c = "static ".toList ++ t ++ ".*".toList →
    ofDotted t = c
  /-- In the import of an accessor, which names the module of the class. -/
  accessors : ∀ {suffix name t : Text}, Linkage.externalImport c suffix name =
    "static ".toList ++ t ++ '.' :: Naming.accessor suffix name → ofDotted t = c.withSuffix "Util".toList

theorem IsRead.ofDotted_display {c : ClassName} (h : c.IsRead) : ofDotted c.display = c := by
  obtain ⟨segments, hs, rfl⟩ := isRead_iff.1 h
  rw [display_ofSegments hs, ofDotted_eq, dotSegments_join hs]

theorem survives_of_isRead [PatternEngine] {c : ClassName} (h : c.IsRead) : Survives c where
  overrides hfront hne hvalue := reads_of_forall fun directives hread => by
    have hd := overrides_of_read (overridden_property hfront hne hvalue _) hread
    rwa [h.ofDotted_display] at hd
  baseClass hfront hne hvalue := reads_of_forall fun directives hread => by
    have hd := baseClass_of_read (declaredBase_property hfront hne hvalue _) hread
    rwa [h.ofDotted_display] at hd
  composed {header names imports existing _} hnames hc := reads_of_forall fun directives hread => by
    have hdeclared := declaredBase_emit hnames header imports existing
    have hd := @baseClass_of_read _ (some (emit header names imports existing)) _ _ _ hdeclared hread
    rwa [hc, h.ofDotted_display] at hd
  members himport := by
    have ht := List.append_cancel_left (List.append_cancel_right himport)
    rw [← ht, h.ofDotted_display]
  accessors himport := by
    have ht := List.append_cancel_left (List.append_cancel_right himport)
    have hmodule : (c.withSuffix "Util".toList).IsRead := h.withSuffix (by decide) (by decide)
    rw [← ht, hmodule.ofDotted_display]

/-- A class name that is read from a dotted name is written as the segments of that name with one dot
between each two of them, and what is written is read as the same class name wherever a
grammar names the classes of another one. -/
theorem written_and_read [PatternEngine] (dotted : Text) :
    (ofDotted dotted).display = join ['.'] ((dotted.splitOn '.').filter (· ≠ [])) ∧
    ofDotted (ofDotted dotted).display = ofDotted dotted ∧
    Survives (ofDotted dotted) := by
  have hread : (ofDotted dotted).IsRead := ⟨dotted, rfl⟩
  refine ⟨?_, hread.ofDotted_display, survives_of_isRead hread⟩
  rw [ofDotted_eq, display_ofSegments (proper_dotSegments dotted), dotSegments_eq]

def looseName : Text := "..p.Outer..Inner.".toList

def overridingHeader : Text :=
  "\x7b\n".toList ++ (property overridesKey (ofDotted looseName).display ++ "\x7d".toList)

theorem written_and_read_loose :
    (ofDotted looseName).display = "p.Outer.Inner".toList ∧
    ofDotted "p.Outer.Inner".toList = ⟨"p".toList, ["Outer".toList, "Inner".toList]⟩ ∧
    ∃ directives, read (some overridingHeader) [] = .ok directives ∧
      directives.overrides = some ⟨"p".toList, ["Outer".toList, "Inner".toList]⟩ := by
  have hdisplay : (ofDotted looseName).display = "p.Outer.Inner".toList := by decide
  have hclass : ofDotted looseName = ⟨"p".toList, ["Outer".toList, "Inner".toList]⟩ := by decide
  obtain ⟨-, hagain, hsurvives⟩ := written_and_read looseName
  rw [hdisplay, hclass] at hagain
  have hchars : ∀ c ∈ (ofDotted looseName).display, isClassChar c = true :=
    List.all_eq_true.1 (by decide)
  have hreads : Reads overridingHeader [] fun directives =>
      directives.overrides = some (ofDotted looseName) :=
    hsurvives.overrides (by decide) (by decide) hchars
  rw [hclass] at hreads
  exact ⟨hdisplay, hagain, hreads.exists_read (by decide +kernel)⟩

/-! Classes of composed grammars -/

/-- A top-level class is read again if no segment of its package is empty or taken for a class. -/
theorem isRead_topLevelOf_iff {package name : Text} : (topLevelOf package name).IsRead ↔
    (name ≠ [] ∧ '.' ∉ name) ∧ join ['.'] (dotSegments package) = package ∧
      ∀ s ∈ dotSegments package, startsUppercase s = false := by
  constructor
  · intro h
    obtain ⟨segments, hs, he⟩ := isRead_iff.1 h
    obtain ⟨hpackage, hsimple⟩ := ClassName.mk.inj he
    have hmem : name ∈ segments.drop (packageLength segments) := by
      rw [← hsimple]
      exact List.mem_singleton_self name
    have hdot : dotSegments package = segments.take (packageLength segments) := by
      rw [hpackage, dotSegments_join (hs.take _)]
    refine ⟨hs.drop _ name hmem, by rw [hdot, hpackage], fun s hmem => ?_⟩
    rw [hdot] at hmem
    exact startsUppercase_of_mem_package hmem
  · rintro ⟨hname, hjoin, hlower⟩
    refine isRead_iff.2 ⟨dotSegments package ++ [name], ?_, ?_⟩
    · intro s hmem
      rcases List.mem_append.1 hmem with hmem | hmem
      · exact of_mem_dotSegments hmem
      · rw [List.mem_singleton.1 hmem]
        exact hname
    · rw [ofSegments_concat hlower, hjoin]
      rfl

/-- A grammar that overrides the parser class of a composed one finds the module of that grammar. -/
theorem parentModule_of_derived [PatternEngine] {names : GrammarNames} {front back base : Text}
    (hnames : names.Dotted)
    (hpackage : join ['.'] (dotSegments names.package) = names.package)
    (hlower : ∀ s ∈ dotSegments names.package, startsUppercase s = false) (hstem : '.' ∉ names.title)
    (hfront : ¬ overridesKey <:+: front) :
    Reads (front ++ (property overridesKey names.parserClass.display ++ back)) base fun directives =>
      directives.overrides = some names.parserClass ∧
        directives.parentModule = some names.dispatchModule := by
  have hread : names.parserClass.IsRead :=
    isRead_topLevelOf_iff.2 ⟨⟨by simp, by simp [hstem]⟩, hpackage, hlower⟩
  have hne : names.parserClass.display ≠ [] :=
    GrammarNames.display_topLevelOf_ne_nil _ (by simp)
  have hover := @(survives_of_isRead hread).overrides front back base hfront hne
    (isClassChar_of_dotted hnames.parserClass)
  refine hover.imp fun directives hd => ⟨hd, ?_⟩
  rw [Directives.parentModule, hd]
  simp [withSuffix, simpleName, GrammarNames.parserClass, GrammarNames.dispatchModule, topLevelOf]

end ClassName
end OpenGrammar
