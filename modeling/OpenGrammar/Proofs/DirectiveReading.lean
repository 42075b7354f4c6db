import OpenGrammar.Proofs.BaseClassDirectives
import OpenGrammar.Proofs.Fragment

/-! The directives of a header. Each is read from the first place that it is recognised at, and only
the patterns of the subclass directives can stop the reading. -/
namespace OpenGrammar
namespace Text

theorem exists_of_find? {α : Type} {recognise : Text → Option (α × Text)} {t : Text} {hit : α × Text}
    (h : find? recognise t = some hit) : ∃ s, s <:+ t ∧ recognise s = some hit := by
  induction t with
  | nil => cases h
  | cons c cs ih =>
    rw [find?] at h
    cases hr : recognise (c :: cs) with
    | some found =>
      rw [hr] at h
      exact ⟨c :: cs, List.suffix_rfl, hr.trans h⟩
    | none =>
      rw [hr] at h
      obtain ⟨s, hs, hhit⟩ := ih h
      exact ⟨s, hs.trans (List.suffix_cons c cs), hhit⟩

end Text

namespace Directives

variable {engine : PatternEngine} {header : Option Text} {default : Text} {directives : Directives}

def declaredBase (t : Text) : Option Text := (Text.find? baseClass? t).map Prod.fst

def overridden (t : Text) : Option Text := (Text.find? overrides? t).map Prod.fst

def importEntries (t : Text) : List Text :=
  match Text.find? imports? t with
  | some (list, _) => (Text.findAll string? list).map Prod.fst
  | none => []

/-- What a header is read as when its patterns are known. -/
def ofPatterns (t default : Text) (patterns : List SubclassPattern) : Directives where
  baseClass := ClassName.ofDotted ((declaredBase t).getD default)
  baseClassDeclared := (declaredBase t).isSome
  overrides := (overridden t).map ClassName.ofDotted
  subclassPatterns := patterns
  existingImports := importEntries t

theorem read_eq (header : Option Text) (default : Text) :
    read header default =
      (compilePatterns (Text.findAll extends? (header.getD []))).map
        (ofPatterns (header.getD []) default) := by
  have hover : (Text.find? overrides? (header.getD [])).map (fun hit => ClassName.ofDotted hit.1) =
      (overridden (header.getD [])).map ClassName.ofDotted := by
    rw [overridden, Option.map_map]
    rfl
  cases hp : compilePatterns (Text.findAll extends? (header.getD [])) with
  | error e => simp only [read, hp, Except.map, bind, Except.bind]
  | ok patterns =>
    simp only [read, hp, Except.map, bind, Except.bind, hover]
    rfl

theorem read_eq_ok_iff : read header default = .ok directives ↔
    ∃ patterns, compilePatterns (Text.findAll extends? (header.getD [])) = .ok patterns ∧
      directives = ofPatterns (header.getD []) default patterns := by
  rw [read_eq]
  cases compilePatterns (Text.findAll extends? (header.getD [])) with
  | error e => simp [Except.map]
  | ok patterns => simp [Except.map, eq_comm]

theorem read_eq_error_iff {e : Error} : read header default = .error e ↔
    compilePatterns (Text.findAll extends? (header.getD [])) = .error e := by
  rw [read_eq]
  cases compilePatterns (Text.findAll extends? (header.getD [])) with
  | error e' => simp [Except.map]
  | ok patterns => simp [Except.map]

theorem existingImports_of_read (h : read header default = .ok directives) :
    directives.existingImports = importEntries (header.getD []) := by
  obtain ⟨patterns, -, rfl⟩ := read_eq_ok_iff.1 h
  rfl

theorem exists_read {patterns : List SubclassPattern}
    (h : compilePatterns (Text.findAll extends? (header.getD [])) = .ok patterns) (default : Text) :
    ∃ directives, read header default = .ok directives ∧ directives.subclassPatterns = patterns :=
  ⟨ofPatterns (header.getD []) default patterns, read_eq_ok_iff.2 ⟨patterns, h, rfl⟩, rfl⟩

theorem compilePatterns_of_read (h : read header default = .ok directives) :
    compilePatterns (Text.findAll extends? (header.getD [])) = .ok directives.subclassPatterns := by
  obtain ⟨patterns, hpatterns, rfl⟩ := read_eq_ok_iff.1 h
  exact hpatterns

/-- A class that a header names is spelled with the characters of its class. -/
theorem isClassChar_of_mem_declaredBase {t name : Text} (h : declaredBase t = some name) :
    ∀ c ∈ name, (isClassChar c || c == '$') = true := by
  obtain ⟨⟨name, d⟩, hfind, rfl⟩ := Option.map_eq_some_iff.1 h
  obtain ⟨s, -, hs⟩ := Text.exists_of_find? hfind
  obtain ⟨-, -, -, -, -, -, hclass⟩ := Header.spelled_of_baseClass? hs
  exact hclass

theorem isClassChar_of_mem_overridden {t name : Text} (h : overridden t = some name) :
    ∀ c ∈ name, isClassChar c = true := by
  obtain ⟨⟨name, d⟩, hfind, rfl⟩ := Option.map_eq_some_iff.1 h
  obtain ⟨s, -, hs⟩ := Text.exists_of_find? hfind
  simp only [overrides?, Option.bind_eq_bind, Option.bind_eq_some_iff] at hs
  obtain ⟨u, -, ⟨run, rest⟩, hrun, he⟩ := hs
  cases he
  exact (quotedRun?_eq_some hrun).2.1

/-! Subclass directives -/

open Text

variable {pattern elementType d t rest : Text}

def extendsKey : Text := "extends(".toList

def spellPattern (gap pattern : Text) : Text := extendsKey ++ (gap ++ '"' :: (pattern ++ ['"']))

def spellElement (gap gap' gap'' elementType : Text) : Text :=
  gap ++ ')' :: (gap' ++ '=' :: (gap'' ++ elementType))

def IsSubclass (pattern elementType d : Text) : Prop :=
  pattern ≠ [] ∧ '"' ∉ pattern ∧ Token.isIdentifier elementType = true ∧
    ∃ one two three four, allBlank one = true ∧ allBlank two = true ∧ allBlank three = true ∧
      allBlank four = true ∧ d = spellPattern one pattern ++ spellElement two three four elementType

theorem quotedRun?_append {p : Char → Bool} {run : Text} (hne : run ≠ [])
    (hrun : ∀ c ∈ run, p c = true) (hquote : p '"' = false) (rest : Text) :
    quotedRun? p ('"' :: (run ++ '"' :: rest)) = some (run, rest) := by
  have htake : (run ++ '"' :: rest).takeWhile p = run := by
    rw [List.takeWhile_append_of_pos hrun]
    simp [hquote]
  have hdrop : (run ++ '"' :: rest).dropWhile p = '"' :: rest := by
    rw [List.dropWhile_append_of_pos hrun]
    simp [hquote]
  have hempty : run.isEmpty = false := by simpa using hne
  simp only [quotedRun?, hdrop, htake, hempty]
  rfl

theorem spelled_of_extends? (h : extends? t = some ((pattern, elementType), d)) :
    IsSubclass pattern elementType d ∧
      ∃ rest, t = d ++ rest ∧ ∀ c ∈ rest.head?, Token.isIdentPart c = false := by
  unfold extends? at h
  unfold IsSubclass spellPattern
  have hkey : "extends(".toList = extendsKey := rfl
  rw [hkey] at h
  -- Nothing depends on the letters of the key.
  generalize extendsKey = key at h ⊢
  simp only [Option.bind_eq_bind, Option.bind_eq_some_iff, List.isPrefixOf?_eq_some_iff_append_eq] at h
  obtain ⟨a, rfl, ⟨run, b⟩, hrun, h⟩ := h
  obtain ⟨hne, hpattern, hopen⟩ := quotedRun?_eq_some hrun
  obtain ⟨one, hone, rfl, -⟩ := trimStart_eq_iff.1 hopen
  split at h
  · rename_i x hx
    obtain ⟨two, htwo, rfl, -⟩ := trimStart_eq_iff.1 hx
    split at h
    · rename_i y hy
      obtain ⟨three, hthree, rfl, -⟩ := trimStart_eq_iff.1 hy
      split at h
      · rename_i c z hz
        obtain ⟨four, hfour, rfl, -⟩ := trimStart_eq_iff.1 hz
        split at h
        · rename_i hstart
          have hpart : (fun c : Char => c.isAlphanum || c == '_') = Token.isIdentPart := rfl
          have hsplit : key ++ (one ++ '"' :: (run ++ '"' :: (two ++ ')' ::
              (three ++ '=' :: (four ++ c :: z))))) =
              (key ++ (one ++ '"' :: (run ++ ['"'])) ++ spellElement two three four
                (c :: z.takeWhile Token.isIdentPart)) ++ z.dropWhile Token.isIdentPart := by
            simp only [spellElement, List.append_assoc, List.cons_append, List.nil_append,
              List.takeWhile_append_dropWhile]
          have hup := upTo_append (key ++ (one ++ '"' :: (run ++ ['"'])) ++
            spellElement two three four (c :: z.takeWhile Token.isIdentPart))
              (z.dropWhile Token.isIdentPart)
          rw [← hsplit] at hup
          simp only [hpart, hup] at h
          cases h
          have hident : Token.isIdentifier (c :: z.takeWhile Token.isIdentPart) = true := by
            rw [Token.isIdentifier, Bool.and_eq_true]
            exact ⟨hstart, List.all_takeWhile⟩
          refine ⟨⟨hne, fun hm => ?_, hident, one, two, three, four, hone, htwo, hthree, hfour, rfl⟩,
            _, hsplit, ?_⟩
          · simpa using hpattern _ hm
          · intro e he
            have hd := List.head?_dropWhile_not Token.isIdentPart z
            rw [Option.mem_def.1 he] at hd
            exact hd
        · cases h
      · cases h
    · cases h
  · cases h

theorem trimStart_gap {gap : Text} {e : Char} {u : Text} (hgap : allBlank gap = true)
    (he : isBlank e = false) : trimStart (gap ++ e :: u) = e :: u :=
  trimStart_eq_iff.2 ⟨gap, hgap, rfl, by simpa using he⟩

theorem extends?_append (h : IsSubclass pattern elementType d)
    (hrest : ∀ c ∈ rest.head?, Token.isIdentPart c = false) :
    extends? (d ++ rest) = some ((pattern, elementType), d) := by
  obtain ⟨hne, hquote, hident, one, two, three, four, hone, htwo, hthree, hfour, rfl⟩ := h
  unfold extends? spellPattern
  have hkey : "extends(".toList = extendsKey := rfl
  rw [hkey]
  generalize extendsKey = key
  cases elementType with
  | nil => cases hident
  | cons c cs =>
    rw [Token.isIdentifier, Bool.and_eq_true] at hident
    have hspan := Token.span_append_iff.2 ⟨List.all_eq_true.1 hident.2, hrest⟩
    have hc : isBlank c = false := by
      by_contra hb
      rw [Bool.not_eq_false] at hb
      have hpart := isIdentPart_of_isBlank hb
      rw [Token.isIdentPart_of_isIdentStart hident.1] at hpart
      cases hpart
    have hrun : ∀ e ∈ pattern, (e != '"') = true :=
      fun e he => bne_iff_ne.2 fun h => hquote (h ▸ he)
    have hsplit : (key ++ (one ++ '"' :: (pattern ++ ['"'])) ++
        spellElement two three four (c :: cs)) ++ rest = key ++ (one ++ '"' :: (pattern ++ '"' ::
          (two ++ ')' :: (three ++ '=' :: (four ++ c :: (cs ++ rest)))))) := by
      simp only [spellElement, List.append_assoc, List.cons_append, List.nil_append]
    have hup := upTo_append (key ++ (one ++ '"' :: (pattern ++ ['"'])) ++
      spellElement two three four (c :: cs)) rest
    have hstarts : ∀ u : Text, key.isPrefixOf? (key ++ u) = some u :=
      fun u => List.isPrefixOf?_eq_some_iff_append_eq.2 rfl
    have hpart : (fun c : Char => c.isAlphanum || c == '_') = Token.isIdentPart := rfl
    have hstart : (c.isAlpha || c == '_') = true := hident.1
    rw [hsplit] at hup ⊢
    simp only [hstarts, Option.bind_eq_bind, Option.bind_some, trimStart_gap hone (by decide : isBlank '"' = false),
      quotedRun?_append hne hrun (by decide), trimStart_gap htwo (by decide : isBlank ')' = false),
      trimStart_gap hthree (by decide : isBlank '=' = false), trimStart_gap hfour hc, hstart, if_true,
      hpart, hspan.1, hspan.2, hup]
    rfl

theorem extends?_eq_some_iff : extends? t = some ((pattern, elementType), d) ↔
    IsSubclass pattern elementType d ∧
      ∃ rest, t = d ++ rest ∧ ∀ c ∈ rest.head?, Token.isIdentPart c = false := by
  refine ⟨spelled_of_extends?, ?_⟩
  rintro ⟨h, rest, rfl, hrest⟩
  exact extends?_append h hrest

theorem anchored_extends : Anchored extends? := by
  rintro t ⟨pattern, elementType⟩ d h
  obtain ⟨⟨-, -, -, one, two, three, four, -, -, -, -, rfl⟩, rest, rfl, -⟩ := extends?_eq_some_iff.1 h
  exact ⟨by simp [spellPattern], List.prefix_append _ _⟩

theorem IsSubclass.exists_concat (h : IsSubclass pattern elementType d) :
    ∃ e c, d = e ++ [c] ∧ Token.isIdentPart c = true := by
  obtain ⟨-, -, hident, one, two, three, four, -, -, -, -, rfl⟩ := h
  cases elementType using List.reverseRecOn with
  | nil => cases hident
  | append_singleton cs c =>
    refine ⟨spellPattern one pattern ++ spellElement two three four cs, c, ?_,
      Token.isIdentPart_of_mem hident (by simp)⟩
    simp only [spellElement, List.append_assoc, List.cons_append]

/-- A directive tells its pattern and its element type. -/
theorem IsSubclass.eq_of_eq {pattern' elementType' : Text} (h : IsSubclass pattern elementType d)
    (h' : IsSubclass pattern' elementType' d) : pattern = pattern' ∧ elementType = elementType' := by
  have he := extends?_eq_some_iff.2 ⟨h, [], (List.append_nil d).symm, by simp⟩
  have he' := extends?_eq_some_iff.2 ⟨h', [], (List.append_nil d).symm, by simp⟩
  rw [he] at he'
  simpa using he'

theorem of_mem_findAll {α : Type} {recognise : Text → Option (α × Text)} {hit : α × Text}
    (h : hit ∈ findAll recognise t) (ha : Anchored recognise) :
    ∃ s, s <:+ t ∧ recognise s = some hit := by
  induction t using finds_induction ha with
  | barren t hb =>
    rw [findAll_barren hb] at h
    cases h
  | found front value found rest hne hb hf ih =>
    rw [findAll_append hb, findAll_found hne hf, List.mem_cons] at h
    rcases h with rfl | h
    · exact ⟨found ++ rest, List.suffix_append _ _, hf⟩
    · obtain ⟨s, hs, hit⟩ := ih h
      exact ⟨s, hs.trans ((List.suffix_append found rest).trans (List.suffix_append front _)), hit⟩

theorem isSubclass_of_mem_findAll (h : ((pattern, elementType), d) ∈ findAll extends? t) :
    IsSubclass pattern elementType d := by
  obtain ⟨s, -, hs⟩ := of_mem_findAll h anchored_extends
  exact (extends?_eq_some_iff.1 hs).1

section Compiling

open PatternEngine (Fault Pattern compile anchored describe)

variable {hits : List ((Text × Text) × Text)} {hit : (Text × Text) × Text}

structure CompiledFrom (hit : (Text × Text) × Text) (p : SubclassPattern) : Prop where
  directive : p.directive = hit.2
  pattern : p.pattern = hit.1.1
  elementType : p.elementType = hit.1.2
  compile_eq : compile (anchored hit.1.1) = .ok p.compiled

theorem compilePatterns_cons_of_error {fault : Fault} (h : compile (anchored hit.1.1) = .error fault) :
    compilePatterns (hit :: hits) = .error (.invalidPattern hit.2 (describe fault)) := by
  obtain ⟨⟨pattern, elementType⟩, directive⟩ := hit
  rw [compilePatterns, h]

theorem compilePatterns_cons_of_ok {r : Pattern} (h : compile (anchored hit.1.1) = .ok r) :
    compilePatterns (hit :: hits) =
      (compilePatterns hits).map (⟨hit.2, hit.1.1, hit.1.2, r⟩ :: ·) := by
  obtain ⟨⟨pattern, elementType⟩, directive⟩ := hit
  rw [compilePatterns, h]
  cases compilePatterns hits <;> rfl

theorem compiledFrom_of_compilePatterns {patterns : List SubclassPattern}
    (h : compilePatterns hits = .ok patterns) : List.Forall₂ CompiledFrom hits patterns := by
  induction hits generalizing patterns with
  | nil =>
    cases h
    exact .nil
  | cons hit hits ih =>
    cases hc : compile (anchored hit.1.1) with
    | error fault =>
      rw [compilePatterns_cons_of_error hc] at h
      cases h
    | ok r =>
      rw [compilePatterns_cons_of_ok hc] at h
      cases hrest : compilePatterns hits with
      | error e =>
        rw [hrest] at h
        cases h
      | ok rest =>
        rw [hrest] at h
        cases h
        exact .cons ⟨rfl, rfl, rfl, hc⟩ (ih hrest)

theorem exists_compilePatterns_iff : (∃ patterns, compilePatterns hits = .ok patterns) ↔
    ∀ hit ∈ hits, ∃ r : Pattern, compile (anchored hit.1.1) = .ok r := by
  induction hits with
  | nil => simp [compilePatterns]
  | cons hit hits ih =>
    rw [List.forall_mem_cons, ← ih]
    cases hc : compile (anchored hit.1.1) with
    | error fault => simp [compilePatterns_cons_of_error hc]
    | ok r =>
      rw [compilePatterns_cons_of_ok hc]
      cases compilePatterns hits <;> simp [Except.map]

/-- The reading stops at the first directive whose text is not compiled. -/
theorem compilePatterns_eq_error_iff {e : Error} : compilePatterns hits = .error e ↔
    ∃ front hit back fault, hits = front ++ hit :: back ∧
      (∀ other ∈ front, ∃ r : Pattern, compile (anchored other.1.1) = .ok r) ∧
      compile (anchored hit.1.1) = .error fault ∧ e = .invalidPattern hit.2 (describe fault) := by
  induction hits with
  | nil => simp [compilePatterns]
  | cons hit hits ih =>
    cases hc : compile (anchored hit.1.1) with
    | error fault =>
      rw [compilePatterns_cons_of_error hc]
      constructor
      · intro h
        cases h
        exact ⟨[], hit, hits, fault, rfl, by simp, hc, rfl⟩
      · rintro ⟨front, other, back, fault', heq, hfront, hfault, rfl⟩
        cases front with
        | nil =>
          cases heq
          cases hc.symm.trans hfault
          rfl
        | cons first front =>
          cases heq
          obtain ⟨r, hr⟩ := hfront _ List.mem_cons_self
          cases hc.symm.trans hr
    | ok r =>
      have hmap : compilePatterns (hit :: hits) = .error e ↔ compilePatterns hits = .error e := by
        rw [compilePatterns_cons_of_ok hc]
        cases compilePatterns hits <;> simp [Except.map]
      rw [hmap, ih]
      constructor
      · rintro ⟨front, other, back, fault, rfl, hfront, hother⟩
        exact ⟨hit :: front, other, back, fault, rfl, List.forall_mem_cons.2 ⟨⟨r, hc⟩, hfront⟩, hother⟩
      · rintro ⟨front, other, back, fault, heq, hfront, hfault, rfl⟩
        cases front with
        | nil =>
          cases heq
          cases hc.symm.trans hfault
        | cons first front =>
          cases heq
          exact ⟨front, other, back, fault, rfl, (List.forall_mem_cons.1 hfront).2, hfault, rfl⟩

end Compiling

end Directives
end OpenGrammar
