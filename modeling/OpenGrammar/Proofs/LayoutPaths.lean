import OpenGrammar.Job
import OpenGrammar.Proofs.Accessors
import OpenGrammar.Proofs.PlainPaths

/-! The paths of a layout, segment by segment. Both outputs are reached through the output
directory, the composed grammar by a name that ends in `.bnf`, and the dispatch module by the
directories of its package and a name that ends in `.kt`. -/
namespace OpenGrammar
namespace Path

/-! Joined paths -/

structure IsName (segment : Text) : Prop where
  slash : '/' ∉ segment
  step : isVoid segment = false
  forward : segment ≠ ['.', '.']

theorem IsName.ne_nil {segment : Text} (h : IsName segment) : segment ≠ [] := by
  rintro rfl
  exact absurd h.step (by decide)

theorem isAbsolute_of_not_mem {segment : Text} (h : '/' ∉ segment) :
    isAbsolute segment = false := by
  cases segment with
  | nil => rfl
  | cons c cs =>
    have hc : c ≠ '/' := fun he => h (by simp [he])
    simp [isAbsolute, hc]

theorem isAbsolute_append {front tail : Text} (hne : front ≠ []) (hslash : '/' ∉ front) :
    isAbsolute (front ++ tail) = false := by
  cases front with
  | nil => exact absurd rfl hne
  | cons c front =>
    have hc : c ≠ '/' := fun he => hslash (by simp [he])
    simp [isAbsolute, hc]

@[simp] theorem nil_join (path : Text) : join [] path = path := by simp [join]

theorem isAbsolute_join_of {directory path : Text} (h : isAbsolute path = false) :
    isAbsolute (join directory path) = isAbsolute directory := by
  cases directory with
  | nil => simpa [join, isAbsolute] using h
  | cons c directory =>
    rw [join, if_neg (by simpa using h)]
    split <;> rfl

def base (directory : Text) : List Text :=
  if directory = [] then []
  else if directory.getLast? = some '/' then (directory.splitOn '/').dropLast
  else directory.splitOn '/'

theorem splitOn_join {directory path : Text} (h : isAbsolute path = false) :
    (join directory path).splitOn '/' = base directory ++ path.splitOn '/' := by
  by_cases hnil : directory = []
  · simp [join, base, h, hnil]
  by_cases hlast : directory.getLast? = some '/'
  · obtain ⟨before, rfl⟩ := List.getLast?_eq_some_iff.mp hlast
    have hjoin : join (before ++ ['/']) path = before ++ '/' :: path := by
      simp [join, h]
    rw [hjoin, List.splitOn_append_cons_self, base, if_neg hnil, if_pos hlast,
      List.splitOn_append_cons_self, List.splitOn_nil, List.dropLast_concat]
  · have hjoin : join directory path = directory ++ '/' :: path := by
      simp [join, h, hnil, hlast]
    rw [hjoin, List.splitOn_append_cons_self, base, if_neg hnil, if_neg hlast]

theorem suffix_join (directory path : Text) : path <:+ join directory path := by
  unfold join
  split
  · exact List.suffix_rfl
  · split
    · exact List.suffix_append _ _
    · exact (List.suffix_cons _ _).trans (List.suffix_append _ _)

section Name

variable {directory name : Text} (hne : name ≠ []) (hslash : '/' ∉ name)
include hne

theorem join_ne_nil : join directory name ≠ [] := by
  intro hnil
  have hsuffix := suffix_join directory name
  rw [hnil, List.suffix_nil] at hsuffix
  exact hne hsuffix

include hslash

theorem getLast?_join_ne : (join directory name).getLast? ≠ some '/' := by
  obtain ⟨before, hbefore⟩ := suffix_join directory name
  rw [← hbefore, List.getLast?_append_of_ne_nil _ hne]
  exact fun he => hslash (List.mem_of_getLast? he)

theorem base_join : base (join directory name) = base directory ++ [name] := by
  rw [base, if_neg (join_ne_nil hne), if_neg (getLast?_join_ne hne hslash),
    splitOn_join (isAbsolute_of_not_mem hslash), List.splitOn_eq_singleton hslash]

theorem join_join {path : Text} (habs : isAbsolute path = false) :
    join (join directory name) path = join directory (name ++ '/' :: path) := by
  have hname : isAbsolute name = false := isAbsolute_of_not_mem hslash
  have hlonger : isAbsolute (name ++ '/' :: path) = false := isAbsolute_append hne hslash
  have hjoin : join (join directory name) path = join directory name ++ '/' :: path := by
    rw [join, if_neg (by simp [habs])]
    simp [join_ne_nil hne, getLast?_join_ne hne hslash]
  rw [hjoin]
  simp only [join, hname, hlonger, Bool.false_eq_true, if_false]
  split <;> simp

end Name

theorem forall_isName_concat {names : List Text} {last : Text} (h : ∀ name ∈ names, IsName name)
    (hlast : IsName last) : ∀ name ∈ names ++ [last], IsName name :=
  List.forall_mem_append.mpr ⟨h, List.forall_mem_singleton.mpr hlast⟩

theorem splitOn_join_names {segments : List Text} (h : ∀ segment ∈ segments, IsName segment)
    (hne : segments ≠ []) : (Text.join ['/'] segments).splitOn '/' = segments :=
  List.splitOn_intercalate '/' (fun segment hmem => (h segment hmem).slash) hne

theorem isAbsolute_join_names {segments : List Text} (h : ∀ segment ∈ segments, IsName segment) :
    isAbsolute (Text.join ['/'] segments) = false := by
  cases segments with
  | nil => rfl
  | cons first rest =>
    have hfirst := h first List.mem_cons_self
    rw [Text.join_cons_eq]
    exact isAbsolute_append hfirst.ne_nil hfirst.slash

/-- Names joined one after the other are joined with slashes between them. -/
theorem foldl_join_eq {directory last : Text} {names : List Text}
    (h : ∀ name ∈ names, IsName name) (hlast : IsName last) :
    (names ++ [last]).foldl join directory =
      join directory (Text.join ['/'] (names ++ [last])) := by
  induction names generalizing directory with
  | nil => simp
  | cons name names ih =>
    have hname := h name List.mem_cons_self
    have hrest : ∀ other ∈ names, IsName other := fun other ho =>
      h other (List.mem_cons_of_mem _ ho)
    have habs := isAbsolute_join_names (forall_isName_concat hrest hlast)
    rw [List.cons_append, List.foldl_cons, ih hrest,
      join_join hname.ne_nil hname.slash habs, Text.join, Text.join,
      List.intercalate_cons_of_ne_nil (by simp), List.append_assoc, List.singleton_append]

/-- Names joined one after the other come behind the segments of the directory. -/
theorem splitOn_foldl_join {directory last : Text} {names : List Text}
    (h : ∀ name ∈ names, IsName name) (hlast : IsName last) :
    ((names ++ [last]).foldl join directory).splitOn '/' = base directory ++ names ++ [last] := by
  have hall := forall_isName_concat h hlast
  rw [foldl_join_eq h hlast, splitOn_join (isAbsolute_join_names hall),
    splitOn_join_names hall (by simp), List.append_assoc]

theorem isAbsolute_foldl_join {directory : Text} {names : List Text}
    (h : ∀ name ∈ names, '/' ∉ name) :
    isAbsolute (names.foldl join directory) = isAbsolute directory := by
  induction names generalizing directory with
  | nil => rfl
  | cons name names ih =>
    rw [List.foldl_cons, ih fun other ho => h other (List.mem_cons_of_mem _ ho),
      isAbsolute_join_of (isAbsolute_of_not_mem (h name List.mem_cons_self))]

theorem exists_splitOn_append (before : Text) {tail : Text} (h : '/' ∉ tail) :
    ∃ above last, '/' ∉ last ∧ (before ++ tail).splitOn '/' = above ++ [last ++ tail] := by
  induction before with
  | nil => exact ⟨[], [], by simp, by simp [List.splitOn_eq_singleton h]⟩
  | cons c before ih =>
    obtain ⟨above, last, hlast, hsplit⟩ := ih
    rw [List.cons_append, List.splitOn_cons_eq_if_modifyHead, hsplit]
    split
    · exact ⟨[] :: above, last, hlast, rfl⟩
    · rename_i hc
      have hslash : '/' ≠ c := fun he => hc (beq_iff_eq.mpr he.symm)
      cases above with
      | nil => exact ⟨[], c :: last, by simp [hslash, hlast], rfl⟩
      | cons first above => exact ⟨(c :: first) :: above, last, hlast, rfl⟩

/-! The parts of a file name -/

theorem isName_of_last {segment : Text} {c : Char} (hs : '/' ∉ segment)
    (hlast : segment.getLast? = some c) (hc : c ≠ '.') : IsName segment := by
  have hne : ∀ dots : Text, dots.getLast? ≠ some c → segment ≠ dots := by
    rintro dots hdots rfl
    exact hdots hlast
  have hnil := hne [] (by simp)
  have hdot := hne ['.'] (by simpa using hc.symm)
  have hdots := hne ['.', '.'] (by simpa using hc.symm)
  exact ⟨hs, by simp [isVoid, hnil, hdot], hdots⟩

theorem stemOf_prefix_self (name : Text) : stemOf name <+: name := by
  unfold stemOf
  split
  · rename_i c before hdrop
    split
    · exact List.prefix_rfl
    · have hsuffix : before <:+ name.reverse :=
        (List.suffix_cons c before).trans (hdrop ▸ List.dropWhile_suffix _)
      simpa using List.reverse_prefix.2 hsuffix
  · exact List.prefix_rfl

theorem stemOf_ne_nil {name : Text} (h : name ≠ []) : stemOf name ≠ [] := by
  unfold stemOf
  split
  · split
    · exact h
    · rename_i hbefore
      simpa using hbefore
  · exact h

theorem isName_of_normal {path name : Text} (h : Component.normal name ∈ components path) :
    IsName name := by
  rw [components_eq, List.mem_append] at h
  obtain ⟨segment, hsegment, heq⟩ := List.mem_map.1 (h.resolve_left (normal_not_mem_start path name))
  obtain ⟨hsplit, hvoid⟩ := List.mem_filter.1 hsegment
  unfold Component.ofSegment at heq
  split at heq
  · cases heq
  · rename_i hne
    cases heq
    exact ⟨slash_not_mem_of_mem_splitOn hsplit, by simpa using hvoid, hne⟩

theorem ofSegment_of_isName {segment : Text} (h : IsName segment) :
    Component.ofSegment segment = .normal segment := if_neg h.forward

theorem map_ofSegment {segments : List Text} (h : ∀ segment ∈ segments, IsName segment) :
    segments.map Component.ofSegment = segments.map Component.normal :=
  List.map_congr_left fun segment hmem => ofSegment_of_isName (h segment hmem)

/-! Names on the way of a path -/

theorem steps_of_forall {segments : List Text} (h : ∀ segment ∈ segments, isVoid segment = false) :
    steps segments = segments := by
  rw [steps, List.filter_eq_self]
  intro segment hmem
  simp [h segment hmem]

theorem ofSegment_injective : Function.Injective Component.ofSegment := by
  intro a b h
  unfold Component.ofSegment at h
  split at h
  · rename_i ha
    split at h
    · rename_i hb
      rw [ha, hb]
    · cases h
  · split at h
    · cases h
    · exact Component.normal.inj h

/-- Paths with the same components have the same names on their way. -/
theorem names_eq_of_components_eq {p q : Text} (h : components p = components q) :
    names p = names q := by
  have hnames : ∀ path : Text,
      (components path).filter (fun c => c ≠ .root ∧ c ≠ .current) =
        (names path).map Component.ofSegment := by
    intro path
    have hstart : (start path).filter (fun c => c ≠ .root ∧ c ≠ .current) = [] := by
      unfold start
      split
      · rfl
      · split <;> rfl
    have hself : ((names path).map Component.ofSegment).filter
        (fun c => c ≠ .root ∧ c ≠ .current) = (names path).map Component.ofSegment := by
      refine List.filter_eq_self.2 fun c hc => decide_eq_true ?_
      obtain ⟨segment, -, rfl⟩ := List.mem_map.1 hc
      exact ofSegment_ne segment
    rw [components_eq, List.filter_append, hstart, hself, List.nil_append]
  have hfilter := congrArg (List.filter fun c => c ≠ .root ∧ c ≠ .current) h
  rw [hnames, hnames] at hfilter
  exact ofSegment_injective.list_map hfilter

theorem exists_splitOn_cons (tail : Text) :
    ∃ first rest, ∀ {front : Text}, '/' ∉ front →
      (front ++ tail).splitOn '/' = (front ++ first) :: rest := by
  cases htail : tail.splitOn '/' with
  | nil => exact absurd htail (List.splitOn_ne_nil '/' tail)
  | cons first rest =>
    refine ⟨first, rest, fun {front} hslash => ?_⟩
    induction front with
    | nil => exact htail
    | cons c front ih =>
      rw [List.mem_cons, not_or] at hslash
      have hc : (c == '/') = false := beq_false_of_ne (Ne.symm hslash.1)
      rw [List.cons_append, List.splitOn_cons_eq_if_modifyHead, ih hslash.2, hc]
      rfl

/-- Two fronts of one ending are told apart by the names of the whole. -/
theorem eq_of_names_append_eq {front other tail : Text} (hf : '/' ∉ front) (ho : '/' ∉ other)
    (hfne : front ≠ []) (hone : other ≠ []) (h : names (front ++ tail) = names (other ++ tail)) :
    front = other := by
  obtain ⟨first, rest, hsplit⟩ := exists_splitOn_cons tail
  have hstep : steps [front ++ first] = steps [other ++ first] := by
    rw [names, names, hsplit hf, hsplit ho, ← List.singleton_append, steps_append,
      ← List.singleton_append (l := rest), steps_append] at h
    exact List.append_cancel_right h
  -- A segment that is not empty and no step is a single dot.
  have hdot : ∀ {segment : Text}, segment ≠ [] → isVoid segment = true → segment = ['.'] := by
    intro segment hne hvoid
    simpa [isVoid, hne] using hvoid
  have hsame : front ++ first = other ++ first := by
    cases hfv : isVoid (front ++ first) with
    | true =>
      cases hov : isVoid (other ++ first) with
      | true => rw [hdot (by simp [hfne]) hfv, hdot (by simp [hone]) hov]
      | false => simp [steps, hfv, hov] at hstep
    | false =>
      cases hov : isVoid (other ++ first) with
      | true => simp [steps, hfv, hov] at hstep
      | false => simpa [steps, hfv, hov] using hstep
  exact List.append_cancel_right hsame

end Path

namespace FileTree

theorem locate_of_names {tree : FileTree} {path step : Text} {first rest : List Text}
    {place : Location} (hsplit : path.splitOn '/' = first ++ step :: rest)
    (hrest : ∀ segment ∈ rest, Path.IsName segment) (hplace : tree.locate path = .ok place) :
    ∃ above, first.foldlM tree.enter (tree.start path) = .ok above ∧
      place = advance above step ++ rest := by
  rw [locate] at hplace
  split at hplace
  · cases hplace
  rw [hsplit, List.foldlM_append] at hplace
  obtain ⟨above, habove, hplace⟩ := bind_eq_ok.mp hplace
  obtain ⟨next, henter, hplace⟩ := bind_eq_ok.mp hplace
  obtain ⟨-, rfl⟩ := enter_eq_ok_iff.mp henter
  have hforward : ['.', '.'] ∉ rest := fun hmem => (hrest _ hmem).forward rfl
  have hsteps : Path.steps rest = rest :=
    Path.steps_of_forall fun segment hmem => (hrest segment hmem).step
  exact ⟨above, habove, by rw [foldlM_enter_eq_ok hforward hplace, hsteps]⟩

end FileTree

namespace Layout

def outputs (layout : Layout) : List Text := [layout.grammarPath, layout.modulePath]

def moduleName (stem : Text) : Text := Naming.titleCase stem ++ "ParserUtil.kt".toList

theorem simpleName_dispatchModule (names : GrammarNames) :
    names.dispatchModule.simpleName ++ ".kt".toList = moduleName names.stem := by
  simp [GrammarNames.dispatchModule, ClassName.topLevelOf, ClassName.simpleName,
    GrammarNames.title, moduleName]

/-- The stem and the package of a grammar file follow from its steps below the root. -/
theorem namesOf_eq_ok {names : GrammarNames} {input root : Text}
    (h : namesOf input root = .ok names) :
    ∃ name steps dirs,
      Path.components input = Path.components root ++ steps ++ [.normal name] ∧
        directoryNames? steps = some dirs ∧
        names = ⟨Text.join ['.'] dirs, Path.stemOf name⟩ := by
  unfold namesOf at h
  split at h
  · cases h
  rename_i stem hstem
  obtain ⟨name, hname, rfl⟩ := Option.map_eq_some_iff.1 hstem
  obtain ⟨above, habove⟩ := Path.fileName?_eq_some_iff.1 hname
  split at h
  · cases h
  rename_i steps hsteps
  split at h
  · cases h
  rename_i dirs hdirs
  rw [habove, List.dropLast_concat] at hsteps
  refine ⟨name, steps, dirs, ?_, hdirs, (Except.ok.inj h).symm⟩
  rw [habove, ← List.isPrefixOf?_eq_some_iff_append_eq.1 hsteps]

theorem normal_mem_of_directoryNames? {steps : List Component} {dirs : List Text} {dir : Text}
    (h : directoryNames? steps = some dirs) (hdir : dir ∈ dirs) : .normal dir ∈ steps := by
  induction steps generalizing dirs with
  | nil =>
    cases h
    cases hdir
  | cons step steps ih =>
    cases step with
    | normal name =>
      obtain ⟨rest, hrest, rfl⟩ := Option.map_eq_some_iff.1 h
      rcases List.mem_cons.1 hdir with rfl | hmem
      · exact List.mem_cons_self
      · exact List.mem_cons_of_mem _ (ih hrest hmem)
    | current => exact List.mem_cons_of_mem _ (ih h hdir)
    | root => cases h
    | parent => cases h

/-- What is known of the names of a grammar file. -/
structure Proper (names : GrammarNames) : Prop where
  stem_ne_nil : names.stem ≠ []
  stem_slash : '/' ∉ names.stem
  package : ∀ segment ∈ Text.dotSegments names.package, Path.IsName segment

theorem proper_of_namesOf {names : GrammarNames} {input root : Text}
    (h : namesOf input root = .ok names) : Proper names := by
  obtain ⟨name, steps, dirs, hsplit, hdirs, rfl⟩ := namesOf_eq_ok h
  have hname : Path.IsName name := Path.isName_of_normal (by rw [hsplit]; simp)
  refine ⟨Path.stemOf_ne_nil hname.ne_nil, ?_, ?_⟩
  · exact fun hm => hname.slash ((Path.stemOf_prefix_self name).subset hm)
  · intro segment hmem
    obtain ⟨hsegment, hempty⟩ := List.mem_filter.1 hmem
    obtain ⟨hdot, hsubset⟩ := Text.of_mem_splitOn hsegment
    have hdots : segment ≠ ['.'] ∧ segment ≠ ['.', '.'] :=
      ⟨fun he => hdot (by simp [he]), fun he => hdot (by simp [he])⟩
    refine ⟨fun hslash => ?_, by simpa [Path.isVoid, hdots.1] using hempty, hdots.2⟩
    rcases Text.mem_join (hsubset hslash) with hm | ⟨dir, hdir, hm⟩
    · simp at hm
    · have hstep : .normal dir ∈ Path.components input := by
        rw [hsplit]
        simp [normal_mem_of_directoryNames? hdirs hdir]
      exact (Path.isName_of_normal hstep).slash hm

theorem slash_not_mem_titleCase {stem : Text} (h : '/' ∉ stem) : '/' ∉ Naming.titleCase stem := by
  cases stem with
  | nil => simp [Naming.titleCase]
  | cons c cs =>
    rw [List.mem_cons, not_or] at h
    rw [Naming.titleCase, List.mem_append, not_or]
    refine ⟨fun hm => ?_, h.2⟩
    exact h.1 (Text.eq_of_mem_uppercase (by decide) (by decide) hm).symm

theorem isName_moduleName {stem : Text} (h : '/' ∉ stem) : Path.IsName (moduleName stem) := by
  have hslash : '/' ∉ moduleName stem := by simp [moduleName, slash_not_mem_titleCase h]
  have hlast : (moduleName stem).getLast? = some 't' := by simp [moduleName]
  exact Path.isName_of_last hslash hlast (by decide)

/-- The segments of the outputs of a layout. -/
structure Segments (config : Config) (layout : Layout) : Prop where
  absolute : ∀ p ∈ layout.outputs, Path.isAbsolute p = Path.isAbsolute layout.outputDir
  grammar : layout.grammarPath.splitOn '/' = Path.base layout.outputDir ++
    (layout.names.stem ++ config.generatedSuffix ++ ".bnf".toList).splitOn '/'
  module : layout.modulePath.splitOn '/' = Path.base layout.outputDir ++
    Text.dotSegments layout.names.package ++ [moduleName layout.names.stem]

theorem resolve_eq_ok {config : Config} {input root outputDir : Text} {layout : Layout}
    (h : resolve config input root outputDir = .ok layout) :
    namesOf input root = .ok layout.names ∧ layout.input = input ∧
      layout.outputDir = outputDir ∧ Segments config layout := by
  unfold resolve at h
  cases hnames : namesOf input root with
  | error error =>
    rw [hnames] at h
    cases h
  | ok names =>
    rw [hnames] at h
    cases h
    have hproper := proper_of_namesOf hnames
    have hgrammar : Path.isAbsolute
        (names.stem ++ config.generatedSuffix ++ ".bnf".toList) = false := by
      rw [List.append_assoc]
      exact Path.isAbsolute_append hproper.stem_ne_nil hproper.stem_slash
    have hmodule := simpleName_dispatchModule names
    have hname := isName_moduleName hproper.stem_slash
    have hslash : ∀ segment ∈ Text.dotSegments names.package ++ [moduleName names.stem],
        '/' ∉ segment := by
      intro segment hmem
      rcases List.mem_append.1 hmem with hmem | hmem
      · exact (hproper.package segment hmem).slash
      · exact List.mem_singleton.1 hmem ▸ hname.slash
    refine ⟨rfl, rfl, rfl, ?_, Path.splitOn_join hgrammar, ?_⟩
    · intro p hp
      rcases List.mem_pair.1 hp with rfl | rfl
      · exact Path.isAbsolute_join_of hgrammar
      · rw [hmodule]
        exact Path.isAbsolute_foldl_join hslash
    · rw [hmodule]
      exact Path.splitOn_foldl_join hproper.package hname

theorem exists_bnfName (front : Text) :
    ∃ above name, (front ++ ".bnf".toList).splitOn '/' = above ++ [name] ∧
      Path.IsName name ∧ ".bnf".toList <:+ name := by
  obtain ⟨above, last, hlast, hsplit⟩ :=
    Path.exists_splitOn_append front (show '/' ∉ ".bnf".toList by decide)
  refine ⟨above, last ++ ".bnf".toList, hsplit, ?_, List.suffix_append _ _⟩
  exact Path.isName_of_last (by simp [hlast]) (by simp) (show 'f' ≠ '.' by decide)

theorem exists_grammarName {config : Config} {layout : Layout} (h : Segments config layout) :
    ∃ above name, layout.grammarPath.splitOn '/' = Path.base layout.outputDir ++ above ++ [name] ∧
      Path.IsName name ∧ ".bnf".toList <:+ name := by
  obtain ⟨above, name, hsplit, hname⟩ :=
    exists_bnfName (layout.names.stem ++ config.generatedSuffix)
  refine ⟨above, name, ?_, hname⟩
  rw [h.grammar, hsplit, List.append_assoc]

/-- An output without steps back up has a plain path. -/
theorem plain_of_forward {config : Config} {layout : Layout} (h : Segments config layout)
    (hproper : Proper layout.names) {p : Text} (hp : p ∈ layout.outputs)
    (hforward : ['.', '.'] ∉ p.splitOn '/') : Path.Plain p := by
  obtain ⟨above, name, hsplit, hname⟩ :
      ∃ above name, p.splitOn '/' = above ++ [name] ∧ Path.IsName name := by
    rcases List.mem_pair.1 hp with rfl | rfl
    · obtain ⟨above, name, hsplit, hname, -⟩ := exists_grammarName h
      exact ⟨_, name, hsplit, hname⟩
    · exact ⟨_, _, h.module, isName_moduleName hproper.stem_slash⟩
  refine ⟨hforward, fun last hlast => ?_⟩
  obtain rfl : name = last := by simpa [hsplit] using hlast
  exact hname.step

theorem not_bnf_moduleName (stem : Text) : ¬ ".bnf".toList <:+ moduleName stem := by
  rintro ⟨before, h⟩
  have hlast := congrArg List.getLast? h
  simp [moduleName] at hlast

end Layout
end OpenGrammar
