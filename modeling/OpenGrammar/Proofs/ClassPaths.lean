import OpenGrammar.Proofs.LayoutPaths
import OpenGrammar.Proofs.Segments

/-! Layouts and class names. The package of a grammar is read from the directories between its
source root and itself, and the files of its classes are found by the package again: both ways
agree for directories whose names have no dot. -/
namespace OpenGrammar
namespace Path

/-! Names joined to a directory -/

theorem start_join_names {segments : List Text} (h : ∀ segment ∈ segments, IsName segment) :
    start (Text.join ['/'] segments) = [] := by
  rw [start_eq_nil_iff]
  refine ⟨isAbsolute_join_names h, ?_⟩
  cases segments with
  | nil => decide
  | cons first rest =>
    rw [splitOn_join_names h (List.cons_ne_nil first rest)]
    intro hfirst
    have hvoid := (h ['.'] (List.mem_of_mem_head? hfirst)).step
    simp [isVoid] at hvoid

theorem names_join_names {segments : List Text} (h : ∀ segment ∈ segments, IsName segment) :
    names (Text.join ['/'] segments) = segments := by
  rw [names_join fun segment hmem => (h segment hmem).slash,
    steps_of_forall fun segment hmem => (h segment hmem).step]

theorem components_join_names {segments : List Text} (h : ∀ segment ∈ segments, IsName segment) :
    components (Text.join ['/'] segments) = segments.map Component.normal := by
  rw [components_eq, start_join_names h, names_join_names h, map_ofSegment h, List.nil_append]

theorem steps_base (directory : Text) : steps (base directory) = names directory := by
  unfold base
  split
  · rename_i hnil
    rw [hnil]
    rfl
  · split
    · rename_i hlast
      obtain ⟨before, rfl⟩ := List.getLast?_eq_some_iff.mp hlast
      rw [List.splitOn_append_cons_self, List.splitOn_nil, List.dropLast_concat,
        names_append_slash]
      exact (List.append_nil _).symm
    · rfl

theorem head?_base_append {directory : Text} {segments : List Text} (h : directory ≠ []) :
    (base directory ++ segments).head? = (directory.splitOn '/').head? := by
  rw [base, if_neg h]
  split
  · rename_i hlast
    obtain ⟨before, rfl⟩ := List.getLast?_eq_some_iff.mp hlast
    rw [List.splitOn_append_cons_self, List.splitOn_nil, List.dropLast_concat,
      List.head?_append_of_ne_nil _ (List.splitOn_ne_nil '/' before),
      List.head?_append_of_ne_nil _ (List.splitOn_ne_nil '/' before)]
  · rw [List.head?_append_of_ne_nil _ (List.splitOn_ne_nil '/' directory)]

theorem names_join_path {directory path : Text} (habs : isAbsolute path = false) :
    names (join directory path) = names directory ++ names path := by
  rw [names, splitOn_join habs, steps_append, steps_base]
  rfl

/-- A path that starts with a name leaves the start of a directory that it is joined to. -/
theorem start_join {directory path : Text} (h : start path = []) :
    start (join directory path) = start directory := by
  obtain ⟨habs, -⟩ := start_eq_nil_iff.mp h
  by_cases hnil : directory = []
  · rw [hnil, nil_join, h]
    rfl
  · rw [start, start, lead, lead, isAbsolute_join_of habs, splitOn_join habs,
      head?_base_append hnil]

/-- Names come behind the components of a directory that they are joined to. -/
theorem components_join {directory : Text} {segments : List Text}
    (h : ∀ segment ∈ segments, IsName segment) :
    components (join directory (Text.join ['/'] segments)) =
      components directory ++ segments.map Component.normal := by
  rw [components_eq, start_join (start_join_names h), names_join_path (isAbsolute_join_names h),
    names_join_names h, List.map_append, map_ofSegment h, ← List.append_assoc, ← components_eq]

/-- A directory is below a root by the given names. A dot at the start of a path is no name. -/
def Below (root directory : Text) (dirs : List Text) : Prop :=
  ∃ dot, (dot = [] ∨ dot = [.current]) ∧
    components directory = components root ++ dot ++ dirs.map Component.normal

end Path

namespace Layout

/-! The directories between a root and a grammar file -/

theorem directoryNames?_eq_none_iff {steps : List Component} :
    directoryNames? steps = none ↔ .root ∈ steps ∨ .parent ∈ steps := by
  induction steps with
  | nil => simp [directoryNames?]
  | cons step steps ih => cases step <;> simp [directoryNames?, ih]

theorem filter_of_directoryNames? {steps : List Component} {dirs : List Text}
    (h : directoryNames? steps = some dirs) :
    steps.filter (· ≠ .current) = dirs.map Component.normal := by
  induction steps generalizing dirs with
  | nil =>
    cases h
    rfl
  | cons step steps ih =>
    cases step with
    | normal name =>
      obtain ⟨rest, hrest, rfl⟩ := Option.map_eq_some_iff.1 h
      simp [← ih hrest]
    | current => simp [← ih h]
    | root => cases h
    | parent => cases h

section Steps

variable {root directory : Text} {steps : List Component}
  (h : Path.components directory = Path.components root ++ steps)
include h

theorem mem_tail_of_mem_tail {step : Component} (hmem : step ∈ steps.tail) :
    step ≠ .root ∧ step ≠ .current := by
  have htail : step ∈ (Path.components directory).tail := by
    rw [h]
    cases Path.components root with
    | nil => exact hmem
    | cons first rest => exact List.mem_append_right _ (List.mem_of_mem_tail hmem)
  exact Path.ne_of_mem_tail htail

theorem head?_eq_root_iff :
    steps.head? = some .root ↔ root = [] ∧ Path.isAbsolute directory = true := by
  rw [← Path.components_eq_nil_iff, ← Path.head?_components_eq_root_iff, h]
  constructor
  · intro hhead
    have hnil : Path.components root = [] := by
      by_contra hne
      have hmem : .root ∈ (Path.components directory).tail := by
        rw [h, List.tail_append_of_ne_nil hne]
        exact List.mem_append_right _ (List.mem_of_mem_head? hhead)
      exact (Path.ne_of_mem_tail hmem).1 rfl
    exact ⟨hnil, by rw [hnil, List.nil_append, hhead]⟩
  · rintro ⟨hnil, hhead⟩
    rwa [hnil, List.nil_append] at hhead

theorem root_mem_iff : .root ∈ steps ↔ steps.head? = some .root := by
  constructor
  · intro hmem
    cases steps with
    | nil => cases hmem
    | cons first rest =>
      rcases List.mem_cons.mp hmem with rfl | hrest
      · rfl
      · exact absurd rfl (mem_tail_of_mem_tail h hrest).1
  · exact List.mem_of_mem_head?

theorem below_of_directoryNames? {dirs : List Text} (hdirs : directoryNames? steps = some dirs) :
    Path.Below root directory dirs := by
  have hfilter := filter_of_directoryNames? hdirs
  cases steps with
  | nil => exact ⟨[], Or.inl rfl, by simp [h, ← hfilter]⟩
  | cons first rest =>
    -- Only the first step can be a dot.
    have hrest : rest.filter (· ≠ .current) = rest :=
      List.filter_eq_self.mpr fun step hmem => decide_eq_true (mem_tail_of_mem_tail h hmem).2
    by_cases hfirst : first = .current
    · rw [List.filter_cons_of_neg (by simp [hfirst]), hrest] at hfilter
      exact ⟨[.current], Or.inr rfl, by rw [h, hfirst, hfilter, List.append_assoc]; rfl⟩
    · rw [List.filter_cons_of_pos (by simp [hfirst]), hrest] at hfilter
      exact ⟨[], Or.inl rfl, by rw [h, hfilter, List.append_nil]⟩

end Steps

theorem dropLast_components {input stem : Text} (h : Path.fileStem? input = some stem) :
    (Path.components input).dropLast = Path.components (Path.directory input) := by
  obtain ⟨name, hname, -⟩ := Option.map_eq_some_iff.1 h
  rw [Path.components_of_fileName? hname, List.dropLast_concat]

/-- The package of a grammar file names the directories between the root and the file. -/
theorem below_of_namesOf {names : GrammarNames} {input root : Text}
    (h : namesOf input root = .ok names) :
    ∃ dirs, Path.Below root (Path.directory input) dirs ∧
      names.package = Text.join ['.'] dirs := by
  obtain ⟨name, steps, dirs, hcomponents, hdirs, rfl⟩ := namesOf_eq_ok h
  exact ⟨dirs, below_of_directoryNames? (Path.components_directory hcomponents) hdirs, rfl⟩

theorem namesOf_eq_error_iff {input root : Text} :
    (∃ error, namesOf input root = .error error) ↔
      Path.fileStem? input = none ∨
      ¬Path.components root <+: Path.components (Path.directory input) ∨
      ∃ steps, Path.components (Path.directory input) = Path.components root ++ steps ∧
        (.parent ∈ steps ∨ steps.head? = some .root) := by
  cases hstem : Path.fileStem? input with
  | none => simp [namesOf, hstem]
  | some stem =>
    rw [namesOf, hstem]
    simp only [dropLast_components hstem, reduceCtorEq, false_or]
    cases hsteps : (Path.components root).isPrefixOf? (Path.components (Path.directory input)) with
    | none =>
      have hbelow : ¬Path.components root <+: Path.components (Path.directory input) := by
        rintro ⟨steps, heq⟩
        rw [List.isPrefixOf?_eq_some_iff_append_eq.2 heq] at hsteps
        cases hsteps
      simp [hbelow]
    | some steps =>
      have heq := (List.isPrefixOf?_eq_some_iff_append_eq.1 hsteps).symm
      have hbelow : Path.components root <+: Path.components (Path.directory input) :=
        ⟨steps, heq.symm⟩
      have hescapes : directoryNames? steps = none ↔ .parent ∈ steps ∨ steps.head? = some .root := by
        rw [directoryNames?_eq_none_iff, root_mem_iff heq, or_comm]
      have hsame : ∀ other, Path.components (Path.directory input) = Path.components root ++ other ↔
          steps = other := by
        intro other
        rw [heq, List.append_cancel_left_eq]
      simp only [hbelow, not_true_eq_false, false_or, hsame, exists_eq_left', ← hescapes]
      cases directoryNames? steps <;> simp

theorem resolve_eq_error_iff {config : Config} {input root outputDir : Text} :
    (∃ error, resolve config input root outputDir = .error error) ↔
      ∃ error, namesOf input root = .error error := by
  unfold resolve
  cases namesOf input root <;> simp [bind, Except.bind, pure, Except.pure]

/-! The files of a layout -/

theorem modulePath_eq {config : Config} {input root outputDir : Text} {layout : Layout}
    (h : resolve config input root outputDir = .ok layout) :
    layout.modulePath =
      Path.join outputDir (layout.names.dispatchModule.relativePath ++ ".kt".toList) := by
  have hproper := proper_of_namesOf (resolve_eq_ok h).1
  have hmodule := isName_moduleName hproper.stem_slash
  obtain ⟨names, -, hlayout⟩ := FileTree.bind_eq_ok.mp h
  cases hlayout
  rw [← simpleName_dispatchModule] at hmodule
  exact (Path.foldl_join_eq hproper.package hmodule).trans
    (congrArg (Path.join outputDir) (Text.join_concat_append _ _ _ _))

section TopLevel

variable {package name : Text}
  (hpackage : ∀ segment ∈ Text.dotSegments package, Path.IsName segment)
include hpackage

theorem components_relativePath (hname : Path.IsName name) :
    Path.components (ClassName.topLevelOf package name).relativePath =
      (Text.dotSegments package).map Component.normal ++ [.normal name] := by
  have hall := Path.forall_isName_concat hpackage hname
  exact (Path.components_join_names hall).trans List.map_append

theorem components_join_relativePath {directory extension : Text}
    (hname : Path.IsName (name ++ extension)) :
    Path.components (Path.join directory
        ((ClassName.topLevelOf package name).relativePath ++ extension)) =
      Path.components directory ++ (Text.dotSegments package).map Component.normal ++
        [.normal (name ++ extension)] := by
  have hall := Path.forall_isName_concat hpackage hname
  have hpath : (ClassName.topLevelOf package name).relativePath ++ extension =
      Text.join ['/'] (Text.dotSegments package ++ [name ++ extension]) :=
    (Text.join_concat_append _ _ _ _).symm
  rw [hpath, Path.components_join hall, List.map_append, List.append_assoc]
  rfl

/-- The path of a top-level class is the same with its segments joined in order. -/
theorem joinAll_relativePath (hname : Path.IsName name) :
    Path.joinAll ((ClassName.topLevelOf package name).relativePath.splitOn '/') =
      (ClassName.topLevelOf package name).relativePath := by
  have hsplit : (ClassName.topLevelOf package name).relativePath.splitOn '/' =
      Text.dotSegments package ++ [name] :=
    Path.splitOn_join_names (Path.forall_isName_concat hpackage hname) (by simp)
  rw [hsplit, Path.joinAll, Path.foldl_join_eq hpackage hname, Path.nil_join]
  rfl

end TopLevel

theorem isName_parserClass {stem : Text} (h : '/' ∉ stem) :
    Path.IsName (Naming.titleCase stem ++ "Parser".toList) := by
  have hslash : '/' ∉ Naming.titleCase stem ++ "Parser".toList := by
    simp [slash_not_mem_titleCase h]
  exact Path.isName_of_last hslash (by simp) (show 'r' ≠ '.' by decide)

theorem parserClassPath_eq {layout : Layout} (h : Proper layout.names) :
    layout.parserOutputs.parserClassPath = layout.names.parserClass.relativePath :=
  joinAll_relativePath h.package (isName_parserClass h.stem_slash)

theorem dotSegments_of_below {root directory : Text} {dirs : List Text}
    (h : Path.Below root directory dirs) (hdots : ∀ dir ∈ dirs, '.' ∉ dir) :
    Text.dotSegments (Text.join ['.'] dirs) = dirs := by
  obtain ⟨dot, -, hcomponents⟩ := h
  refine Text.dotSegments_join fun dir hmem => ⟨?_, hdots dir hmem⟩
  have hdir : .normal dir ∈ Path.components directory := by
    rw [hcomponents]
    exact List.mem_append_right _ (List.mem_map_of_mem hmem)
  exact (Path.isName_of_normal hdir).ne_nil

/-- There is no layout without a file stem, for a directory that does not start like the root, and
for steps from there that lead back up or start over, which is for an absolute path and the empty
root. A layout and the class names of its grammar agree on the directories between the root and the
grammar file. -/
theorem resolve_consistent (config : Config) (input root outputDir : Text) :
    ((∃ error, resolve config input root outputDir = .error error) ↔
      Path.fileStem? input = none ∨
      ¬Path.components root <+: Path.components (Path.directory input) ∨
      ∃ steps, Path.components (Path.directory input) = Path.components root ++ steps ∧
        (.parent ∈ steps ∨ steps.head? = some .root)) ∧
    (Path.fileStem? input ≠ none → ∀ steps,
      Path.components (Path.directory input) = Path.components root ++ steps →
        (steps.head? = some .root ↔ root = [] ∧ Path.isAbsolute input = true)) ∧
    ∀ layout, resolve config input root outputDir = .ok layout →
      ∃ dirs, Path.Below root (Path.directory input) dirs ∧
        layout.names.package = Text.join ['.'] dirs ∧
        layout.modulePath =
          Path.join outputDir (layout.names.dispatchModule.relativePath ++ ".kt".toList) ∧
        ((∀ dir ∈ dirs, '.' ∉ dir) →
          Path.components layout.modulePath =
            Path.components outputDir ++ dirs.map Component.normal ++
              [.normal (layout.names.dispatchModule.simpleName ++ ".kt".toList)] ∧
          Path.components layout.parserOutputs.parserClassPath =
            dirs.map Component.normal ++ [.normal layout.names.parserClass.simpleName]) := by
  refine ⟨resolve_eq_error_iff.trans namesOf_eq_error_iff, ?_, ?_⟩
  · intro hstem steps hsteps
    obtain ⟨stem, hstem⟩ := Option.ne_none_iff_exists'.mp hstem
    obtain ⟨name, hname, -⟩ := Option.map_eq_some_iff.1 hstem
    rw [head?_eq_root_iff hsteps, Path.isAbsolute_directory hname]
  · intro layout h
    have hnames := (resolve_eq_ok h).1
    have hproper := proper_of_namesOf hnames
    obtain ⟨dirs, hbelow, hpackage⟩ := below_of_namesOf hnames
    refine ⟨dirs, hbelow, hpackage, modulePath_eq h, fun hdots => ?_⟩
    have hsegments := dotSegments_of_below hbelow hdots
    rw [← hpackage] at hsegments
    constructor
    · have hmodule := isName_moduleName hproper.stem_slash
      rw [← simpleName_dispatchModule] at hmodule
      rw [modulePath_eq h, ← hsegments]
      exact components_join_relativePath hproper.package hmodule
    · have hparser := isName_parserClass hproper.stem_slash
      rw [parserClassPath_eq hproper, ← hsegments]
      exact components_relativePath hproper.package hparser

theorem resolve_consistent_nested :
    ∃ layout dirs,
      resolve {} "/src/main//./com/example/foo.bnf".toList "/src/main/".toList
        "/build/x".toList = .ok layout ∧
      layout.names.package = Text.join ['.'] dirs ∧
      Path.components layout.modulePath =
        [.root, .normal "build".toList, .normal "x".toList] ++ dirs.map Component.normal ++
          [.normal "FooParserUtil.kt".toList] := by
  obtain ⟨-, -, hok⟩ := resolve_consistent {} "/src/main//./com/example/foo.bnf".toList
    "/src/main/".toList "/build/x".toList
  obtain ⟨layout, h, hfile⟩ : ∃ layout,
      resolve {} "/src/main//./com/example/foo.bnf".toList "/src/main/".toList
        "/build/x".toList = .ok layout ∧
      layout.names.dispatchModule.simpleName ++ ".kt".toList = "FooParserUtil.kt".toList :=
    ⟨_, rfl, by decide +kernel⟩
  obtain ⟨dirs, ⟨dot, -, hbelow⟩, hpackage, -, hplain⟩ := hok layout h
  have hdots : ∀ dir ∈ dirs, '.' ∉ dir := by
    intro dir hmem
    have hdir : .normal dir ∈
        Path.components (Path.directory "/src/main//./com/example/foo.bnf".toList) := by
      rw [hbelow]
      exact List.mem_append_right _ (List.mem_map_of_mem hmem)
    have hall : ∀ step ∈ Path.components (Path.directory "/src/main//./com/example/foo.bnf".toList),
        '.' ∉ step.text := by decide +kernel
    exact hall _ hdir
  obtain ⟨hmodule, -⟩ := hplain hdots
  rw [hfile] at hmodule
  exact ⟨layout, dirs, h, hpackage, hmodule⟩

-- The parts of a dotted name are directories of their own.
example :
    (resolve {} "a.b/foo.bnf".toList [] "out".toList).toOption.map (·.modulePath) =
      some "out/a/b/FooParserUtil.kt".toList := by decide +kernel

end Layout
end OpenGrammar
