import OpenGrammar.Run
import OpenGrammar.Proofs.Artifacts
import OpenGrammar.Proofs.LayoutPaths

/-! When the outputs of two grammars of one build meet. The directory of a grammar's outputs
is named by its task, and a task name does not tell a slash from a low line: two grammars
share their composed grammar file exactly if they have one stem and their directories read
the same with low lines for slashes. All other pairs have files of their own. -/
namespace OpenGrammar

/-! Title case -/

namespace Text

theorem uppercaseSpecial_others :
    ∀ entry ∈ uppercaseSpecial,
      entry.2 ≠ [] ∧ entry.1 ∉ entry.2 ∧ ∀ n ∈ entry.2, n.isValidChar := by
  decide

theorem uppercase_ne_nil (c : Char) : uppercase c ≠ [] := by
  unfold uppercase
  split
  · simp
  · split
    · rename_i entry hfind
      simpa using (uppercaseSpecial_others entry (List.mem_of_find?_eq_some hfind)).1
    · simp

theorem uppercase_eq_of_mem {c : Char} (h : c ∈ uppercase c) : uppercase c = [c] := by
  unfold uppercase at h ⊢
  split
  · rename_i hascii
    rw [if_pos hascii, List.mem_singleton] at h
    rw [← h]
  · rename_i hascii
    rw [if_neg hascii] at h
    split
    · rename_i entry hfind
      rw [hfind] at h
      obtain ⟨n, hn, hc⟩ := List.mem_map.1 h
      obtain ⟨-, hother, hvalid⟩ :=
        uppercaseSpecial_others entry (List.mem_of_find?_eq_some hfind)
      have hkey : entry.1 = c.toNat := by simpa using List.find?_some hfind
      have hcode : n = c.toNat := by
        have hof : Char.ofNat n = Char.ofNatAux n (hvalid n hn) := dif_pos (hvalid n hn)
        exact congrArg Char.toNat (hof.symm.trans hc)
      exact absurd (hkey ▸ hcode ▸ hn) hother
    · rename_i hfind
      rw [hfind] at h
      rw [← List.mem_singleton.1 h]

end Text

namespace Naming

theorem eq_of_titleCase_eq {short long : Text} (hne : short ≠ []) (hsuffix : short <:+ long)
    (h : titleCase short = titleCase long) : short = long := by
  obtain ⟨front, rfl⟩ := hsuffix
  cases front with
  | nil => rfl
  | cons d front =>
    cases short with
    | nil => exact absurd rfl hne
    | cons c short =>
      have hupper : Text.uppercase c = Text.uppercase d ++ front ++ [c] := by
        have happend : Text.uppercase c ++ short =
            (Text.uppercase d ++ front ++ [c]) ++ short := by
          simpa [titleCase] using h
        exact List.append_cancel_right happend
      have hone := Text.uppercase_eq_of_mem (hupper ▸ List.mem_append_right _ List.mem_cons_self)
      rw [hone] at hupper
      have hlength := congrArg List.length hupper
      have hpos := List.length_pos_of_ne_nil (Text.uppercase_ne_nil d)
      simp at hlength
      omega

end Naming

namespace GrammarFile

/-! Task names -/

/-- The directories between a root and a grammar file, as a task name spells them. -/
def directories (root : Text) (file : GrammarFile) : List Text :=
  ((Path.below? root file.path).getD []).dropLast.map Component.text

theorem taskSegments_concat (steps : List Component) (last : Component) :
    taskSegments (steps ++ [last]) = steps.map Component.text ++ [withoutExtension last] := by
  induction steps with
  | nil => rfl
  | cons step steps ih =>
    cases steps with
    | nil => rfl
    | cons next steps =>
      have hstep : taskSegments (step :: (next :: steps ++ [last])) =
          step.text :: taskSegments (next :: steps ++ [last]) := rfl
      rw [List.cons_append, hstep, ih]
      rfl

def taskStem (stem : Text) : Text := if stem = ['.'] then ['.', '.'] else stem

theorem suffix_taskStem (stem : Text) : stem <:+ taskStem stem := by
  unfold taskStem
  split
  · rename_i hdot
    rw [hdot]
    exact List.suffix_cons _ _
  · exact List.suffix_rfl

theorem isVoid_taskStem {stem : Text} (h : stem ≠ []) : Path.isVoid (taskStem stem) = false := by
  unfold taskStem
  split
  · rfl
  · rename_i hdot
    simp [Path.isVoid, h, hdot]

/-- Where the outputs of a grammar file are, from the directory of all outputs on. -/
structure Placed (config : Config) (root buildDir : Text) (file : GrammarFile) (layout : Layout) :
    Prop where
  stem : Path.fileStem? file.path = some layout.names.stem
  proper : Layout.Proper layout.names
  directory : ∀ dir ∈ file.directories root, dir ≠ [] ∧ '/' ∉ dir
  top : file.directories root = [] → Text.dotSegments layout.names.package = []
  taskName : file.taskName =
    Text.join ['_'] (file.directories root ++ [taskStem layout.names.stem])
  absolute : ∀ p ∈ layout.outputs, Path.isAbsolute p = Path.isAbsolute (outputsRoot buildDir)
  grammar : layout.grammarPath.splitOn '/' = Path.base (outputsRoot buildDir) ++
    file.taskName :: (layout.names.stem ++ config.generatedSuffix ++ ".bnf".toList).splitOn '/'
  module : layout.modulePath.splitOn '/' = Path.base (outputsRoot buildDir) ++
    file.taskName :: (Text.dotSegments layout.names.package ++
      [Layout.moduleName layout.names.stem])

theorem join_ne_nil {parts : List Text} (h : ∀ part ∈ parts, part ≠ []) (hne : parts ≠ []) :
    Text.join ['_'] parts ≠ [] := by
  cases parts with
  | nil => exact absurd rfl hne
  | cons part parts =>
    by_cases hnil : parts = []
    · simpa [Text.join, hnil] using h part (by simp)
    · simp [Text.join, List.intercalate_cons_of_ne_nil hnil]

theorem join_concat_eq_iff {parts others : List Text} (hp : ∀ part ∈ parts, part ≠ [])
    (ho : ∀ part ∈ others, part ≠ []) (last : Text) :
    Text.join ['_'] (parts ++ [last]) = Text.join ['_'] (others ++ [last]) ↔
      Text.join ['_'] parts = Text.join ['_'] others := by
  have hlone : Text.join ['_'] ([] ++ [last]) = last := by simp [Text.join]
  have hlonger : ∀ front : Text, last ≠ front ++ ['_'] ++ last := by
    intro front heq
    have hlength := congrArg List.length heq
    simp only [List.length_append, List.length_singleton] at hlength
    omega
  by_cases hnil : parts = []
  · by_cases hnone : others = []
    · simp [hnil, hnone]
    · rw [hnil, hlone, Text.join_concat hnone]
      exact iff_of_false (hlonger _) (join_ne_nil ho hnone).symm
  · by_cases hnone : others = []
    · rw [hnone, hlone, Text.join_concat hnil]
      exact iff_of_false (hlonger _).symm (join_ne_nil hp hnil)
    · rw [Text.join_concat hnil, Text.join_concat hnone, List.append_left_inj, List.append_left_inj]

theorem suffix_join_concat (parts : List Text) (last : Text) :
    last <:+ Text.join ['_'] (parts ++ [last]) := by
  by_cases hnil : parts = []
  · simp [hnil, Text.join]
  · rw [Text.join_concat hnil]
    exact List.suffix_append _ _

theorem mem_of_directoryNames? {steps : List Component} {dirs : List Text}
    (h : Layout.directoryNames? steps = some dirs) {step : Component} (hstep : step ∈ steps) :
    step = .current ∨ ∃ name, step = .normal name := by
  induction steps generalizing dirs with
  | nil => cases hstep
  | cons first steps ih =>
    rcases List.mem_cons.1 hstep with rfl | hmem
    · cases step with
      | normal name => exact Or.inr ⟨name, rfl⟩
      | current => exact Or.inl rfl
      | root => cases h
      | parent => cases h
    · cases first with
      | normal name =>
        obtain ⟨rest, hrest, -⟩ := Option.map_eq_some_iff.1 h
        exact ih hrest hmem
      | current => exact ih h hmem
      | root => cases h
      | parent => cases h

section Placed

variable {config : Config} {root buildDir : Text} {file : GrammarFile} {layout : Layout}

theorem slash_not_mem_taskName (hdirs : ∀ dir ∈ file.directories root, '/' ∉ dir)
    {stem : Text} (hstem : '/' ∉ stem)
    (h : file.taskName = Text.join ['_'] (file.directories root ++ [taskStem stem])) :
    '/' ∉ file.taskName := by
  intro hm
  rw [h] at hm
  rcases Text.mem_join hm with hm | ⟨part, hpart, hm⟩
  · simp at hm
  · rcases List.mem_append.1 hpart with hdir | hlast
    · exact hdirs part hdir hm
    · rw [List.mem_singleton] at hlast
      rw [hlast, taskStem] at hm
      split at hm
      · simp at hm
      · exact hstem hm

theorem ofPath_eq_ok {path : Text} (h : ofPath path root = .ok file) :
    file.path = path ∧ ∃ steps, Path.below? root path = some steps ∧
      file.taskName = Text.join ['_'] (taskSegments steps) := by
  unfold ofPath at h
  split at h
  · cases h
  · cases h
  · rename_i steps hne hsteps
    cases h
    exact ⟨rfl, steps, hsteps, rfl⟩

theorem withoutExtension_normal (name : Text) :
    withoutExtension (.normal name) = taskStem (Path.stemOf name) := rfl

theorem placed_of_layout (hfile : ofPath file.path root = .ok file)
    (hlayout : (file.job root buildDir).layout config = .ok layout) :
    Placed config root buildDir file layout := by
  obtain ⟨hnames, -, houtput, hsegments⟩ := Layout.resolve_eq_ok hlayout
  obtain ⟨name, steps, dirs, hsplit, hdirs, hnamesEq⟩ := Layout.namesOf_eq_ok hnames
  have hproper := Layout.proper_of_namesOf hnames
  change Path.components file.path = Path.components root ++ steps ++ [.normal name] at hsplit
  have hbelow : Path.below? root file.path = some (steps ++ [.normal name]) := by
    rw [Path.below?, List.isPrefixOf?_eq_some_iff_append_eq]
    simpa using hsplit.symm
  have hdirectories : file.directories root = steps.map Component.text := by
    simp [directories, hbelow]
  have hstem : layout.names.stem = Path.stemOf name := by rw [hnamesEq]
  have htask : file.taskName =
      Text.join ['_'] (file.directories root ++ [taskStem layout.names.stem]) := by
    obtain ⟨-, steps', hsteps', htask⟩ := ofPath_eq_ok hfile
    obtain rfl : steps' = steps ++ [.normal name] := by simpa [hbelow] using hsteps'.symm
    rw [htask, taskSegments_concat, withoutExtension_normal, hdirectories, hstem]
  have hdirectory : ∀ dir ∈ file.directories root, dir ≠ [] ∧ '/' ∉ dir := by
    intro dir hdir
    rw [hdirectories] at hdir
    obtain ⟨step, hstep, rfl⟩ := List.mem_map.1 hdir
    rcases mem_of_directoryNames? hdirs hstep with rfl | ⟨other, rfl⟩
    · simp [Component.text]
    · have hmem : .normal other ∈ Path.components file.path := by
        rw [hsplit]
        simp [hstep]
      have hother := Path.isName_of_normal hmem
      exact ⟨hother.ne_nil, hother.slash⟩
  have hslash : '/' ∉ file.taskName :=
    slash_not_mem_taskName (fun dir hdir => (hdirectory dir hdir).2) hproper.stem_slash htask
  have hne : file.taskName ≠ [] := by
    intro hnil
    have hsuffix := suffix_join_concat (file.directories root) (taskStem layout.names.stem)
    rw [← htask, hnil, List.suffix_nil] at hsuffix
    have hvoid := isVoid_taskStem hproper.stem_ne_nil
    rw [hsuffix] at hvoid
    cases hvoid
  have hbase : Path.base layout.outputDir =
      Path.base (outputsRoot buildDir) ++ [file.taskName] := by
    rw [houtput]
    exact Path.base_join hne hslash
  refine ⟨?_, hproper, hdirectory, fun htop => ?_, htask, fun p hp => ?_, ?_, ?_⟩
  · simp [Path.fileStem?, Path.fileName?, hsplit, hstem]
  · rw [hdirectories, List.map_eq_nil_iff] at htop
    subst htop
    obtain rfl : dirs = [] := by simpa [Layout.directoryNames?] using hdirs.symm
    rw [hnamesEq]
    rfl
  · rw [hsegments.absolute p hp, houtput]
    exact Path.isAbsolute_join_of (Path.isAbsolute_of_not_mem hslash)
  · rw [hsegments.grammar, hbase]
    simp
  · rw [hsegments.module, hbase]
    simp

theorem Placed.suffix_taskName (h : Placed config root buildDir file layout) :
    layout.names.stem <:+ file.taskName := by
  rw [h.taskName]
  exact (suffix_taskStem _).trans (suffix_join_concat _ _)

theorem Placed.lowLine_mem_taskName (h : Placed config root buildDir file layout)
    (hdirs : file.directories root ≠ []) : '_' ∈ file.taskName := by
  rw [h.taskName, Text.join_concat hdirs]
  simp

theorem Placed.isVoid_taskName (h : Placed config root buildDir file layout) :
    Path.isVoid file.taskName = false := by
  by_cases hdirs : file.directories root = []
  · have htask : file.taskName = taskStem layout.names.stem := by
      simp [h.taskName, hdirs, Text.join]
    rw [htask]
    exact isVoid_taskStem h.proper.stem_ne_nil
  · have hmem := h.lowLine_mem_taskName hdirs
    have hnil : file.taskName ≠ [] := List.ne_nil_of_mem hmem
    have hdot : file.taskName ≠ ['.'] := fun he => by simp [he] at hmem
    simp [Path.isVoid, hnil, hdot]

/-- Names of files with one stem agree exactly if their directories read the same. -/
theorem Placed.taskName_eq_iff {other : GrammarFile} {otherLayout : Layout}
    (h : Placed config root buildDir file layout)
    (ho : Placed config root buildDir other otherLayout)
    (hstem : layout.names.stem = otherLayout.names.stem) :
    file.taskName = other.taskName ↔
      Text.join ['_'] (file.directories root) = Text.join ['_'] (other.directories root) := by
  rw [h.taskName, ho.taskName, hstem]
  exact join_concat_eq_iff (fun dir hdir => (h.directory dir hdir).1)
    (fun dir hdir => (ho.directory dir hdir).1) _

/-! Where outputs meet -/

theorem Placed.names_grammarPath (h : Placed config root buildDir file layout) :
    Path.names layout.grammarPath = Path.steps (Path.base (outputsRoot buildDir)) ++
      file.taskName ::
        Path.names (layout.names.stem ++ (config.generatedSuffix ++ ".bnf".toList)) := by
  have htask : Path.steps [file.taskName] = [file.taskName] :=
    Path.steps_of_forall (by simpa using h.isVoid_taskName)
  rw [Path.names, h.grammar, Path.steps_append, ← List.singleton_append, Path.steps_append, htask,
    List.append_assoc layout.names.stem]
  rfl

theorem Placed.names_modulePath (h : Placed config root buildDir file layout) :
    Path.names layout.modulePath = Path.steps (Path.base (outputsRoot buildDir)) ++
      file.taskName :: (Text.dotSegments layout.names.package ++
        [Layout.moduleName layout.names.stem]) := by
  rw [Path.names, h.module, Path.steps_append]
  congr 1
  refine Path.steps_of_forall fun segment hmem => ?_
  rcases List.mem_cons.1 hmem with rfl | hmem
  · exact h.isVoid_taskName
  rcases List.mem_append.1 hmem with hmem | hmem
  · exact (h.proper.package segment hmem).step
  · rw [List.mem_singleton.1 hmem]
    exact (Layout.isName_moduleName h.proper.stem_slash).step

theorem Placed.stem_eq_of_moduleName_eq {other : GrammarFile} {otherLayout : Layout}
    (h : Placed config root buildDir file layout)
    (ho : Placed config root buildDir other otherLayout) (htask : file.taskName = other.taskName)
    (hmodule : Layout.moduleName layout.names.stem = Layout.moduleName otherLayout.names.stem) :
    layout.names.stem = otherLayout.names.stem := by
  have htitle : Naming.titleCase layout.names.stem = Naming.titleCase otherLayout.names.stem :=
    List.append_cancel_right hmodule
  have hsuffix := h.suffix_taskName
  rw [htask] at hsuffix
  rcases List.suffix_or_suffix_of_suffix hsuffix ho.suffix_taskName with hs | hs
  · exact Naming.eq_of_titleCase_eq h.proper.stem_ne_nil hs htitle
  · exact (Naming.eq_of_titleCase_eq ho.proper.stem_ne_nil hs htitle.symm).symm

theorem bnf_suffix_of_names {front last : Text} {above : List Text}
    (h : Path.names (front ++ ".bnf".toList) = above ++ [last]) : ".bnf".toList <:+ last := by
  obtain ⟨before, name, hsplit, hname, hbnf⟩ := Layout.exists_bnfName front
  have hlast : Path.steps [name] = [name] := Path.steps_of_forall (by simpa using hname.step)
  rw [Path.names, hsplit, Path.steps_append, hlast] at h
  rw [← List.singleton_inj.1 (List.append_inj_right' h rfl)]
  exact hbnf

theorem Placed.grammar_ne_module {other : GrammarFile} {otherLayout : Layout}
    (h : Placed config root buildDir file layout)
    (ho : Placed config root buildDir other otherLayout) :
    Path.names layout.grammarPath ≠ Path.names otherLayout.modulePath := by
  intro heq
  rw [h.names_grammarPath, ho.names_modulePath, List.append_cancel_left_eq, List.cons.injEq,
    ← List.append_assoc] at heq
  exact Layout.not_bnf_moduleName _ (bnf_suffix_of_names heq.2)

/-- Two grammar files share no output, unless task name and stem are the same. -/
theorem Placed.names_ne {other : GrammarFile} {otherLayout : Layout}
    (h : Placed config root buildDir file layout)
    (ho : Placed config root buildDir other otherLayout)
    (hne : ¬(file.taskName = other.taskName ∧ layout.names.stem = otherLayout.names.stem)) :
    ∀ p ∈ layout.outputs, ∀ q ∈ otherLayout.outputs, Path.names p ≠ Path.names q := by
  intro p hp q hq heq
  rcases List.mem_pair.1 hp with rfl | rfl
  · rcases List.mem_pair.1 hq with rfl | rfl
    · rw [h.names_grammarPath, ho.names_grammarPath, List.append_cancel_left_eq,
        List.cons.injEq] at heq
      exact hne ⟨heq.1, Path.eq_of_names_append_eq h.proper.stem_slash ho.proper.stem_slash
        h.proper.stem_ne_nil ho.proper.stem_ne_nil heq.2⟩
    · exact h.grammar_ne_module ho heq
  · rcases List.mem_pair.1 hq with rfl | rfl
    · exact ho.grammar_ne_module h heq.symm
    · rw [h.names_modulePath, ho.names_modulePath, List.append_cancel_left_eq,
        List.cons.injEq] at heq
      have hmodule := List.singleton_inj.1 (List.append_inj_right' heq.2 rfl)
      exact hne ⟨heq.1, h.stem_eq_of_moduleName_eq ho heq.1 hmodule⟩

/-- With a suffix that holds no slash, each output is reached from the directory of the task
by names, and by a single one where the task is not below other directories. -/
theorem Placed.exists_rest (h : Placed config root buildDir file layout)
    (hsuffix : '/' ∉ config.generatedSuffix) {p : Text} (hp : p ∈ layout.outputs) :
    ∃ rest, p.splitOn '/' = Path.base (outputsRoot buildDir) ++ file.taskName :: rest ∧
      (∀ segment ∈ rest, Path.IsName segment) ∧ rest ≠ [] ∧
      (file.directories root = [] → rest.length = 1) := by
  rcases List.mem_pair.1 hp with rfl | rfl
  · have hslash : '/' ∉ layout.names.stem ++ config.generatedSuffix ++ ".bnf".toList := by
      simp [h.proper.stem_slash, hsuffix]
    refine ⟨_, h.grammar, ?_, ?_, fun _ => ?_⟩
    · intro segment hmem
      rw [List.splitOn_eq_singleton hslash, List.mem_singleton] at hmem
      rw [hmem]
      exact Path.isName_of_last hslash (by simp) (show 'f' ≠ '.' by decide)
    · exact List.splitOn_ne_nil _ _
    · rw [List.splitOn_eq_singleton hslash]
      rfl
  · refine ⟨_, h.module, ?_, by simp, fun htop => by simp [h.top htop]⟩
    intro segment hmem
    rcases List.mem_append.1 hmem with hmem | hmem
    · exact h.proper.package segment hmem
    · rw [List.mem_singleton.1 hmem]
      exact Layout.isName_moduleName h.proper.stem_slash

/-! Where outputs lead to -/

/-- From one directory, two tasks and what is below them lead to different locations. A step
back up is a task only where a single name follows. -/
theorem Placed.eq_of_advance_eq {other : GrammarFile} {otherLayout : Layout}
    (h : Placed config root buildDir file layout)
    (ho : Placed config root buildDir other otherLayout) {above : Location}
    {rest otherRest : List Text} (hotherNe : otherRest ≠ []) (hne : rest ≠ [])
    (hlone : file.directories root = [] → rest.length = 1)
    (hotherLone : other.directories root = [] → otherRest.length = 1)
    (heq : FileTree.advance above file.taskName ++ rest =
      FileTree.advance above other.taskName ++ otherRest) :
    file.taskName = other.taskName ∧ rest = otherRest := by
  have hback : ∀ {task : Text}, task = ['.', '.'] → '_' ∉ task := by
    rintro task rfl
    decide
  have hlength := congrArg List.length heq
  have hpos := List.length_pos_of_ne_nil hne
  have hotherPos := List.length_pos_of_ne_nil hotherNe
  by_cases hdots : file.taskName = ['.', '.']
  · have hone : rest.length = 1 := hlone (by_contra fun hdirs =>
      hback hdots (h.lowLine_mem_taskName hdirs))
    by_cases hotherDots : other.taskName = ['.', '.']
    · rw [hdots, hotherDots] at heq
      exact ⟨hdots.trans hotherDots.symm, List.append_cancel_left heq⟩
    · rw [hdots, FileTree.advance_of_ne hotherDots,
        Path.steps_of_forall (by simpa using ho.isVoid_taskName)] at hlength
      simp [FileTree.advance, Path.isVoid] at hlength
      omega
  · rw [FileTree.advance_of_ne hdots, Path.steps_of_forall (by simpa using h.isVoid_taskName)]
      at heq hlength
    by_cases hotherDots : other.taskName = ['.', '.']
    · have hone : otherRest.length = 1 := hotherLone (by_contra fun hdirs =>
        hback hotherDots (ho.lowLine_mem_taskName hdirs))
      rw [hotherDots] at hlength
      simp [FileTree.advance, Path.isVoid] at hlength
      omega
    · rw [FileTree.advance_of_ne hotherDots,
        Path.steps_of_forall (by simpa using ho.isVoid_taskName), List.append_assoc,
        List.append_assoc, List.append_cancel_left_eq] at heq
      exact List.cons.inj heq

theorem Placed.locate_ne {other : GrammarFile} {otherLayout : Layout}
    (h : Placed config root buildDir file layout)
    (ho : Placed config root buildDir other otherLayout)
    (hsuffix : '/' ∉ config.generatedSuffix) {p q : Text} (hp : p ∈ layout.outputs)
    (hq : q ∈ otherLayout.outputs) (hne : Path.names p ≠ Path.names q) {tree : FileTree}
    {place : Location} (hplace : tree.locate p = .ok place) : tree.locate q ≠ .ok place := by
  intro hother
  obtain ⟨rest, hsplit, hnames, hrest, hlone⟩ := h.exists_rest hsuffix hp
  obtain ⟨otherRest, hotherSplit, hotherNames, hotherRest, hotherLone⟩ := ho.exists_rest hsuffix hq
  obtain ⟨above, habove, rfl⟩ := FileTree.locate_of_names hsplit hnames hplace
  obtain ⟨otherAbove, hotherAbove, heq⟩ := FileTree.locate_of_names hotherSplit hotherNames hother
  have hstart : tree.start p = tree.start q := by
    rw [FileTree.start, FileTree.start, h.absolute p hp, ho.absolute q hq]
  obtain rfl : above = otherAbove := by
    rw [hstart, hotherAbove] at habove
    exact (Except.ok.inj habove).symm
  obtain ⟨htask, rfl⟩ := h.eq_of_advance_eq ho hotherRest hrest hlone hotherLone heq
  exact hne (by rw [Path.names, Path.names, hsplit, hotherSplit, htask])

end Placed

/-! Grammars of one build -/

/-- Two grammar files have one stem, and directories that read the same in a task name. -/
def Alike (root : Text) (file other : GrammarFile) : Prop :=
  Path.fileStem? file.path = Path.fileStem? other.path ∧
    Text.join ['_'] (file.directories root) = Text.join ['_'] (other.directories root)

instance (root : Text) (file other : GrammarFile) : Decidable (Alike root file other) :=
  inferInstanceAs (Decidable (_ ∧ _))

theorem exists_of_mem_mapM {paths : List Text} {root : Text} {found : List GrammarFile}
    (h : paths.mapM (ofPath · root) = .ok found) {file : GrammarFile} (hfile : file ∈ found) :
    ∃ path, ofPath path root = .ok file := by
  induction paths generalizing found with
  | nil =>
    cases h
    cases hfile
  | cons path paths ih =>
    rw [List.mapM_cons] at h
    obtain ⟨first, hfirst, h⟩ := FileTree.bind_eq_ok.mp h
    obtain ⟨rest, hrest, h⟩ := FileTree.bind_eq_ok.mp h
    cases h
    rcases List.mem_cons.1 hfile with rfl | hmem
    · exact ⟨path, hfirst⟩
    · exact ih hrest hmem

theorem ofPath_of_discover {root : Text} {work after : Workspace} {found : List GrammarFile}
    (h : (discover root).outcome work = (.ok found, after)) {file : GrammarFile}
    (hfile : file ∈ found) : ofPath file.path root = .ok file := by
  have hfound : (paths work.files root).mapM (ofPath · root) = .ok found := congrArg Prod.fst h
  obtain ⟨path, hpath⟩ := exists_of_mem_mapM hfound hfile
  rwa [(ofPath_eq_ok hpath).1]

theorem Placed.alike_iff {config : Config} {root buildDir : Text} {file other : GrammarFile}
    {layout otherLayout : Layout} (h : Placed config root buildDir file layout)
    (ho : Placed config root buildDir other otherLayout) :
    Alike root file other ↔
      file.taskName = other.taskName ∧ layout.names.stem = otherLayout.names.stem := by
  rw [Alike, h.stem, ho.stem, Option.some_inj]
  constructor
  · rintro ⟨hstem, hdirs⟩
    exact ⟨(h.taskName_eq_iff ho hstem).2 hdirs, hstem⟩
  · rintro ⟨htask, hstem⟩
    exact ⟨hstem, (h.taskName_eq_iff ho hstem).1 htask⟩

/-- Grammars that are found below one root share no output exactly if they are not alike. Two
that are alike have one path for their composed grammars. All others write to different
locations, whatever the tree they write to, unless the suffix of composed grammars holds a
slash. -/
theorem outputs_disjoint_iff {config : Config} {root buildDir : Text} {work after : Workspace}
    {found : List GrammarFile} (discovered : (discover root).outcome work = (.ok found, after))
    {file other : GrammarFile} (hfile : file ∈ found) (hother : other ∈ found)
    {layout otherLayout : Layout}
    (hlayout : (file.job root buildDir).layout config = .ok layout)
    (hotherLayout : (other.job root buildDir).layout config = .ok otherLayout) :
    ((∀ p ∈ layout.outputs, ∀ q ∈ otherLayout.outputs, Path.components p ≠ Path.components q) ↔
      ¬Alike root file other) ∧
    (Alike root file other → layout.grammarPath = otherLayout.grammarPath) ∧
    ('/' ∉ config.generatedSuffix → ¬Alike root file other →
      ∀ tree : FileTree, ∀ p ∈ layout.outputs, ∀ q ∈ otherLayout.outputs, ∀ place,
        tree.locate p = .ok place → tree.locate q ≠ .ok place) := by
  have h := placed_of_layout (ofPath_of_discover discovered hfile) hlayout
  have ho := placed_of_layout (ofPath_of_discover discovered hother) hotherLayout
  have hnames : ¬Alike root file other →
      ∀ p ∈ layout.outputs, ∀ q ∈ otherLayout.outputs, Path.names p ≠ Path.names q :=
    fun hne => h.names_ne ho (mt (h.alike_iff ho).2 hne)
  have hshared : Alike root file other → layout.grammarPath = otherLayout.grammarPath := by
    intro halike
    obtain ⟨htask, hstem⟩ := (h.alike_iff ho).1 halike
    have hsplit : layout.grammarPath.splitOn '/' = otherLayout.grammarPath.splitOn '/' := by
      rw [h.grammar, ho.grammar, htask, hstem]
    calc layout.grammarPath
        = ['/'].intercalate (layout.grammarPath.splitOn '/') := (List.intercalate_splitOn '/').symm
      _ = ['/'].intercalate (otherLayout.grammarPath.splitOn '/') := by rw [hsplit]
      _ = otherLayout.grammarPath := List.intercalate_splitOn '/'
  refine ⟨⟨fun hdisjoint halike => ?_, fun hne p hp q hq heq => ?_⟩, hshared, ?_⟩
  · exact hdisjoint layout.grammarPath (by simp [Layout.outputs]) otherLayout.grammarPath
      (by simp [Layout.outputs]) (by rw [hshared halike])
  · exact hnames hne p hp q hq (Path.names_eq_of_components_eq heq)
  · intro hsuffix hne tree p hp q hq place hplace
    exact h.locate_ne ho hsuffix hp hq (hnames hne p hp q hq) hplace

/-- Grammars below `a/b` and `a_b`, which read the same with a low line for a slash, and one
beside the second. -/
def flattened : Workspace where
  files.entries :=
    [(["src".toList], .directory), (["src".toList, "a".toList], .directory),
      (["src".toList, "a".toList, "b".toList], .directory),
      (["src".toList, "a".toList, "b".toList, "c.bnf".toList],
        .file (Text.encode "y ::= 'p'\n".toList)),
      (["src".toList, "a_b".toList], .directory),
      (["src".toList, "a_b".toList, "c.bnf".toList], .file (Text.encode "x ::= 'q'\n".toList)),
      (["src".toList, "a_b".toList, "d.bnf".toList], .file (Text.encode "z ::= 'r'\n".toList))]

def slashed : GrammarFile := ⟨"src/a/b/c.bnf".toList, "a_b_c".toList⟩
def lined : GrammarFile := ⟨"src/a_b/c.bnf".toList, "a_b_c".toList⟩
def beside : GrammarFile := ⟨"src/a_b/d.bnf".toList, "a_b_d".toList⟩

theorem discover_flattened : (discover "src".toList).outcome flattened =
    (.ok [slashed, lined, beside], ((discover "src".toList).outcome flattened).2) := by
  have hpaths : paths flattened.files "src".toList = [slashed.path, lined.path, beside.path] :=
    List.mergeSort_of_pairwise (by decide)
  have hfound : ((discover "src".toList).outcome flattened).1 =
      (paths flattened.files "src".toList).mapM (ofPath · "src".toList) := rfl
  rw [hpaths] at hfound
  exact Prod.ext hfound rfl

theorem outputs_disjoint_iff_flattened :
    ∃ found after layout otherLayout besideLayout,
      (discover "src".toList).outcome flattened = (.ok found, after) ∧
      slashed ∈ found ∧ lined ∈ found ∧ beside ∈ found ∧
      (slashed.job "src".toList "build".toList).layout {} = .ok layout ∧
      (lined.job "src".toList "build".toList).layout {} = .ok otherLayout ∧
      (beside.job "src".toList "build".toList).layout {} = .ok besideLayout ∧
      layout.grammarPath = otherLayout.grammarPath ∧
      ∀ p ∈ otherLayout.outputs, ∀ q ∈ besideLayout.outputs,
        Path.components p ≠ Path.components q := by
  have hslashed : slashed ∈ [slashed, lined, beside] := by simp
  have hlined : lined ∈ [slashed, lined, beside] := by simp
  have hbeside : beside ∈ [slashed, lined, beside] := by simp
  refine ⟨_, _, _, _, _, discover_flattened, hslashed, hlined, hbeside, rfl, rfl, rfl, ?_, ?_⟩
  · exact (outputs_disjoint_iff discover_flattened hslashed hlined rfl rfl).2.1 (by decide)
  · exact (outputs_disjoint_iff discover_flattened hlined hbeside rfl rfl).1.2 (by decide)

/-- Two grammars of one build can share an output: both of these write `a_b_c/c_gen.bnf`. -/
theorem outputs_shared_flattened :
    ∃ found after layout otherLayout,
      (discover "src".toList).outcome flattened = (.ok found, after) ∧
      slashed ∈ found ∧ lined ∈ found ∧ slashed ≠ lined ∧
      (slashed.job "src".toList "build".toList).layout {} = .ok layout ∧
      (lined.job "src".toList "build".toList).layout {} = .ok otherLayout ∧
      "build/grammars/a_b_c/c_gen.bnf".toList ∈ layout.outputs ∧
      "build/grammars/a_b_c/c_gen.bnf".toList ∈ otherLayout.outputs :=
  ⟨_, _, _, _, discover_flattened, by simp, by simp, by decide, rfl, rfl, by decide, by decide⟩

end GrammarFile
end OpenGrammar
