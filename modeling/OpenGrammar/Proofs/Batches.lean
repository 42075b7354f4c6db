import OpenGrammar.Proofs.Alongside
import OpenGrammar.Proofs.PatternCaches

/-! Jobs in any order. A job reads its input and its outputs and what is on the way there, and
changes nothing but its outputs and the directories they need. Jobs that keep apart from each
other therefore do the same whether they run before or after each other. -/
namespace OpenGrammar
namespace FileTree

variable {watched outputs : List Location} {tree after other otherAfter : FileTree}

/-! Trees that change one after the other -/

structure Same (tree other : FileTree) : Prop where
  home_eq : other.home = tree.home
  rooted : tree.Rooted
  other_rooted : other.Rooted
  node?_eq : ∀ place, tree.node? place = other.node? place

theorem Rooted.same_self (h : tree.Rooted) : Same tree tree := ⟨rfl, h, h, fun _ => rfl⟩

theorem Same.trans {last : FileTree} (h : Same tree other) (h' : Same other last) :
    Same tree last :=
  ⟨h'.home_eq.trans h.home_eq, h.rooted, h'.other_rooted,
    fun place => (h.node?_eq place).trans (h'.node?_eq place)⟩

theorem Same.alike (h : Same tree other) : Alike watched tree other := by
  refine ⟨h.home_eq, h.rooted, h.other_rooted, fun place _ => ⟨h.node?_eq place, ?_⟩⟩
  intro above _ bytes
  rw [h.node?_eq above]

theorem Same.of_moved (h : Same tree other) (hm : Moved outputs tree after other otherAfter) :
    Same after otherAfter := by
  have halike : ∀ place, Alike [place] after otherAfter := fun _ => h.alike.of_moved hm
  exact ⟨(halike []).home_eq, hm.rooted, hm.other_rooted,
    fun place => ((halike place).alikeTo place List.mem_cons_self).node?_eq⟩

/-- Where outputs are neither on the way to a location nor below it, it cannot be seen that they
were written. -/
theorem Moved.alike (hm : Moved outputs tree after tree after) (hr : tree.Rooted)
    (h : ∀ output ∈ outputs, ∀ place ∈ watched, ¬output <+: place ∧ ¬place <+: output) :
    Alike watched tree after := by
  refine ⟨hm.home_eq, hr, hm.rooted, fun place hmem => ⟨?_, fun above hp bytes => ?_⟩⟩
  · cases hm.moved place with
    | still heq _ => exact heq.symm
    | output hout _ => exact absurd List.prefix_rfl (h place hout place hmem).1
    | directory hout hway _ _ _ => exact absurd hway (h _ hout place hmem).2
  · cases hm.moved above with
    | still heq _ => rw [heq]
    | output hout _ => exact absurd hp (h above hout place hmem).1
    | directory _ _ hfree hd _ => exact iff_of_false (hfree bytes) (by simp [hd])

/-- Two changes that each happen in the same way before and after the other one commute. -/
theorem Moved.same {first second : List Location} {early late both otherBoth : FileTree}
    (hfirst : Moved first tree early late otherBoth) (hsecond : Moved second tree late early both)
    (h : ∀ p ∈ first, ∀ q ∈ second, ¬p <+: q ∧ ¬q <+: p) : Same both otherBoth := by
  refine ⟨?_, hsecond.other_rooted, hfirst.other_rooted, fun place => ?_⟩
  · rw [hfirst.other_home_eq, hsecond.home_eq, hsecond.other_home_eq, hfirst.home_eq]
  · -- An output of one change is neither an output of the other nor on the way to one. So at a
    -- location one of them is still, or both make a directory.
    cases hfirst.moved place with
    | still hearly hother =>
      rw [hother]
      cases hsecond.moved place with
      | still hlate hboth => rw [hboth, hearly, hlate]
      | output _ heq => exact heq.symm
      | directory _ _ _ hlate hboth => rw [hboth, hlate]
    | output hout heq =>
      rw [← heq]
      cases hsecond.moved place with
      | still _ hboth => exact hboth
      | output hsec _ => exact absurd List.prefix_rfl (h place hout place hsec).1
      | directory hsec hway _ _ _ => exact absurd hway (h place hout _ hsec).1
    | directory hout hway _ hearly hother =>
      rw [hother]
      cases hsecond.moved place with
      | still _ hboth => rw [hboth, hearly]
      | output hsec _ => exact absurd hway (h _ hout place hsec).2
      | directory _ _ _ _ hboth => exact hboth

end FileTree

namespace Directives

variable [PatternEngine] {cache : PatternCache} {texts : List Text}

/-- The patterns of the subclass directives, each fetched from a cache, and the cache after
that. Nothing is fetched behind a text that is no pattern. -/
def fetchPatterns (cache : PatternCache) :
    List ((Text × Text) × Text) → Except Error (List SubclassPattern) × PatternCache
  | [] => (.ok [], cache)
  | ((pattern, elementType), directive) :: more =>
    match cache.fetchAnchored pattern with
    | (.error fault, kept) => (.error (.invalidPattern directive (PatternEngine.describe fault)), kept)
    | (.ok compiled, kept) =>
      ((fetchPatterns kept more).1.map (⟨directive, pattern, elementType, compiled⟩ :: ·),
        (fetchPatterns kept more).2)

theorem fetchPatterns_of_keeps (h : cache.Keeps texts) (hits : List ((Text × Text) × Text)) :
    (fetchPatterns cache hits).1 = compilePatterns hits ∧
      ∃ more, (fetchPatterns cache hits).2.Keeps more := by
  induction hits generalizing cache texts with
  | nil => exact ⟨rfl, texts, h⟩
  | cons hit more ih =>
    obtain ⟨⟨pattern, elementType⟩, directive⟩ := hit
    have hfound := h.fetch_fst (PatternEngine.anchored pattern)
    have hkept := h.fetch_snd (PatternEngine.anchored pattern)
    rw [fetchPatterns, compilePatterns, PatternCache.fetchAnchored, ← hfound]
    generalize cache.fetch (PatternEngine.anchored pattern) = fetched at hkept ⊢
    obtain ⟨_ | compiled, kept⟩ := fetched
    · exact ⟨rfl, _, hkept⟩
    · obtain ⟨hmore, hlast⟩ := ih hkept
      refine ⟨?_, hlast⟩
      dsimp only
      rw [hmore]
      cases compilePatterns more <;> rfl

def cacheAfter (headers : List (List ((Text × Text) × Text))) : PatternCache :=
  headers.foldl (fun cache hits => (fetchPatterns cache hits).2) {}

theorem keeps_cacheAfter (headers : List (List ((Text × Text) × Text))) :
    ∃ texts, (cacheAfter headers).Keeps texts := by
  suffices h : ∀ (cache : PatternCache) texts, cache.Keeps texts → ∃ more,
      (headers.foldl (fun cache hits => (fetchPatterns cache hits).2) cache).Keeps more from
    h {} [] PatternCache.keeps_empty
  induction headers with
  | nil => exact fun cache texts h => ⟨texts, h⟩
  | cons hits rest ih =>
    intro cache texts h
    obtain ⟨more, hmore⟩ := (fetchPatterns_of_keeps h hits).2
    exact ih _ more hmore

end Directives

namespace Job

variable {config : Config} {job first second : Job} {jobs others : List Job}
  {work other : Workspace}

/-! One job -/

/-- The paths of what a job writes, if it gets that far. -/
def outputPaths (config : Config) (job : Job) : List Text :=
  match job.layout config with
  | .ok layout => layout.outputs
  | .error _ => []

def paths (config : Config) (job : Job) : List Text := job.input :: job.outputPaths config

/-- No path of a job leads back up. -/
def Forward (config : Config) (job : Job) : Prop :=
  ∀ path ∈ job.paths config, ['.', '.'] ∉ path.splitOn '/'

instance (config : Config) (job : Job) : Decidable (job.Forward config) :=
  inferInstanceAs (Decidable (∀ path ∈ job.paths config, _))

/-- What a job writes is kept apart from all that another one reads and writes. -/
def Spares (config : Config) (tree : FileTree) (job other : Job) : Prop :=
  ∀ output ∈ job.outputPaths config, ∀ path ∈ other.paths config, tree.Apart output path

instance (config : Config) (tree : FileTree) (job other : Job) :
    Decidable (job.Spares config tree other) :=
  inferInstanceAs (Decidable (∀ output ∈ job.outputPaths config, _))

/-- Neither of two jobs touches what the other one works on. -/
def Independent (config : Config) (tree : FileTree) (job other : Job) : Prop :=
  job.Spares config tree other ∧ other.Spares config tree job

instance (config : Config) (tree : FileTree) (job other : Job) :
    Decidable (job.Independent config tree other) :=
  inferInstanceAs (Decidable (_ ∧ _))

theorem Independent.symm {tree : FileTree} (h : first.Independent config tree second) :
    second.Independent config tree first := And.symm h

theorem Spares.of_home {tree otherTree : FileTree} (h : first.Spares config tree second)
    (hhome : otherTree.home = tree.home) : first.Spares config otherTree second := by
  intro output hout path hpath
  rw [FileTree.Apart, FileTree.destination_of_home hhome, FileTree.destination_of_home hhome]
  exact h output hout path hpath

theorem Independent.of_home {tree otherTree : FileTree}
    (h : first.Independent config tree second) (hhome : otherTree.home = tree.home) :
    first.Independent config otherTree second :=
  ⟨h.1.of_home hhome, h.2.of_home hhome⟩

theorem Spares.keeps_off {tree : FileTree} (h : first.Spares config tree second) :
    ∀ output ∈ (first.outputPaths config).map tree.destination,
      ∀ place ∈ (second.paths config).map tree.destination,
        ¬output <+: place ∧ ¬place <+: output := by
  intro output hout place hplace
  obtain ⟨p, hp, rfl⟩ := List.mem_map.mp hout
  obtain ⟨q, hq, rfl⟩ := List.mem_map.mp hplace
  exact h p hp q hq

section Engine

variable [PatternEngine]

theorem alongside_compose {outputs : List Location} {layout : Layout}
    (h : FileTree.Alike outputs work.files other.files)
    (hread : work.files.readText layout.input = other.files.readText layout.input) :
    Session.Alongside outputs work other (layout.compose config) := by
  obtain ⟨notes, heq⟩ := layout.outcome_compose config work
  obtain ⟨otherNotes, hother⟩ := layout.outcome_compose config other
  have hcomposed : layout.composed config other.files = layout.composed config work.files := by
    rw [Layout.composed, Layout.composed, hread]
  rw [hcomposed] at hother
  exact .of_outcome heq hother h.moved_self

/-- A job does the same in trees that cannot be told apart where its paths lead. -/
theorem alongside_run (hforward : job.Forward config)
    (h : FileTree.Alike ((job.paths config).map work.files.destination) work.files other.files) :
    Session.Alongside ((job.outputPaths config).map work.files.destination) work other
      (job.run config) := by
  have houtputs := h.mono (List.map_subset _ (List.subset_cons_self job.input _))
  have hlayout : Session.Alongside ((job.outputPaths config).map work.files.destination) work other
      (Session.ofExcept (job.layout config)) := .of_outcome rfl rfl houtputs.moved_self
  refine hlayout.bind fun layout mid otherMid hmid hotherMid => ?_
  obtain ⟨hresolved, rfl⟩ := Prod.mk.inj hmid
  obtain ⟨-, rfl⟩ := Prod.mk.inj hotherMid
  obtain ⟨hnames, hinput, -, hsegments⟩ := Layout.resolve_eq_ok hresolved
  have hpaths : job.outputPaths config = layout.outputs := by rw [outputPaths, hresolved]
  have hread : work.files.readText layout.input = other.files.readText layout.input := by
    have halike := h.alikeTo (work.files.destination job.input) List.mem_cons_self
    have hfind := halike.find_eq h.home_eq h.rooted h.other_rooted
      (hforward job.input List.mem_cons_self)
    rw [hinput]
    simp only [FileTree.readText, FileTree.read, hfind]
  have hcompose := @alongside_compose config work other _ _ layout houtputs hread
  refine hcompose.bind fun composed mid otherMid hmid hotherMid => ?_
  have haimed : Artifact.Aimed ((job.outputPaths config).map work.files.destination) mid.files
      (layout.artifacts composed) := by
    refine Artifact.Aimed.of_home ?_ (hcompose.home_eq hmid)
    intro artifact hmem
    have hpath : artifact.path ∈ layout.outputs := List.mem_map_of_mem hmem
    rw [hpaths]
    refine ⟨?_, List.mem_map_of_mem hpath⟩
    exact Layout.plain_of_forward hsegments (Layout.proper_of_namesOf hnames) hpath
      (hforward artifact.path (List.mem_cons_of_mem _ (hpaths ▸ hpath)))
  have halike := hcompose.alike houtputs hmid hotherMid
  have hwrite := @Artifact.alongside_writeAll config.skipUnchanged _ mid otherMid _ halike haimed
  refine hwrite.bind fun written last otherLast hlast hotherLast => ?_
  exact Session.alongside_pure (hwrite.alike halike hlast hotherLast) _

theorem moved_run (hr : work.files.Rooted) (hforward : job.Forward config) :
    FileTree.Moved ((job.outputPaths config).map work.files.destination) work.files
      ((job.run config).outcome work).2.files work.files
      ((job.run config).outcome work).2.files :=
  (alongside_run hforward hr.same_self.alike).moved

/-- The other job cannot tell whether a job that spares it has run. -/
theorem Spares.alike (h : first.Spares config work.files second) (hr : work.files.Rooted)
    (hforward : first.Forward config) :
    FileTree.Alike ((second.paths config).map work.files.destination) work.files
      ((first.run config).outcome work).2.files :=
  (moved_run hr hforward).alike hr h.keeps_off

/-- Two independent jobs leave the same files in either order. -/
theorem Independent.same (h : first.Independent config work.files second)
    (hr : work.files.Rooted) (hfirst : first.Forward config) (hsecond : second.Forward config) :
    FileTree.Same
      ((second.run config).outcome ((first.run config).outcome work).2).2.files
      ((first.run config).outcome ((second.run config).outcome work).2).2.files := by
  have hmovedFirst := (alongside_run hfirst (h.2.alike hr hsecond)).moved
  have hmovedSecond := (alongside_run hsecond (h.1.alike hr hfirst)).moved
  refine hmovedFirst.same hmovedSecond fun output hout place hplace => ?_
  exact h.1.keeps_off output hout place
    (List.map_subset _ (List.subset_cons_self second.input _) hplace)

/-! Many jobs -/

theorem runAll_cons (config : Config) (job : Job) (jobs : List Job) (work : Workspace) :
    (runAll config (job :: jobs)).run work =
      (((job.run config).outcome work).1 ::
          ((runAll config jobs).run ((job.run config).outcome work).2).1,
        ((runAll config jobs).run ((job.run config).outcome work).2).2) := by
  rw [runAll, List.mapM_cons]
  rfl

theorem same_runAll (h : FileTree.Same work.files other.files)
    (hforward : ∀ job ∈ jobs, job.Forward config) :
    FileTree.Same ((runAll config jobs).run work).2.files
      ((runAll config jobs).run other).2.files := by
  induction jobs generalizing work other with
  | nil => exact h
  | cons job rest ih =>
    rw [List.forall_mem_cons] at hforward
    rw [runAll_cons, runAll_cons]
    exact ih (h.of_moved (alongside_run hforward.1 h.alike).moved) hforward.2

/-- Independent jobs have the results that each has on its own. -/
theorem results_runAll (hr : work.files.Rooted) (hforward : ∀ job ∈ jobs, job.Forward config)
    (hindependent : jobs.Pairwise (Independent config work.files)) :
    ((runAll config jobs).run work).1 =
      jobs.map fun job => (job.run config).resultOn work.files := by
  induction jobs generalizing work with
  | nil => rfl
  | cons job rest ih =>
    rw [List.forall_mem_cons] at hforward
    rw [List.pairwise_cons] at hindependent
    have hmoved := moved_run hr hforward.1
    have hrest := ih hmoved.rooted hforward.2
      (hindependent.2.imp fun h => h.of_home hmoved.home_eq)
    rw [runAll_cons, List.map_cons, hrest]
    refine congrArg₂ _ ?_ (List.map_congr_left fun next hnext => ?_)
    · exact (@alongside_run config job work ⟨work.files, [], []⟩ _ hforward.1
        hr.same_self.alike).result_eq
    · -- A later job cannot tell that the first one has run.
      have halike := (hindependent.1 next hnext).1.alike hr hforward.1
      exact (@alongside_run config next ⟨work.files, [], []⟩
        ⟨((job.run config).outcome work).2.files, [], []⟩ _ (hforward.2 next hnext)
        halike).result_eq.symm

/-- Independent jobs leave the same files in any order. -/
theorem same_of_perm (hperm : jobs.Perm others) (hr : work.files.Rooted)
    (hforward : ∀ job ∈ jobs, job.Forward config)
    (hindependent : jobs.Pairwise (Independent config work.files)) :
    FileTree.Same ((runAll config jobs).run work).2.files
      ((runAll config others).run work).2.files := by
  induction hperm generalizing work with
  | nil => exact hr.same_self
  | cons job _ ih =>
    rw [List.forall_mem_cons] at hforward
    rw [List.pairwise_cons] at hindependent
    have hmoved := moved_run hr hforward.1
    rw [runAll_cons, runAll_cons]
    exact ih hmoved.rooted hforward.2 (hindependent.2.imp fun h => h.of_home hmoved.home_eq)
  | swap first second rest =>
    -- After two jobs in either order the files are the same, though the notes are not.
    rw [List.forall_mem_cons, List.forall_mem_cons] at hforward
    rw [List.pairwise_cons] at hindependent
    have hpair := hindependent.1 first List.mem_cons_self
    simp only [runAll_cons]
    exact same_runAll (hpair.same hr hforward.1 hforward.2.1) hforward.2.2
  | trans hfirst _ ih ih' =>
    have hsame := ih hr hforward hindependent
    refine hsame.trans (ih' hr (fun job hmem => hforward job (hfirst.mem_iff.mpr hmem)) ?_)
    exact (hfirst.pairwise_iff Independent.symm).mp hindependent

/-- No temporary file outlives a job. -/
theorem perm_run (config : Config) (job : Job) (work : Workspace) :
    ((job.run config).outcome work).2.temporaries.Perm work.temporaries := by
  obtain ⟨notes, heq⟩ := outcome_run config job work
  rw [heq]
  cases job.layout config with
  | error error => exact .refl _
  | ok layout =>
    dsimp only
    cases layout.composed config work.files with
    | error error => exact .refl _
    | ok composed =>
      dsimp only
      rcases hwrite : (Artifact.writeAll config.skipUnchanged
        (layout.artifacts composed)).outcome { work with notes } with ⟨_ | written, after⟩
      · have hperm := Artifact.perm_writeAll hwrite
        exact hperm
      · have hperm := Artifact.perm_writeAll hwrite
        exact hperm

theorem perm_runAll (config : Config) (jobs : List Job) (work : Workspace) :
    ((runAll config jobs).run work).2.temporaries.Perm work.temporaries := by
  induction jobs generalizing work with
  | nil => exact .refl _
  | cons job rest ih =>
    rw [runAll_cons]
    exact (ih _).trans (perm_run config job work)

/-- The order of independent jobs does not matter: each has the result that it has alone, the
files are the same in the end, and the patterns of a header are the same whatever has been kept
from the headers before it. -/
theorem runAll_of_perm (hr : work.files.Rooted) (hforward : ∀ job ∈ jobs, job.Forward config)
    (hindependent : jobs.Pairwise (Independent config work.files)) (hperm : jobs.Perm others) :
    ((runAll config jobs).run work).1 =
        jobs.map (fun job => (job.run config).resultOn work.files) ∧
      ((runAll config others).run work).1 =
        others.map (fun job => (job.run config).resultOn work.files) ∧
      (∀ place, ((runAll config jobs).run work).2.files.node? place =
        ((runAll config others).run work).2.files.node? place) ∧
      ((runAll config jobs).run work).2.temporaries.Perm
        ((runAll config others).run work).2.temporaries ∧
      ∀ headers hits, (Directives.fetchPatterns (Directives.cacheAfter headers) hits).1 =
        Directives.compilePatterns hits := by
  refine ⟨results_runAll hr hforward hindependent, ?_, ?_, ?_, ?_⟩
  · refine results_runAll hr (fun job hmem => hforward job (hperm.mem_iff.mpr hmem)) ?_
    exact (hperm.pairwise_iff Independent.symm).mp hindependent
  · exact (same_of_perm hperm hr hforward hindependent).node?_eq
  · exact (perm_runAll config jobs work).trans (perm_runAll config others work).symm
  · intro headers hits
    obtain ⟨texts, hkeeps⟩ := Directives.keeps_cacheAfter headers
    exact (Directives.fetchPatterns_of_keeps hkeeps hits).1

end Engine

def crowded : Workspace where
  files.entries := (["full".toList], .file []) :: stale.files.entries

/-- A job whose input is not there, one with a file in the way of its outputs, and one that
composes the grammar. -/
def mixed : List Job :=
  [⟨"src/com/bar.bnf".toList, "src".toList, "out".toList⟩,
    ⟨"src/com/foo.bnf".toList, "src".toList, "full".toList⟩, staleJob]

theorem runAll_of_perm_mixed :
    crowded.files.Rooted ∧ (∀ job ∈ mixed, job.Forward {}) ∧
      mixed.Pairwise (Independent {} crowded.files) ∧
      ((runAll {} mixed).run crowded).1.map Except.isOk = [false, false, true] ∧
      ((runAll {} mixed.reverse).run crowded).1.map Except.isOk = [true, false, false] ∧
      ∀ place, ((runAll {} mixed).run crowded).2.files.node? place =
        ((runAll {} mixed.reverse).run crowded).2.files.node? place := by
  have hr : crowded.files.Rooted := by decide
  have hforward : ∀ job ∈ mixed, job.Forward {} := by decide +kernel
  have hindependent : mixed.Pairwise (Independent {} crowded.files) := by decide +kernel
  obtain ⟨hresults, hreversed, hfiles, -⟩ :=
    runAll_of_perm hr hforward hindependent mixed.reverse_perm.symm
  refine ⟨hr, hforward, hindependent, ?_, ?_, hfiles⟩
  · rw [hresults]
    decide +kernel
  · rw [hreversed]
    decide +kernel

/-! Inputs below outputs -/

def single : Workspace where
  files.entries :=
    [(["src".toList], .directory),
      (["src".toList, "a.bnf".toList], .file (Text.encode "x ::= 'q'\n".toList))]

def singleJob : Job := ⟨"src/a.bnf".toList, "src".toList, "o".toList⟩

def belowJob : Job := ⟨"o/a_gen.bnf/b.bnf".toList, [], "p".toList⟩

def singleLayout : Layout where
  names := ⟨[], "a".toList⟩
  input := "src/a.bnf".toList
  outputDir := "o".toList
  grammarPath := "o/a_gen.bnf".toList
  modulePath := "o/AParserUtil.kt".toList

def belowLayout : Layout where
  names := ⟨"o.a_gen.bnf".toList, "b".toList⟩
  input := "o/a_gen.bnf/b.bnf".toList
  outputDir := "p".toList
  grammarPath := "p/b_gen.bnf".toList
  modulePath := "p/o/a_gen/bnf/BParserUtil.kt".toList

theorem run_of_fault [PatternEngine] {layout : Layout} {fault : FileFault}
    (hlayout : job.layout config = .ok layout)
    (hread : work.files.readText job.input = .error fault) :
    ((job.run config).outcome work).1 = .error (.file job.input fault) := by
  obtain ⟨notes, heq⟩ := outcome_run config job work
  have hinput : layout.input = job.input := (Layout.resolve_eq_ok hlayout).2.1
  simp only [heq, hlayout, Layout.composed, hinput, hread]

theorem exists_file_of_run [PatternEngine] {run : Run} {after : Workspace}
    (h : (job.run config).outcome work = (.ok run, after)) :
    ∃ place bytes, after.files.locate run.layout.grammarPath = .ok place ∧
      after.files.node? place = some (.file bytes) := by
  obtain ⟨text, composed, notes, hlayout, -, -, hwrite⟩ := run_eq_ok h
  obtain ⟨hnames, -, -, hsegments⟩ := Layout.resolve_eq_ok hlayout
  obtain ⟨early, mid, late, staged, placed, hearly, hlate, hfirst, hsecond, -⟩ :=
    Artifact.writeAll_pair_ok hwrite
  obtain ⟨p, q, hsettled⟩ := Artifact.settled_of_put
    (Layout.locate_ne hsegments (Layout.proper_of_namesOf hnames)) hearly hlate hfirst hsecond
  exact ⟨p, _, hsettled.first.locate, hsettled.first.node?⟩

theorem readText_after_single :
    ((singleJob.run {}).outcome single).2.files.readText belowJob.input =
      .error .notDirectory := by
  have hr : single.files.Rooted := by decide
  have hforward : singleJob.Forward {} := by decide +kernel
  have hmoved := moved_run hr hforward
  have hok : ((singleJob.run {}).outcome single).1.isOk = true := by decide +kernel
  rcases hrun : (singleJob.run {}).outcome single with ⟨_ | run, after⟩
  · rw [hrun] at hok
    cases hok
  rw [hrun] at hmoved
  have hlayout : singleJob.layout {} = .ok singleLayout := by rfl
  obtain ⟨-, -, -, hrunLayout, -⟩ := run_eq_ok hrun
  obtain ⟨place, bytes, hlocate, hfile⟩ := exists_file_of_run hrun
  rw [← Except.ok.inj (hlayout.symm.trans hrunLayout)] at hlocate
  have hplace := FileTree.eq_destination_of_locate (by decide) hlocate
  rw [FileTree.destination_of_home hmoved.home_eq] at hplace
  have hstart : after.files.start belowJob.input = [] := hmoved.home_eq
  have hway : after.files.node? (after.files.start belowJob.input ++
      ["o".toList, "a_gen.bnf".toList]) = some (.file bytes) := by
    rw [hstart, ← hfile, hplace]
    rfl
  have hsplit : belowJob.input.splitOn '/' =
      ["o".toList, "a_gen.bnf".toList] ++ ["b.bnf".toList] := by rfl
  have hfind := hmoved.rooted.find_of_file hsplit (by decide) (by decide) hway
  rw [FileTree.readText, FileTree.read, hfind]
  rfl

/-- Outputs that are apart from each other and not below inputs do not make jobs independent:
an input may be below an output. -/
theorem results_depend_on_order :
    single.files.Rooted ∧
      (∀ job ∈ [singleJob, belowJob], job.Forward {}) ∧
      (∀ output ∈ singleJob.outputPaths {}, ∀ other ∈ belowJob.outputPaths {},
        single.files.Apart output other) ∧
      (∀ job ∈ [singleJob, belowJob], ∀ other ∈ [singleJob, belowJob],
        ∀ output ∈ job.outputPaths {},
          ¬single.files.destination other.input <+: single.files.destination output) ∧
      ((runAll {} [singleJob, belowJob]).run single).1[1]? =
        some (.error (.file belowJob.input .notDirectory)) ∧
      ((runAll {} [belowJob, singleJob]).run single).1[0]? =
        some (.error (.file belowJob.input .notFound)) := by
  have hr : single.files.Rooted := by decide
  have hforward : ∀ job ∈ [singleJob, belowJob], job.Forward {} := by decide +kernel
  have hbelow : belowJob.layout {} = .ok belowLayout := by rfl
  refine ⟨hr, hforward, by decide +kernel, by decide +kernel, ?_, ?_⟩
  · rw [runAll_cons, runAll_cons]
    exact congrArg some (run_of_fault hbelow readText_after_single)
  · rw [runAll_cons]
    exact congrArg some (run_of_fault hbelow rfl)

end Job
end OpenGrammar
