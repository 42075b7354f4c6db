import OpenGrammar.Proofs.Artifacts
import OpenGrammar.Proofs.LayoutPaths
import OpenGrammar.Regex.Parser
import OpenGrammar.Run

/-! What a run leaves behind. A run that succeeds leaves both outputs with the bytes that
were composed, and all other files as they were. A run after that finds both outputs
current and changes nothing. -/
namespace OpenGrammar
namespace FileTree

variable {tree : FileTree} {path : Text} {place target : Location} {segments : List Text}

/-! Ways through a tree -/

theorem read_eq_ok_iff {bytes : List UInt8} :
    tree.read path = .ok bytes ↔ tree.find path = .ok (.file bytes) := by
  rw [read]
  cases tree.find path with
  | error fault => simp [bind, Except.bind]
  | ok node => cases node <;> simp [bind, Except.bind]

theorem getLast?_of_locate {above : List Text} {name : Text}
    (hsplit : path.splitOn '/' = above ++ [name]) (hname : Path.IsName name)
    (h : tree.locate path = .ok place) : place.getLast? = some name := by
  obtain ⟨directory, -, rfl⟩ := locate_of_names hsplit (by simp) h
  rw [advance_of_ne hname.forward, Path.steps_of_forall (by simpa using hname.step)]
  simp

theorem foldlM_enter_steps (h : segments.foldlM tree.enter place = .ok target) :
    (Path.steps segments).foldlM tree.enter place = .ok target := by
  induction segments generalizing place with
  | nil => exact h
  | cons segment segments ih =>
    obtain ⟨next, henter, hrest⟩ := bind_eq_ok.mp h
    by_cases hvoid : Path.isVoid segment = true
    · have hnext : next = place := by
        simpa [advance, hvoid] using (enter_eq_ok_iff.mp henter).2
      simpa [Path.steps, hvoid, hnext] using ih (hnext ▸ hrest)
    · have hsteps : Path.steps (segment :: segments) = segment :: Path.steps segments := by
        simp [Path.steps, hvoid]
      rw [hsteps]
      exact bind_eq_ok.mpr ⟨next, henter, ih hrest⟩

theorem directory_of_foldlM_enter (h : segments.foldlM tree.enter place = .ok target)
    (hd : tree.node? target = some .directory) : tree.node? place = some .directory := by
  cases segments with
  | nil =>
    cases h
    exact hd
  | cons segment segments =>
    obtain ⟨next, henter, -⟩ := bind_eq_ok.mp h
    exact (enter_eq_ok_iff.mp henter).1

theorem foldlM_enter_of_steps (h : (Path.steps segments).foldlM tree.enter place = .ok target)
    (hd : tree.node? target = some .directory) :
    segments.foldlM tree.enter place = .ok target := by
  induction segments generalizing place with
  | nil => exact h
  | cons segment segments ih =>
    by_cases hvoid : Path.isVoid segment = true
    · have hsteps : Path.steps (segment :: segments) = Path.steps segments := by
        simp [Path.steps, hvoid]
      rw [hsteps] at h
      have henter : tree.enter place segment = .ok place :=
        enter_eq_ok_iff.mpr ⟨directory_of_foldlM_enter h hd, by simp [advance, hvoid]⟩
      exact bind_eq_ok.mpr ⟨place, henter, ih h⟩
    · have hsteps : Path.steps (segment :: segments) = segment :: Path.steps segments := by
        simp [Path.steps, hvoid]
      rw [hsteps] at h
      obtain ⟨next, henter, hrest⟩ := bind_eq_ok.mp h
      exact bind_eq_ok.mpr ⟨next, henter, ih hrest⟩

end FileTree

namespace Artifact

variable {skip : Bool} {artifact first second : Artifact} {work after : Workspace}

theorem exists_foldlM_of_ready {tree : FileTree} {base above : List Text} {name : Text}
    {place : Location} (hsplit : artifact.path.splitOn '/' = base ++ above ++ [name])
    (hvoid : Path.isVoid name = false)
    (h : tree.locateDirectory artifact.directory = .ok place) :
    ∃ middle, base.foldlM tree.enter (tree.start artifact.path) = .ok middle := by
  obtain ⟨hnames, habs⟩ := names_directory_of_splitOn hsplit hvoid
  obtain ⟨target, hlocate, henter⟩ := FileTree.bind_eq_ok.mp h
  have hd : tree.node? target = some .directory := (FileTree.enter_eq_ok_iff.mp henter).1
  rw [FileTree.locate] at hlocate
  split at hlocate
  · cases hlocate
  have hsteps := FileTree.foldlM_enter_steps hlocate
  rw [← Path.names, hnames, Path.steps_append, List.foldlM_append] at hsteps
  obtain ⟨middle, hfirst, hrest⟩ := FileTree.bind_eq_ok.mp hsteps
  have hmiddle := FileTree.directory_of_foldlM_enter hrest hd
  have hstart : tree.start artifact.directory = tree.start artifact.path := by
    rw [FileTree.start, FileTree.start, habs]
  rw [hstart] at hfirst
  exact ⟨middle, FileTree.foldlM_enter_of_steps hfirst hmiddle⟩

/-! Two artifacts that are written -/

theorem stage_eq_none_iff {staged : Option Temporary}
    (h : (artifact.stage skip).outcome work = (.ok staged, after)) :
    staged = none ↔
      skip = true ∧ work.files.find artifact.path = .ok (.file artifact.bytes) := by
  rw [← isCurrent_iff, ← Bool.and_eq_true_iff]
  rcases outcome_stage skip artifact work with ⟨hcurrent, notes, heq⟩ |
    ⟨hcurrent, ⟨fault, heq⟩ | ⟨place, hplace, heq⟩⟩
  · rw [heq] at h
    cases h
    exact iff_of_true rfl hcurrent
  · rw [heq] at h
    cases h
  · rw [heq] at h
    cases h
    exact iff_of_false (by simp) (by simp [hcurrent])

theorem grows_stage {result : Except Error (Option Temporary)}
    (h : (artifact.stage skip).outcome work = (result, after)) :
    FileTree.Grows (fun _ => True) work.files after.files := by
  rcases files_of_stage skip artifact work with hsame | hmade
  · rw [h] at hsame
    exact hsame ▸ .refl ..
  · rw [h] at hmade
    exact hmade ▸ work.files.grows_createDirectories artifact.directory

theorem rooted_stage {result : Except Error (Option Temporary)} (hr : work.files.Rooted)
    (h : (artifact.stage skip).outcome work = (result, after)) : after.files.Rooted := by
  rcases files_of_stage skip artifact work with hsame | hmade
  · rw [h] at hsame
    exact hsame ▸ hr
  · rw [h] at hmade
    exact hmade ▸ hr.createDirectories artifact.directory

/-- Once an artifact is staged, its path can be followed as far as its directory goes. -/
theorem exists_foldlM_of_stage {staged : Option Temporary} {base above : List Text} {name : Text}
    (hsplit : artifact.path.splitOn '/' = base ++ above ++ [name])
    (hvoid : Path.isVoid name = false)
    (h : (artifact.stage skip).outcome work = (.ok staged, after)) :
    ∃ middle, base.foldlM after.files.enter (after.files.start artifact.path) = .ok middle := by
  obtain ⟨-, hready, hcurrent⟩ := stage_ok h
  cases staged with
  | none =>
    obtain ⟨place, hlocate, -⟩ := FileTree.find_eq_ok_iff.mp (hcurrent rfl)
    rw [FileTree.locate] at hlocate
    split at hlocate
    · cases hlocate
    rw [hsplit, List.append_assoc, List.foldlM_append] at hlocate
    obtain ⟨middle, hmiddle, -⟩ := FileTree.bind_eq_ok.mp hlocate
    exact ⟨middle, hmiddle⟩
  | some temporary => exact exists_foldlM_of_ready hsplit hvoid (hready temporary rfl).2

theorem writeAll_pair_ok {written : List OutputFile}
    (h : (writeAll skip [first, second]).outcome work = (.ok written, after)) :
    ∃ early mid late staged placed,
      (first.stage skip).outcome work = (.ok early, mid) ∧
      (second.stage skip).outcome mid = (.ok late, staged) ∧
      put staged.files (first, early) = .ok placed ∧
      put placed (second, late) = .ok after.files ∧
      written = [⟨first.path, statusOf early⟩, ⟨second.path, statusOf late⟩] := by
  rw [writeAll, Session.outcome_bind] at h
  rcases hstage : (stageAll skip [first, second]).outcome work with ⟨_ | staged, ready⟩
  · rw [hstage] at h
    cases h
  rw [hstage] at h
  rcases stageAll_cons_cases hstage with ⟨_, hok, -⟩ | ⟨early, mid, hearly, hlater⟩
  · cases hok
  rcases hlater with ⟨_, _, hok, -, -⟩ | ⟨others, hok, hothers⟩
  · cases hok
  cases hok
  rcases stageAll_cons_cases hothers with ⟨_, hok, -⟩ | ⟨late, last, hlate, hlater⟩
  · cases hok
  rcases hlater with ⟨_, _, hok, -, -⟩ | ⟨none, hok, hnone⟩
  · cases hok
  cases hok
  cases hnone
  rcases placeAll_cons_cases h with ⟨_, -, hok, -, -⟩ | ⟨placed, files, hfirst, -, hrest, hfiles⟩
  · cases hok
  rcases placeAll_cons_cases hrest with ⟨_, -, hok, -, -⟩ | ⟨done, more, hsecond, -, hdone, hmore⟩
  · subst hok
    cases hfiles
  cases hdone
  subst hmore
  cases hfiles
  exact ⟨early, mid, late, _, placed.files, hearly, hlate, hfirst, hsecond, rfl⟩

/-- The path of an artifact leads to a file with its bytes. -/
structure Rests (artifact : Artifact) (tree : FileTree) (place : Location) : Prop where
  locate : tree.locate artifact.path = .ok place
  node? : tree.node? place = some (.file artifact.bytes)

theorem exists_rests_iff {tree : FileTree} :
    (∃ place, artifact.Rests tree place) ↔
      tree.find artifact.path = .ok (.file artifact.bytes) := by
  rw [FileTree.find_eq_ok_iff]
  exact exists_congr fun place => ⟨fun h => ⟨h.locate, h.node?⟩, fun h => ⟨h.1, h.2⟩⟩

theorem Rests.of_stays {before later : FileTree} {place : Location}
    (h : artifact.Rests before place) (hs : FileTree.Stays before later)
    (hsame : later.node? place = before.node? place) : artifact.Rests later place :=
  ⟨hs.locate h.locate, hsame.trans h.node?⟩

theorem stays_put {tree later : FileTree} {entry : Artifact × Option Temporary}
    (h : put tree entry = .ok later) : FileTree.Stays tree later := by
  obtain ⟨artifact, _ | temporary⟩ := entry
  · cases h
    exact ⟨rfl, id⟩
  · exact FileTree.stays_replaceFile h

theorem rests_of_put {tree later : FileTree} {staged : Option Temporary}
    (hbytes : ∀ temporary, staged = some temporary → temporary.bytes = artifact.bytes)
    (hcurrent : staged = none → tree.find artifact.path = .ok (.file artifact.bytes))
    (h : put tree (artifact, staged) = .ok later) :
    ∃ place, artifact.Rests later place ∧
      ∀ other, other ≠ place → later.node? other = tree.node? other := by
  have hstays := stays_put h
  cases staged with
  | none =>
    cases h
    obtain ⟨place, hrests⟩ := exists_rests_iff.mpr (hcurrent rfl)
    exact ⟨place, hrests, fun _ _ => rfl⟩
  | some temporary =>
    rw [put, hbytes temporary rfl] at h
    obtain ⟨above, name, hlocate, -, -, rfl⟩ := FileTree.replaceFile_eq_ok h
    refine ⟨above ++ [name], ⟨hstays.locate hlocate, ?_⟩, fun other hne => ?_⟩
    · exact FileTree.node?_set_self (by simp) ..
    · exact FileTree.node?_set_of_ne hne ..

/-- Two artifacts rest in their places. Elsewhere nothing but directories is new. -/
structure Settled (first second : Artifact) (before later : FileTree)
    (firstPlace secondPlace : Location) : Prop where
  first : first.Rests later firstPlace
  second : second.Rests later secondPlace
  stays : FileTree.Stays before later
  others : ∀ place, place ≠ firstPlace → place ≠ secondPlace →
    later.node? place = before.node? place ∨
      before.node? place = none ∧ later.node? place = some .directory

/-- Artifacts whose paths never lead to the same place are settled when both are placed. -/
theorem settled_of_put {early late : Option Temporary} {mid staged : Workspace}
    {placed later : FileTree}
    (hne : ∀ {tree : FileTree} {p q}, tree.locate first.path = .ok p →
      tree.locate second.path = .ok q → p ≠ q)
    (hearly : (first.stage skip).outcome work = (.ok early, mid))
    (hlate : (second.stage skip).outcome mid = (.ok late, staged))
    (hfirst : put staged.files (first, early) = .ok placed)
    (hsecond : put placed (second, late) = .ok later) :
    ∃ p q, Settled first second work.files later p q := by
  obtain ⟨-, hearlyBytes, hearlyNone⟩ := stage_ok hearly
  obtain ⟨-, hlateBytes, hlateNone⟩ := stage_ok hlate
  have hgrowsEarly := grows_stage hearly
  have hgrowsLate := grows_stage hlate
  have hstaysFirst := stays_put hfirst
  have hstaysSecond := stays_put hsecond
  obtain ⟨p, hp, hsameFirst⟩ := rests_of_put
    (fun temporary hsome => (hearlyBytes temporary hsome).1)
    (fun hnone => hgrowsLate.find (hearlyNone hnone)) hfirst
  have hcurrent : late = none → placed.find second.path = .ok (.file second.bytes) := by
    intro hnone
    obtain ⟨q, hq⟩ := exists_rests_iff.mpr (hlateNone hnone)
    have hother : q ≠ p := (hne hp.locate (hstaysFirst.locate hq.locate)).symm
    exact exists_rests_iff.mp ⟨q, hq.of_stays hstaysFirst (hsameFirst q hother)⟩
  obtain ⟨q, hq, hsameSecond⟩ := rests_of_put
    (fun temporary hsome => (hlateBytes temporary hsome).1) hcurrent hsecond
  have hpq : p ≠ q := hne (hstaysSecond.locate hp.locate) hq.locate
  have hstays := hgrowsEarly.stays.trans (hgrowsLate.stays.trans (hstaysFirst.trans hstaysSecond))
  refine ⟨p, q, hp.of_stays hstaysSecond (hsameSecond p hpq), hq, hstays, fun place hnp hnq => ?_⟩
  rw [hsameSecond place hnq, hsameFirst place hnp]
  exact ((hgrowsEarly.trans hgrowsLate).node?_eq place).imp_right And.right

/-- Where a way is there as far as the names at its end, whatever was at the end before is
found. -/
theorem locate_of_way {before mid later : FileTree} {fresh : Location → Prop}
    (hrooted : before.Rooted) (hmid : mid.Rooted) (hgrows : FileTree.Grows fresh before mid)
    (hstays : FileTree.Stays mid later) {path name : Text} {base names : List Text}
    (hsplit : path.splitOn '/' = base ++ names ++ [name])
    (hnames : ∀ segment ∈ names, Path.IsName segment) (hname : Path.IsName name)
    {middle place : Location} (hway : base.foldlM mid.enter (mid.start path) = .ok middle)
    (hlocate : later.locate path = .ok place) (hsome : before.node? place ≠ none) :
    mid.locate path = .ok place := by
  have hforward : ['.', '.'] ∉ names := fun hmem => (hnames _ hmem).forward rfl
  have hsteps : Path.steps names = names :=
    Path.steps_of_forall fun segment hmem => (hnames segment hmem).step
  have hne : path ≠ [] := by
    rintro rfl
    cases hlocate
  rw [FileTree.locate, if_neg hne, hsplit, List.append_assoc, List.foldlM_append] at hlocate ⊢
  rw [hstays.start_eq, hstays.foldlM_enter hway] at hlocate
  have hrest : (names ++ [name]).foldlM later.enter middle = .ok place := hlocate
  have hplace : place = middle ++ names ++ [name] := by
    have hend : ['.', '.'] ∉ names ++ [name] := by simp [hforward, hname.forward.symm]
    rw [FileTree.foldlM_enter_eq_ok hend hrest, Path.steps_append, hsteps,
      Path.steps_of_forall (by simpa using hname.step), List.append_assoc]
  rw [hway]
  refine (hmid.foldlM_enter_concat_iff hforward hname.forward hname.step).mpr ?_
  rw [hsteps]
  rw [hplace] at hsome
  exact ⟨hgrows.node?_of_some (hrooted.above _ _ hsome), hplace⟩

/-! Artifacts that are current -/

theorem stageAll_of_current {artifacts : List Artifact}
    (h : ∀ artifact ∈ artifacts, work.files.find artifact.path = .ok (.file artifact.bytes)) :
    ∃ notes, (stageAll true artifacts).outcome work =
      (.ok (artifacts.map (·, none)), { work with notes }) := by
  induction artifacts generalizing work with
  | nil => exact ⟨work.notes, rfl⟩
  | cons artifact rest ih =>
    have hcurrent := isCurrent_iff.mpr (h artifact List.mem_cons_self)
    obtain ⟨notes, hfirst⟩ := @stage_of_current true artifact work (by simp [hcurrent])
    obtain ⟨more, hrest⟩ := @ih { work with notes }
      fun other hmem => h other (List.mem_cons_of_mem artifact hmem)
    refine ⟨more, ?_⟩
    simp only [stageAll, Session.outcome_bind, Session.outcome_owning, hfirst, hrest,
      Session.outcome_pure, List.map_cons]

theorem placeAll_of_current (artifacts : List Artifact) (work : Workspace) :
    (placeAll (artifacts.map (·, none))).outcome work =
      (.ok (artifacts.map (⟨·.path, .unchanged⟩)), work) := by
  induction artifacts with
  | nil => rfl
  | cons artifact rest ih =>
    simp only [List.map_cons, placeAll, place, Session.outcome_bind, Session.outcome_owning,
      Session.outcome_pure, ih]

theorem writeAll_of_current {artifacts : List Artifact}
    (h : ∀ artifact ∈ artifacts, work.files.find artifact.path = .ok (.file artifact.bytes)) :
    ∃ notes, (writeAll true artifacts).outcome work =
      (.ok (artifacts.map (⟨·.path, .unchanged⟩)), { work with notes }) := by
  obtain ⟨notes, hstage⟩ := stageAll_of_current h
  refine ⟨notes, ?_⟩
  simp only [writeAll, Session.outcome_bind, hstage, placeAll_of_current]

theorem readText_of_settled {before later : FileTree} {p q : Location} {path text : Text}
    (h : Settled first second before later p q)
    (hother : ∀ place, before.locate path = .ok place → place ≠ p ∧ place ≠ q)
    (hread : before.readText path = .ok text) : later.readText path = .ok text := by
  obtain ⟨bytes, hbytes, hdecode⟩ := FileTree.bind_eq_ok.mp hread
  obtain ⟨place, hlocate, hnode⟩ :=
    FileTree.find_eq_ok_iff.mp (FileTree.read_eq_ok_iff.mp hbytes)
  obtain ⟨hp, hq⟩ := hother place hlocate
  have hsame : later.node? place = some (.file bytes) := by
    rcases h.others place hp hq with hsame | ⟨hnone, -⟩
    · rw [hsame, hnode]
    · rw [hnode] at hnone
      cases hnone
  have hlater : later.read path = .ok bytes := FileTree.read_eq_ok_iff.mpr
    (FileTree.find_eq_ok_iff.mpr ⟨place, h.stays.locate hlocate, hsame⟩)
  exact FileTree.bind_eq_ok.mpr ⟨bytes, hlater, hdecode⟩

theorem statusOf_eq_unchanged_iff {staged : Option Temporary} :
    statusOf staged = .unchanged ↔ staged = none := by
  cases staged <;> simp [statusOf]

end Artifact

namespace Layout

/-- The two outputs of a layout never are one file. -/
theorem locate_ne {config : Config} {layout : Layout} (h : Segments config layout)
    (hproper : Proper layout.names) {tree : FileTree} {p q : Location}
    (hp : tree.locate layout.grammarPath = .ok p) (hq : tree.locate layout.modulePath = .ok q) :
    p ≠ q := by
  obtain ⟨above, name, hsplit, hname, hbnf⟩ := exists_grammarName h
  have hgrammar := FileTree.getLast?_of_locate hsplit hname hp
  have hmodule := FileTree.getLast?_of_locate h.module (isName_moduleName hproper.stem_slash) hq
  rintro rfl
  rw [hgrammar, Option.some_inj] at hmodule
  exact not_bnf_moduleName _ (hmodule ▸ hbnf)

/-- After the grammar is staged, the module is found current exactly if it was there. -/
theorem module_find_iff {config : Config} {layout : Layout} {work mid after : Workspace}
    {early : Option Temporary} {first second : Artifact} {q : Location}
    (hearly : (first.stage config.skipUnchanged).outcome work = (.ok early, mid))
    (hrooted : work.files.Rooted) (hsegments : Segments config layout)
    (hproper : Proper layout.names) (hfirst : first.path = layout.grammarPath)
    (hsecond : second.path = layout.modulePath)
    (hstays : FileTree.Stays mid.files after.files)
    (hlocate : after.files.locate second.path = .ok q) :
    mid.files.find second.path = .ok (.file second.bytes) ↔
      work.files.node? q = some (.file second.bytes) := by
  have hgrows := Artifact.grows_stage hearly
  constructor
  · intro hfind
    obtain ⟨place, hplace, hnode⟩ := FileTree.find_eq_ok_iff.mp hfind
    obtain rfl : place = q := by
      rw [hstays.locate hplace] at hlocate
      exact Except.ok.inj hlocate
    rcases hgrows.node?_eq place with hsame | ⟨-, -, hdirectory⟩
    · rw [← hsame, hnode]
    · rw [hnode] at hdirectory
      cases hdirectory
  · intro hnode
    obtain ⟨above, name, hsplit, hname, -⟩ := exists_grammarName hsegments
    rw [← hfirst] at hsplit
    obtain ⟨middle, hmiddle⟩ := Artifact.exists_foldlM_of_stage hsplit hname.step hearly
    have hstart : mid.files.start first.path = mid.files.start second.path := by
      rw [FileTree.start, FileTree.start, hfirst, hsecond,
        hsegments.absolute layout.grammarPath (by simp [outputs]),
        hsegments.absolute layout.modulePath (by simp [outputs])]
    rw [hstart] at hmiddle
    have hmodule := hsegments.module
    rw [← hsecond] at hmodule
    have hsome : work.files.node? q ≠ none := by simp [hnode]
    have hmid := Artifact.locate_of_way hrooted (Artifact.rooted_stage hrooted hearly) hgrows hstays
      hmodule hproper.package (isName_moduleName hproper.stem_slash) hmiddle hlocate hsome
    exact FileTree.find_eq_ok_iff.mpr ⟨q, hmid, hgrows.node?_of_some hnode⟩

end Layout

/-! Composing the grammar file of a layout -/

section Engine

variable [PatternEngine]

theorem Composition.compose_of_path {config : Config} {names : GrammarNames} {text : Text}
    {path : Option Text} {composed : Composition}
    (h : compose config names text path = .ok composed) :
    compose config names text none = .ok composed := by
  simp only [compose, Source.scan] at h ⊢
  split at h
  · cases h
  · exact h

namespace Layout

def composed (config : Config) (layout : Layout) (files : FileTree) : Except Error Composition :=
  match files.readText layout.input with
  | .error fault => .error (.file layout.input fault)
  | .ok text => Composition.compose config layout.names text (some layout.input)

theorem outcome_compose (config : Config) (layout : Layout) (work : Workspace) :
    ∃ notes, (layout.compose config).outcome work =
      (layout.composed config work.files, { work with notes }) := by
  have hread : (Session.readText layout.input).outcome work =
      ((work.files.readText layout.input).mapError (Error.file layout.input), work) := rfl
  have hof : ∀ {α : Type} (result : Except Error α) (work : Workspace),
      (Session.ofExcept result).outcome work = (result, work) := fun _ _ => rfl
  rw [compose, Session.outcome_bind, hread, composed]
  cases work.files.readText layout.input with
  | error fault => exact ⟨work.notes, rfl⟩
  | ok text =>
    simp only [Except.mapError, Composition.compose, Session.outcome_bind, hof]
    cases Source.scan text (some layout.input) with
    | error error => exact ⟨work.notes, rfl⟩
    | ok source => exact ⟨_, rfl⟩

end Layout

namespace Job

/-- A run finds its layout, composes, and writes what is composed. -/
theorem outcome_run (config : Config) (job : Job) (work : Workspace) :
    ∃ notes, (job.run config).outcome work =
      match job.layout config with
      | .error error => (.error error, work)
      | .ok layout =>
        match layout.composed config work.files with
        | .error error => (.error error, { work with notes })
        | .ok composed =>
          match (Artifact.writeAll config.skipUnchanged (layout.artifacts composed)).outcome
              { work with notes } with
          | (.ok written, after) => (.ok ⟨layout, written⟩, after)
          | (.error error, after) => (.error error, after) := by
  have hlayout : (Session.ofExcept (job.layout config)).outcome work =
      (job.layout config, work) := rfl
  rw [run, Session.outcome_bind, hlayout]
  cases job.layout config with
  | error error => exact ⟨work.notes, rfl⟩
  | ok layout =>
    obtain ⟨notes, hcompose⟩ := layout.outcome_compose config work
    refine ⟨notes, ?_⟩
    simp only [Session.outcome_bind, hcompose, Session.outcome_pure]
    cases layout.composed config work.files with
    | error error => rfl
    | ok composed =>
      dsimp only
      rcases (Artifact.writeAll config.skipUnchanged (layout.artifacts composed)).outcome
        { work with notes } with ⟨_ | written, after⟩ <;> rfl

theorem outcome_run_of_compose {config : Config} {job : Job} {work : Workspace} {layout : Layout}
    {text : Text} {composed : Composition} (hlayout : job.layout config = .ok layout)
    (hread : work.files.readText job.input = .ok text)
    (hcompose : Composition.compose config layout.names text (some job.input) = .ok composed) :
    ∃ notes, (job.run config).outcome work =
      match (Artifact.writeAll config.skipUnchanged (layout.artifacts composed)).outcome
          { work with notes } with
      | (.ok written, after) => (.ok ⟨layout, written⟩, after)
      | (.error error, after) => (.error error, after) := by
  obtain ⟨notes, heq⟩ := outcome_run config job work
  have hinput : layout.input = job.input := (Layout.resolve_eq_ok hlayout).2.1
  refine ⟨notes, ?_⟩
  simp only [heq, hlayout, Layout.composed, hinput, hread, hcompose]

/-- A run that succeeds has composed the text of its input and written the two artifacts. -/
theorem run_eq_ok {config : Config} {job : Job} {work after : Workspace} {run : Run}
    (h : (job.run config).outcome work = (.ok run, after)) :
    ∃ text composed notes, job.layout config = .ok run.layout ∧
      work.files.readText job.input = .ok text ∧
      Composition.compose config run.layout.names text (some job.input) = .ok composed ∧
      (Artifact.writeAll config.skipUnchanged (run.layout.artifacts composed)).outcome
        { work with notes } = (.ok run.written, after) := by
  obtain ⟨notes, heq⟩ := outcome_run config job work
  rw [heq] at h
  cases hlayout : job.layout config with
  | error error =>
    simp only [hlayout] at h
    cases h
  | ok layout =>
    have hinput : layout.input = job.input := (Layout.resolve_eq_ok hlayout).2.1
    simp only [hlayout, Layout.composed, hinput] at h
    cases hread : work.files.readText job.input with
    | error fault =>
      simp only [hread] at h
      cases h
    | ok text =>
      simp only [hread] at h
      cases hcompose : Composition.compose config layout.names text (some job.input) with
      | error error =>
        simp only [hcompose] at h
        cases h
      | ok composed =>
        simp only [hcompose] at h
        rcases hwrite : (Artifact.writeAll config.skipUnchanged
          (layout.artifacts composed)).outcome { work with notes } with ⟨_ | written, done⟩
        · simp only [hwrite] at h
          cases h
        · simp only [hwrite] at h
          cases h
          exact ⟨text, composed, notes, rfl, rfl, hcompose, hwrite⟩

end Job

namespace Run

/-- All that a run which succeeded has done. -/
structure Exact (config : Config) (job : Job) (before after : Workspace) (run : Run)
    (composed : Composition) (grammarPlace modulePlace : Location)
    (grammarStatus moduleStatus : FileStatus) : Prop where
  layout : job.layout config = .ok run.layout
  /-- The outputs are composed from the text of the input. -/
  source : ∃ text, before.files.readText job.input = .ok text ∧
    Composition.compose config run.layout.names text none = .ok composed
  grammar_read :
    after.files.read run.layout.grammarPath = .ok (Text.encode composed.grammarText)
  module_read :
    after.files.read run.layout.modulePath = .ok (Text.encode composed.moduleSource)
  grammar_locate : after.files.locate run.layout.grammarPath = .ok grammarPlace
  module_locate : after.files.locate run.layout.modulePath = .ok modulePlace
  /-- Other files are as they were, and nothing but directories is new. -/
  others : ∀ place, place ≠ grammarPlace → place ≠ modulePlace →
    after.files.node? place = before.files.node? place ∨
      before.files.node? place = none ∧ after.files.node? place = some .directory
  temporaries : after.temporaries.Perm before.temporaries
  written : run.written =
    [⟨run.layout.grammarPath, grammarStatus⟩, ⟨run.layout.modulePath, moduleStatus⟩]
  grammar_unchanged : grammarStatus = .unchanged ↔ config.skipUnchanged = true ∧
    before.files.read run.layout.grammarPath = .ok (Text.encode composed.grammarText)
  /-- Without steps back up in its path, the composed grammar could be read if it was there. -/
  grammar_unchanged_of_forward : ['.', '.'] ∉ run.layout.grammarPath.splitOn '/' →
    (grammarStatus = .unchanged ↔ config.skipUnchanged = true ∧
      before.files.node? grammarPlace = some (.file (Text.encode composed.grammarText)))
  module_unchanged : moduleStatus = .unchanged ↔ config.skipUnchanged = true ∧
    before.files.node? modulePlace = some (.file (Text.encode composed.moduleSource))
  /-- The run can be repeated, and then nothing happens. -/
  again : config.skipUnchanged = true →
    (∀ place, before.files.locate job.input = .ok place →
      place ≠ grammarPlace ∧ place ≠ modulePlace) →
    ∃ notes, (job.run config).outcome after =
      (.ok ⟨run.layout, [⟨run.layout.grammarPath, .unchanged⟩,
        ⟨run.layout.modulePath, .unchanged⟩]⟩, { after with notes })

end Run

namespace Job

variable {config : Config} {job : Job} {work after : Workspace} {layout : Layout}
  {composed : Composition} {p q : Location}

/-- Where both outputs are settled, a run has nothing to do. -/
theorem run_again {text : Text} {before : FileTree}
    (hlayout : job.layout config = .ok layout) (hskip : config.skipUnchanged = true)
    (hread : after.files.readText job.input = .ok text)
    (hcompose : Composition.compose config layout.names text (some job.input) = .ok composed)
    (h : Artifact.Settled ⟨layout.grammarPath, composed.grammarText⟩
      ⟨layout.modulePath, composed.moduleSource⟩ before after.files p q) :
    ∃ notes, (job.run config).outcome after =
      (.ok ⟨layout, [⟨layout.grammarPath, .unchanged⟩, ⟨layout.modulePath, .unchanged⟩]⟩,
        { after with notes }) := by
  obtain ⟨notes, heq⟩ := outcome_run_of_compose hlayout hread hcompose
  have hcurrent : ∀ artifact ∈ layout.artifacts composed,
      after.files.find artifact.path = .ok (.file artifact.bytes) := by
    intro artifact hmem
    rcases List.mem_pair.mp hmem with rfl | rfl
    · exact Artifact.exists_rests_iff.mp ⟨p, h.first⟩
    · exact Artifact.exists_rests_iff.mp ⟨q, h.second⟩
  obtain ⟨more, hwrite⟩ := @Artifact.writeAll_of_current { after with notes } _ hcurrent
  refine ⟨more, ?_⟩
  simp only [heq, hskip, hwrite]
  rfl

/-- A run that succeeds leaves exactly what was composed, says so, and can be repeated without
effect. -/
theorem exact_of_run {run : Run} (hrooted : work.files.Rooted)
    (h : (job.run config).outcome work = (.ok run, after)) :
    ∃ composed p q grammarStatus moduleStatus,
      Run.Exact config job work after run composed p q grammarStatus moduleStatus := by
  obtain ⟨text, composed, notes, hlayout, hread, hcompose, hwrite⟩ := run_eq_ok h
  obtain ⟨hnames, -, -, hsegments⟩ := Layout.resolve_eq_ok hlayout
  have hproper := Layout.proper_of_namesOf hnames
  obtain ⟨early, mid, late, staged, placed, hearly, hlate, hfirst, hsecond, hwritten⟩ :=
    Artifact.writeAll_pair_ok hwrite
  obtain ⟨p, q, hsettled⟩ := Artifact.settled_of_put
    (Layout.locate_ne hsegments hproper) hearly hlate hfirst hsecond
  have hstays : FileTree.Stays mid.files after.files :=
    (Artifact.grows_stage hlate).stays.trans
      ((Artifact.stays_put hfirst).trans (Artifact.stays_put hsecond))
  have hperm := Artifact.perm_writeAll hwrite
  have hearlyIff := Artifact.stage_eq_none_iff hearly
  have hlateIff := Artifact.stage_eq_none_iff hlate
  rw [Layout.module_find_iff hearly hrooted hsegments hproper rfl rfl hstays hsettled.second.locate]
    at hlateIff
  refine ⟨composed, p, q, Artifact.statusOf early, Artifact.statusOf late,
    { layout := hlayout
      source := ⟨text, hread, Composition.compose_of_path hcompose⟩
      grammar_read := FileTree.read_eq_ok_iff.mpr (Artifact.exists_rests_iff.mp ⟨p, hsettled.first⟩)
      module_read := FileTree.read_eq_ok_iff.mpr (Artifact.exists_rests_iff.mp ⟨q, hsettled.second⟩)
      grammar_locate := hsettled.first.locate
      module_locate := hsettled.second.locate
      others := hsettled.others
      temporaries := hperm
      written := hwritten
      grammar_unchanged := ?_
      grammar_unchanged_of_forward := ?_
      module_unchanged := Artifact.statusOf_eq_unchanged_iff.trans hlateIff
      again := ?_ }⟩
  · rw [FileTree.read_eq_ok_iff]
    exact Artifact.statusOf_eq_unchanged_iff.trans hearlyIff
  · intro hforward
    have hplain := Layout.plain_of_forward hsegments hproper (by simp [Layout.outputs]) hforward
    have hp : p = work.files.destination run.layout.grammarPath := by
      rw [← hsettled.stays.destination_eq]
      exact FileTree.eq_destination_of_locate hforward hsettled.first.locate
    rw [hp, ← hrooted.find_eq_ok_iff hplain]
    exact Artifact.statusOf_eq_unchanged_iff.trans hearlyIff
  · intro hskip hother
    exact run_again hlayout hskip (Artifact.readText_of_settled hsettled hother hread) hcompose hsettled

end Job
end Engine

namespace Job

def stale : Workspace where
  files.entries :=
    [(["src".toList], .directory), (["src".toList, "com".toList], .directory),
      (["src".toList, "com".toList, "foo.bnf".toList],
        .file (Text.encode "x ::= 'q'\n".toList)),
      (["out".toList], .directory), (["out".toList, "foo_gen.bnf".toList], .file [7])]

def staleJob : Job := ⟨"src/com/foo.bnf".toList, "src".toList, "out".toList⟩

def staleLayout : Layout where
  names := ⟨"com".toList, "foo".toList⟩
  input := "src/com/foo.bnf".toList
  outputDir := "out".toList
  grammarPath := "out/foo_gen.bnf".toList
  modulePath := "out/com/FooParserUtil.kt".toList

theorem exact_of_run_stale :
    stale.files.Rooted ∧
      ∃ run after composed p q grammarStatus moduleStatus notes,
        (staleJob.run {}).outcome stale = (.ok run, after) ∧
        Run.Exact {} staleJob stale after run composed p q grammarStatus moduleStatus ∧
        (staleJob.run {}).outcome after =
          (.ok ⟨run.layout, [⟨run.layout.grammarPath, .unchanged⟩,
            ⟨run.layout.modulePath, .unchanged⟩]⟩, { after with notes }) := by
  have hrooted : stale.files.Rooted := by decide
  have hok : ((staleJob.run {}).outcome stale).1.isOk = true := by decide +kernel
  have hlayout : staleJob.layout {} = .ok staleLayout := by rfl
  have hinput : stale.files.locate staleJob.input =
      .ok ["src".toList, "com".toList, "foo.bnf".toList] := by rfl
  rcases hrun : (staleJob.run {}).outcome stale with ⟨_ | run, after⟩
  · rw [hrun] at hok
    cases hok
  obtain ⟨composed, p, q, grammarStatus, moduleStatus, h⟩ := exact_of_run hrooted hrun
  have hlast : p.getLast? = some "foo_gen.bnf".toList ∧
      q.getLast? = some "FooParserUtil.kt".toList := by
    have hrunLayout : run.layout = staleLayout := Except.ok.inj (h.layout.symm.trans hlayout)
    have hgrammar := h.grammar_locate
    have hmodule := h.module_locate
    rw [hrunLayout] at hgrammar hmodule
    have hsplitGrammar : staleLayout.grammarPath.splitOn '/' =
        ["out".toList] ++ ["foo_gen.bnf".toList] := by rfl
    have hsplitModule : staleLayout.modulePath.splitOn '/' =
        ["out".toList, "com".toList] ++ ["FooParserUtil.kt".toList] := by rfl
    exact ⟨FileTree.getLast?_of_locate hsplitGrammar ⟨by decide, by decide, by decide⟩ hgrammar,
      FileTree.getLast?_of_locate hsplitModule ⟨by decide, by decide, by decide⟩ hmodule⟩
  have hother : ∀ place, stale.files.locate staleJob.input = .ok place → place ≠ p ∧ place ≠ q := by
    intro place hplace
    rw [hinput, Except.ok.injEq] at hplace
    rw [← hplace]
    constructor
    · rintro rfl
      exact absurd hlast.1 (by decide)
    · rintro rfl
      exact absurd hlast.2 (by decide)
  obtain ⟨notes, hagain⟩ := h.again rfl hother
  exact ⟨hrooted, run, after, composed, p, q, grammarStatus, moduleStatus, notes, rfl, h, hagain⟩

def beside (composed : Composition) : Workspace where
  files.entries :=
    [(["f.bnf".toList], .file (Text.encode "x ::= 'q'\n".toList)),
      (["f_gen.bnf".toList], .file (Text.encode composed.grammarText)),
      (["FParserUtil.kt".toList], .file (Text.encode composed.moduleSource))]

/-- The directory of the outputs is reached through a directory that is not there yet. -/
def roundabout : Job := ⟨"f.bnf".toList, [], "n/..".toList⟩

def roundaboutLayout : Layout where
  names := ⟨[], "f".toList⟩
  input := "f.bnf".toList
  outputDir := "n/..".toList
  grammarPath := "n/../f_gen.bnf".toList
  modulePath := "n/../FParserUtil.kt".toList

/-- The composed grammar cannot be read before the directory is made, and the module can. -/
theorem writeAll_roundabout (composed : Composition) (notes : List Note) :
    ∃ after, (Artifact.writeAll true (roundaboutLayout.artifacts composed)).outcome
        { beside composed with notes } =
        (.ok [⟨roundaboutLayout.grammarPath, .written⟩,
          ⟨roundaboutLayout.modulePath, .unchanged⟩], after) ∧
      after.files.locate roundaboutLayout.grammarPath = .ok ["f_gen.bnf".toList] := by
  generalize hwork : beside composed = work
  generalize hmade : work.files.set ["n".toList] .directory = made
  generalize htemporary : Temporary.mk [] (Text.encode composed.grammarText) = temporary
  have hread : work.files.read roundaboutLayout.grammarPath = .error .notFound := hwork ▸ rfl
  have hfirst : (Artifact.stage true ⟨roundaboutLayout.grammarPath, composed.grammarText⟩).outcome
      { work with notes } = (.ok (some temporary), ⟨made, notes, [temporary]⟩) := by
    have hcreate : work.files.createDirectories "n/..".toList = (.ok (), made) :=
      hmade ▸ hwork ▸ rfl
    have hplace : made.locateDirectory "n/..".toList = .ok [] := hmade ▸ hwork ▸ rfl
    have hdirectory : Artifact.directory ⟨roundaboutLayout.grammarPath, composed.grammarText⟩ =
        "n/..".toList := rfl
    rw [Artifact.stage_of_stale (by simp [Artifact.isCurrent, hread])]
    simp only [hdirectory, hcreate, hplace]
    rw [← htemporary, ← hwork]
    rfl
  have hfind : made.find roundaboutLayout.modulePath =
      .ok (.file (Text.encode composed.moduleSource)) := hmade ▸ hwork ▸ rfl
  obtain ⟨more, hsecond⟩ :=
    @Artifact.stage_of_current true ⟨roundaboutLayout.modulePath, composed.moduleSource⟩
      ⟨made, notes, [temporary]⟩ (Bool.and_eq_true_iff.mpr ⟨rfl, Artifact.isCurrent_iff.mpr hfind⟩)
  have hput : made.replaceFile roundaboutLayout.grammarPath temporary.bytes =
      .ok (made.set ["f_gen.bnf".toList] (.file temporary.bytes)) := hmade ▸ hwork ▸ rfl
  have hlocate : (made.set ["f_gen.bnf".toList] (.file temporary.bytes)).locate
      roundaboutLayout.grammarPath = .ok ["f_gen.bnf".toList] := hmade ▸ hwork ▸ rfl
  simp only [Layout.artifacts, Artifact.writeAll, Artifact.stageAll, Artifact.placeAll,
    Artifact.place, Session.outcome_bind, Session.outcome_owning, Session.outcome_pure,
    Session.outcome_persist, Session.outcome_leave, hfirst, hsecond, hput]
  exact ⟨_, rfl, hlocate⟩

/-- A file that holds the right bytes already can be written again, and a path that could not
be read can be found unchanged: both happen where a path goes back up. -/
theorem written_though_current :
    ∃ composed run after,
      (beside composed).files.Rooted ∧
      (roundabout.run {}).outcome (beside composed) = (.ok run, after) ∧
      Composition.compose {} run.layout.names "x ::= 'q'\n".toList none = .ok composed ∧
      after.files.locate run.layout.grammarPath = .ok ["f_gen.bnf".toList] ∧
      (beside composed).files.node? ["f_gen.bnf".toList] =
        some (.file (Text.encode composed.grammarText)) ∧
      (beside composed).files.read run.layout.modulePath = .error .notFound ∧
      run.written = [⟨run.layout.grammarPath, .written⟩, ⟨run.layout.modulePath, .unchanged⟩] := by
  have hok : (Composition.compose {} roundaboutLayout.names "x ::= 'q'\n".toList
      (some "f.bnf".toList)).isOk = true := by decide +kernel
  rcases hcompose : Composition.compose {} roundaboutLayout.names "x ::= 'q'\n".toList
      (some "f.bnf".toList) with _ | composed
  · rw [hcompose] at hok
    cases hok
  have hlayout : roundabout.layout {} = .ok roundaboutLayout := by rfl
  have hread : (beside composed).files.readText roundabout.input =
      .ok "x ::= 'q'\n".toList := by rfl
  obtain ⟨notes, heq⟩ := outcome_run_of_compose hlayout hread hcompose
  obtain ⟨after, hwrite, hlocate⟩ := writeAll_roundabout composed notes
  have hrooted : (beside composed).files.Rooted :=
    FileTree.rooted_iff.mpr ⟨rfl, by simp [beside]⟩
  refine ⟨composed, ⟨roundaboutLayout, [⟨roundaboutLayout.grammarPath, .written⟩,
    ⟨roundaboutLayout.modulePath, .unchanged⟩]⟩, after, hrooted, ?_,
    Composition.compose_of_path hcompose, hlocate, rfl, rfl, rfl⟩
  simp only [heq, hwrite]

end Job
end OpenGrammar
