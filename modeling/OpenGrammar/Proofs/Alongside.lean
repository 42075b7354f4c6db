import OpenGrammar.Proofs.ForwardPaths
import OpenGrammar.Proofs.Runs

/-! Work on two file trees alongside each other. Trees that cannot be told apart where
artifacts go give the same results when these are written, and change in the same way. -/
namespace OpenGrammar
namespace FileTree

/-! Two trees alongside each other -/

/-- Two trees that cannot be told apart at some locations. -/
structure Alike (watched : List Location) (tree other : FileTree) : Prop where
  home_eq : other.home = tree.home
  rooted : tree.Rooted
  other_rooted : other.Rooted
  alikeTo : ∀ place ∈ watched, AlikeTo place tree other

/-- What may happen at a location when two trees change alongside each other: nothing, the
same at an output, or a directory on the way to one where no file was. -/
inductive MovedAt (outputs : List Location) (tree after other otherAfter : FileTree)
    (place : Location) : Prop
  | still (h : after.node? place = tree.node? place)
      (ho : otherAfter.node? place = other.node? place)
  | output (hmem : place ∈ outputs) (h : after.node? place = otherAfter.node? place)
  | directory {output : Location} (hmem : output ∈ outputs) (hway : place <+: output)
      (hfree : ∀ bytes, tree.node? place ≠ some (.file bytes))
      (h : after.node? place = some .directory) (ho : otherAfter.node? place = some .directory)

structure Moved (outputs : List Location) (tree after other otherAfter : FileTree) : Prop where
  home_eq : after.home = tree.home
  other_home_eq : otherAfter.home = other.home
  rooted : after.Rooted
  other_rooted : otherAfter.Rooted
  moved : ∀ place, MovedAt outputs tree after other otherAfter place

section Moved

variable {watched outputs : List Location} {tree after other otherAfter : FileTree}

theorem Alike.moved_self (h : Alike watched tree other) : Moved outputs tree tree other other :=
  ⟨rfl, rfl, h.rooted, h.other_rooted, fun _ => .still rfl rfl⟩

theorem Alike.mono {fewer : List Location} (h : Alike watched tree other) (hs : fewer ⊆ watched) :
    Alike fewer tree other :=
  ⟨h.home_eq, h.rooted, h.other_rooted, fun place hmem => h.alikeTo place (hs hmem)⟩

/-- Trees that change alongside each other still cannot be told apart. -/
theorem Alike.of_moved (h : Alike watched tree other)
    (hm : Moved outputs tree after other otherAfter) : Alike watched after otherAfter := by
  refine ⟨?_, hm.rooted, hm.other_rooted, fun place hmem => ⟨?_, fun above hp bytes => ?_⟩⟩
  · rw [hm.home_eq, hm.other_home_eq, h.home_eq]
  · cases hm.moved place with
    | still heq hother => rw [heq, hother, (h.alikeTo place hmem).node?_eq]
    | output _ heq => exact heq
    | directory _ _ _ hd hdo => rw [hd, hdo]
  · cases hm.moved above with
    | still heq hother => rw [heq, hother, (h.alikeTo place hmem).file_iff above hp]
    | output _ heq => rw [heq]
    | directory _ _ _ hd hdo => rw [hd, hdo]

theorem Moved.trans {last otherLast : FileTree} (h : Moved outputs tree after other otherAfter)
    (h' : Moved outputs after last otherAfter otherLast) :
    Moved outputs tree last other otherLast := by
  refine ⟨h'.home_eq.trans h.home_eq, h'.other_home_eq.trans h.other_home_eq, h'.rooted,
    h'.other_rooted, fun place => ?_⟩
  cases h'.moved place with
  | still heq hother =>
    cases h.moved place with
    | still hfirst hotherFirst => exact .still (heq.trans hfirst) (hother.trans hotherFirst)
    | output hmem hfirst => exact .output hmem (by rw [heq, hother, hfirst])
    | directory hmem hway hfree hd hdo =>
      exact .directory hmem hway hfree (heq.trans hd) (hother.trans hdo)
  | output hmem heq => exact .output hmem heq
  | directory hmem hway hfree hd hdo =>
    cases h.moved place with
    | still hfirst _ => exact .directory hmem hway (hfirst ▸ hfree) hd hdo
    | output hout _ => exact .output hout (hd.trans hdo.symm)
    | directory _ _ hfirst _ _ => exact .directory hmem hway hfirst hd hdo

theorem Alike.clear_iff {place above : Location} (h : Alike watched tree other)
    (hmem : place ∈ watched) (hp : above <+: place) : Clear above tree ↔ Clear above other := by
  have hfile : ∀ further, further <+: above → ∀ bytes,
      tree.node? further = some (.file bytes) ↔ other.node? further = some (.file bytes) :=
    fun further hf => (h.alikeTo place hmem).file_iff further (hf.trans hp)
  exact forall₃_congr fun further hf bytes => not_congr (hfile further hf bytes)

end Moved
end FileTree

namespace Session

variable {α β : Type} {session : Session α} {outputs : List Location} {work other : Workspace}

/-- A session has the same result in two workspaces, and their files change alongside each
other. -/
structure Alongside (outputs : List Location) (work other : Workspace) (session : Session α) :
    Prop where
  result_eq : (session.outcome work).1 = (session.outcome other).1
  moved : FileTree.Moved outputs work.files (session.outcome work).2.files
    other.files (session.outcome other).2.files

theorem alongside_pure (h : FileTree.Alike outputs work.files other.files) (a : α) :
    Alongside outputs work other (pure a : Session α) :=
  ⟨rfl, h.moved_self⟩

theorem Alongside.of_outcome {result : Except Error α} {after otherAfter : Workspace}
    (h : session.outcome work = (result, after)) (ho : session.outcome other = (result, otherAfter))
    (hm : FileTree.Moved outputs work.files after.files other.files otherAfter.files) :
    Alongside outputs work other session := by
  refine ⟨?_, ?_⟩
  · rw [h, ho]
  · rw [h, ho]
    exact hm

theorem Alongside.exists_outcome (h : Alongside outputs work other session) :
    ∃ result mid otherMid, session.outcome work = (result, mid) ∧
      session.outcome other = (result, otherMid) ∧
      FileTree.Moved outputs work.files mid.files other.files otherMid.files :=
  ⟨(session.outcome work).1, (session.outcome work).2, (session.outcome other).2, rfl,
    Prod.ext h.result_eq.symm rfl, h.moved⟩

theorem Alongside.bind {next : α → Session β} (h : Alongside outputs work other session)
    (hnext : ∀ a mid otherMid, session.outcome work = (.ok a, mid) →
      session.outcome other = (.ok a, otherMid) → Alongside outputs mid otherMid (next a)) :
    Alongside outputs work other (session >>= next) := by
  obtain ⟨result, mid, otherMid, hwork, hother, hmoved⟩ := h.exists_outcome
  cases result with
  | error error =>
    have hstop : (session >>= next).outcome work = (.error error, mid) := by
      rw [outcome_bind, hwork]
    have hotherStop : (session >>= next).outcome other = (.error error, otherMid) := by
      rw [outcome_bind, hother]
    exact .of_outcome hstop hotherStop hmoved
  | ok a =>
    have hstep := hnext a mid otherMid hwork hother
    refine ⟨?_, ?_⟩
    · rw [outcome_bind, outcome_bind, hwork, hother]
      exact hstep.result_eq
    · rw [outcome_bind, outcome_bind, hwork, hother]
      exact hmoved.trans hstep.moved

theorem Alongside.owning (h : Alongside outputs work other session) (owned : List Temporary) :
    Alongside outputs work other (Session.owning owned session) := by
  obtain ⟨result, mid, otherMid, hwork, hother, hmoved⟩ := h.exists_outcome
  cases result with
  | error error =>
    refine .of_outcome (by rw [outcome_owning, hwork]) (by rw [outcome_owning, hother]) ?_
    exact hmoved
  | ok a =>
    exact .of_outcome (by rw [outcome_owning, hwork]) (by rw [outcome_owning, hother]) hmoved

theorem outcome_owning_eq_ok {owned : List Temporary} {a : α} {after : Workspace} :
    (owning owned session).outcome work = (.ok a, after) ↔
      session.outcome work = (.ok a, after) := by
  rw [outcome_owning]
  rcases session.outcome work with ⟨error | b, mid⟩ <;> simp

theorem Alongside.home_eq (h : Alongside outputs work other session) {a : α} {mid : Workspace}
    (hwork : session.outcome work = (.ok a, mid)) : mid.files.home = work.files.home := by
  have hhome := h.moved.home_eq
  rwa [hwork] at hhome

theorem Alongside.alike (h : Alongside outputs work other session) {watched : List Location}
    (halike : FileTree.Alike watched work.files other.files) {a : α} {mid otherMid : Workspace}
    (hwork : session.outcome work = (.ok a, mid))
    (hother : session.outcome other = (.ok a, otherMid)) :
    FileTree.Alike watched mid.files otherMid.files := by
  have hmoved := h.moved
  rw [hwork, hother] at hmoved
  exact halike.of_moved hmoved

end Session

/-! Writing in two trees -/

namespace Artifact

variable {skip : Bool} {artifact : Artifact} {artifacts : List Artifact}
  {work other : Workspace} {outputs : List Location}

theorem directory_ne_nil (artifact : Artifact) : artifact.directory ≠ [] := by
  unfold directory
  rcases Path.parent? artifact.path with _ | _ | ⟨c, rest⟩ <;> simp

theorem isCurrent_eq {tree otherTree : FileTree} (h : FileTree.Alike outputs tree otherTree)
    (hp : Path.Plain artifact.path) (hmem : tree.destination artifact.path ∈ outputs) :
    artifact.isCurrent tree = artifact.isCurrent otherTree := by
  have hfind := (h.alikeTo _ hmem).find_eq h.home_eq h.rooted h.other_rooted hp.forward
  simp only [isCurrent, FileTree.read, hfind]

/-- With a clear way, an artifact that is not current is staged in its directory. -/
theorem stage_of_clear (h : (skip && artifact.isCurrent work.files) = false)
    (hr : work.files.Rooted) (hp : Path.Plain artifact.path)
    (hclear : FileTree.Clear (work.files.destination artifact.path).dropLast work.files) :
    ∃ made, FileTree.Filled (work.files.destination artifact.path).dropLast work.files made ∧
      made.Rooted ∧ (artifact.stage skip).outcome work =
        (.ok (some ⟨(work.files.destination artifact.path).dropLast, artifact.bytes⟩),
          ⟨made, work.notes, ⟨(work.files.destination artifact.path).dropLast, artifact.bytes⟩ ::
            work.temporaries⟩) := by
  have hforward := forward_directory hp
  rw [← FileTree.destination_directory hp] at hclear ⊢
  obtain ⟨made, hmade, hfilled⟩ := hr.createDirectories_of_clear hforward hclear
  have hrm : made.Rooted := by
    have hrooted := hr.createDirectories artifact.directory
    rwa [hmade] at hrooted
  have hdestination := FileTree.destination_of_home hfilled.home_eq artifact.directory
  have hplace := hrm.locateDirectory_eq artifact.directory_ne_nil hforward
    (hdestination ▸ hfilled.directory _ List.prefix_rfl)
  rw [hdestination] at hplace
  refine ⟨made, hfilled, hrm, ?_⟩
  simp only [stage_of_stale h, hmade, hplace]

/-- With a file in the way, staging an artifact that is not current changes nothing. -/
theorem stage_of_file {file : Location} {bytes : List UInt8}
    (h : (skip && artifact.isCurrent work.files) = false)
    (hr : work.files.Rooted) (hp : Path.Plain artifact.path)
    (hway : file <+: (work.files.destination artifact.path).dropLast)
    (hfile : work.files.node? file = some (.file bytes)) :
    (artifact.stage skip).outcome work =
      (.error (.file artifact.directory
        (if file = (work.files.destination artifact.path).dropLast then .alreadyExists
          else .notDirectory)), work) := by
  rw [← FileTree.destination_directory hp] at hway ⊢
  have hmade := hr.createDirectories_of_file (forward_directory hp) hway hfile
  simp only [stage_of_stale h, hmade]

theorem alongside_stage (h : FileTree.Alike outputs work.files other.files)
    (hp : Path.Plain artifact.path) (hmem : work.files.destination artifact.path ∈ outputs) :
    Session.Alongside outputs work other (artifact.stage skip) := by
  have hcurrent := isCurrent_eq h hp hmem
  have hdestination := FileTree.destination_of_home h.home_eq artifact.path
  have hup := List.dropLast_prefix (work.files.destination artifact.path)
  cases hskip : skip && artifact.isCurrent work.files with
  | true =>
    obtain ⟨notes, hstage⟩ := stage_of_current hskip
    obtain ⟨otherNotes, hother⟩ := @stage_of_current skip artifact other (hcurrent ▸ hskip)
    exact .of_outcome hstage hother h.moved_self
  | false =>
    have hskipOther : (skip && artifact.isCurrent other.files) = false := hcurrent ▸ hskip
    by_cases hclear : FileTree.Clear (work.files.destination artifact.path).dropLast work.files
    · have hclearOther := (h.clear_iff hmem hup).mp hclear
      obtain ⟨made, hfilled, hrm, hstage⟩ := stage_of_clear hskip h.rooted hp hclear
      obtain ⟨otherMade, hotherFilled, hrmOther, hother⟩ :=
        stage_of_clear hskipOther h.other_rooted hp (hdestination.symm ▸ hclearOther)
      rw [hdestination] at hotherFilled hother
      refine .of_outcome hstage hother
        ⟨hfilled.home_eq, hotherFilled.home_eq, hrm, hrmOther, fun place => ?_⟩
      by_cases hway : place <+: (work.files.destination artifact.path).dropLast
      · exact .directory hmem (hway.trans hup) (hclear place hway) (hfilled.directory place hway)
          (hotherFilled.directory place hway)
      · exact .still (hfilled.others place hway) (hotherFilled.others place hway)
    · obtain ⟨file, hway, bytes, hfile⟩ : ∃ file,
          file <+: (work.files.destination artifact.path).dropLast ∧
            ∃ bytes, work.files.node? file = some (.file bytes) := by
        simpa [FileTree.Clear] using hclear
      have hfileOther := ((h.alikeTo _ hmem).file_iff file (hway.trans hup) bytes).mp hfile
      have hother :=
        stage_of_file hskipOther h.other_rooted hp (hdestination.symm ▸ hway) hfileOther
      rw [hdestination] at hother
      exact .of_outcome (stage_of_file hskip h.rooted hp hway hfile) hother h.moved_self

def Aimed (outputs : List Location) (tree : FileTree) (artifacts : List Artifact) : Prop :=
  ∀ artifact ∈ artifacts,
    Path.Plain artifact.path ∧ tree.destination artifact.path ∈ outputs

theorem Aimed.of_home {tree otherTree : FileTree} (h : Aimed outputs tree artifacts)
    (hhome : otherTree.home = tree.home) : Aimed outputs otherTree artifacts := by
  intro artifact hmem
  rw [FileTree.destination_of_home hhome]
  exact h artifact hmem

theorem alongside_stageAll (h : FileTree.Alike outputs work.files other.files)
    (haimed : Aimed outputs work.files artifacts) :
    Session.Alongside outputs work other (stageAll skip artifacts) := by
  induction artifacts generalizing work other with
  | nil => exact Session.alongside_pure h []
  | cons artifact rest ih =>
    obtain ⟨hplain, hmem⟩ := haimed artifact List.mem_cons_self
    have hstage : Session.Alongside outputs work other (artifact.stage skip) :=
      alongside_stage h hplain hmem
    refine hstage.bind fun staged mid otherMid hwork hother => ?_
    have halike := hstage.alike h hwork hother
    have haimedRest : Aimed outputs mid.files rest := Aimed.of_home
      (fun next hnext => haimed next (List.mem_cons_of_mem artifact hnext)) (hstage.home_eq hwork)
    have hrest := (ih halike haimedRest).owning staged.toList
    refine hrest.bind fun others last otherLast hlast hotherLast => ?_
    exact Session.alongside_pure (hrest.alike halike hlast hotherLast) _

def Ready (tree : FileTree) (staged : List (Artifact × Option Temporary)) : Prop :=
  ∀ artifact temporary, (artifact, some temporary) ∈ staged →
    tree.node? (tree.destination artifact.path).dropLast = some .directory

theorem Ready.of_subset {tree : FileTree} {staged fewer : List (Artifact × Option Temporary)}
    (h : Ready tree staged) (hs : fewer ⊆ staged) : Ready tree fewer :=
  fun artifact temporary hmem => h artifact temporary (hs hmem)

theorem Ready.of_stays {tree later : FileTree} {staged : List (Artifact × Option Temporary)}
    (h : Ready tree staged) (hs : FileTree.Stays tree later) : Ready later staged := by
  intro artifact temporary hmem
  rw [hs.destination_eq]
  exact hs.directory (h artifact temporary hmem)

theorem ready_of_stageAll {staged : List (Artifact × Option Temporary)} {after : Workspace}
    (haimed : Aimed outputs work.files artifacts)
    (h : (stageAll skip artifacts).outcome work = (.ok staged, after)) :
    Ready after.files staged := by
  intro artifact temporary hmem
  obtain ⟨hmap, -, hready, -⟩ := stageAll_ok h
  have hartifact : artifact ∈ artifacts := hmap ▸ List.mem_map.mpr ⟨_, hmem, rfl⟩
  exact directory_of_ready (haimed artifact hartifact).1
    ⟨temporary.directory, (hready artifact temporary hmem).2⟩

theorem place_of_error {staged : Option Temporary} {fault : FileFault}
    (h : put work.files (artifact, staged) = .error fault) :
    ∃ left, (artifact.place staged).outcome work =
      (.error (.file artifact.path fault), { work with temporaries := left }) := by
  rcases outcome_place artifact staged work with ⟨_, hput, heq⟩ | ⟨_, _, hput, -⟩
  · cases h.symm.trans hput
    exact ⟨_, heq⟩
  · cases h.symm.trans hput

theorem place_of_ok {staged : Option Temporary} {files : FileTree}
    (h : put work.files (artifact, staged) = .ok files) :
    ∃ notes left, (artifact.place staged).outcome work =
      (.ok ⟨artifact.path, statusOf staged⟩, ⟨files, notes, left⟩) := by
  rcases outcome_place artifact staged work with ⟨_, hput, -⟩ | ⟨_, notes, hput, heq⟩
  · cases h.symm.trans hput
  · cases h.symm.trans hput
    exact ⟨notes, _, heq⟩

theorem stays_place {staged : Option Temporary} {file : OutputFile} {after : Workspace}
    (h : (artifact.place staged).outcome work = (.ok file, after)) :
    FileTree.Stays work.files after.files := by
  rcases outcome_place artifact staged work with ⟨fault, -, heq⟩ | ⟨files, notes, hput, heq⟩
  · rw [heq] at h
    cases h
  · rw [heq] at h
    cases h
    exact stays_put hput

/-- With its directory in both trees, an artifact can be placed in both, or in neither. -/
theorem alongside_place (h : FileTree.Alike outputs work.files other.files)
    (hp : Path.Plain artifact.path) (hmem : work.files.destination artifact.path ∈ outputs)
    {staged : Option Temporary} (hready : Ready work.files [(artifact, staged)])
    (hotherReady : Ready other.files [(artifact, staged)]) :
    Session.Alongside outputs work other (artifact.place staged) := by
  cases staged with
  | none => exact Session.alongside_pure h _
  | some temporary =>
    have hput : put work.files (artifact, some temporary) = _ := h.rooted.replaceFile_eq hp
      (hready artifact temporary List.mem_cons_self) temporary.bytes
    have hotherPut : put other.files (artifact, some temporary) = _ :=
      h.other_rooted.replaceFile_eq hp
        (hotherReady artifact temporary List.mem_cons_self) temporary.bytes
    rw [FileTree.destination_of_home h.home_eq, ← (h.alikeTo _ hmem).node?_eq] at hotherPut
    by_cases hdirectory : work.files.node? (work.files.destination artifact.path) = some .directory
    · rw [if_pos hdirectory] at hput hotherPut
      obtain ⟨left, heq⟩ := place_of_error hput
      obtain ⟨otherLeft, hother⟩ := place_of_error hotherPut
      exact .of_outcome heq hother h.moved_self
    · rw [if_neg hdirectory] at hput hotherPut
      obtain ⟨notes, left, heq⟩ := place_of_ok hput
      obtain ⟨otherNotes, otherLeft, hother⟩ := place_of_ok hotherPut
      refine .of_outcome heq hother ⟨rfl, rfl, h.rooted.replaceFile hput,
        h.other_rooted.replaceFile hotherPut, fun place => ?_⟩
      by_cases hplace : place = work.files.destination artifact.path
      · have hne : work.files.destination artifact.path ≠ [] := FileTree.destination_ne_nil hp
        rw [hplace]
        exact .output hmem (by rw [FileTree.node?_set_self hne, FileTree.node?_set_self hne])
      · exact .still (FileTree.node?_set_of_ne hplace ..) (FileTree.node?_set_of_ne hplace ..)

theorem alongside_placeAll {staged : List (Artifact × Option Temporary)}
    (h : FileTree.Alike outputs work.files other.files)
    (haimed : Aimed outputs work.files (staged.map (·.1))) (hready : Ready work.files staged)
    (hotherReady : Ready other.files staged) :
    Session.Alongside outputs work other (placeAll staged) := by
  induction staged generalizing work other with
  | nil => exact Session.alongside_pure h []
  | cons entry rest ih =>
    obtain ⟨artifact, staged⟩ := entry
    obtain ⟨hplain, hmem⟩ := haimed artifact List.mem_cons_self
    have hfirst : [(artifact, staged)] ⊆ (artifact, staged) :: rest := by simp
    have hplace := alongside_place h hplain hmem (hready.of_subset hfirst)
      (hotherReady.of_subset hfirst)
    have howning := hplace.owning (rest.filterMap (·.2))
    refine howning.bind fun file mid otherMid hwork hother => ?_
    rw [Session.outcome_owning_eq_ok] at hwork hother
    have halike := hplace.alike h hwork hother
    have hstays := stays_place hwork
    have haimedRest : Aimed outputs mid.files (rest.map (·.1)) := Aimed.of_home
      (fun next hnext => haimed next (List.mem_cons_of_mem artifact hnext)) (hplace.home_eq hwork)
    have hrest := ih halike haimedRest
      ((hready.of_subset (List.subset_cons_self ..)).of_stays hstays)
      ((hotherReady.of_subset (List.subset_cons_self ..)).of_stays (stays_place hother))
    refine hrest.bind fun others last otherLast hlast hotherLast => ?_
    exact Session.alongside_pure (hrest.alike halike hlast hotherLast) _

theorem alongside_writeAll (h : FileTree.Alike outputs work.files other.files)
    (haimed : Aimed outputs work.files artifacts) :
    Session.Alongside outputs work other (writeAll skip artifacts) := by
  have hstage : Session.Alongside outputs work other (stageAll skip artifacts) :=
    alongside_stageAll h haimed
  refine hstage.bind fun staged mid otherMid hwork hother => ?_
  refine alongside_placeAll (hstage.alike h hwork hother) ?_ (ready_of_stageAll haimed hwork)
    (ready_of_stageAll (haimed.of_home h.home_eq) hother)
  rw [(stageAll_ok hwork).1]
  exact haimed.of_home (hstage.home_eq hwork)

end Artifact
end OpenGrammar
