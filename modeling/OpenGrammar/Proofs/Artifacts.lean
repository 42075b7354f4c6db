import Mathlib.Data.List.Perm.Basic
import OpenGrammar.Proofs.PlainPaths

/-! Writing files together. Whatever becomes of it, no temporary file is left. A pair of
artifacts that fails leaves what was there, with one exception: the first is in its place
already when the second meets a directory in its own. -/
namespace OpenGrammar
namespace Session

variable {α β : Type}

/-! What a session does, step by step -/

@[simp] theorem outcome_pure (a : α) (work : Workspace) :
    (pure a : Session α).outcome work = (.ok a, work) := rfl

theorem outcome_bind (session : Session α) (next : α → Session β) (work : Workspace) :
    (session >>= next).outcome work =
      match session.outcome work with
      | (.ok a, mid) => (next a).outcome mid
      | (.error error, mid) => (.error error, mid) := by
  have hrun : (session >>= next).outcome work =
      (ExceptT.bindCont next (session.outcome work).1).run (session.outcome work).2 := rfl
  rw [hrun]
  obtain ⟨result, mid⟩ := session.outcome work
  cases result <;> rfl

theorem outcome_owning (owned : List Temporary) (session : Session α) (work : Workspace) :
    (owning owned session).outcome work =
      match session.outcome work with
      | (.ok a, mid) => (.ok a, mid)
      | (.error error, mid) =>
        (.error error, { mid with temporaries := owned.foldl List.erase mid.temporaries }) := by
  simp only [outcome, owning, tryCatch, tryCatchThe, MonadExceptOf.tryCatch, ExceptT.tryCatch,
    ExceptT.run, ExceptT.mk, StateT.run, bind, StateT.bind]
  rcases session work with ⟨_ | _, mid⟩ <;> rfl

@[simp] theorem outcome_leave (notes : List Note) (work : Workspace) :
    (leave notes).outcome work = (.ok (), { work with notes := work.notes ++ notes }) := rfl

theorem outcome_ofFile (path : Text) (result : Except FileFault α) (work : Workspace) :
    (ofFile path result).outcome work = (result.mapError (Error.file path), work) := rfl

@[simp] theorem outcome_files (work : Workspace) : files.outcome work = (.ok work.files, work) :=
  rfl

theorem outcome_createDirectories (path : Text) (work : Workspace) :
    (createDirectories path).outcome work =
      ((work.files.createDirectories path).1.mapError (Error.file path),
        { work with files := (work.files.createDirectories path).2 }) := rfl

theorem outcome_createTemporary (path : Text) (bytes : List UInt8) (work : Workspace) :
    (createTemporary path bytes).outcome work =
      match work.files.locateDirectory path with
      | .ok place =>
        (.ok ⟨place, bytes⟩, { work with temporaries := ⟨place, bytes⟩ :: work.temporaries })
      | .error fault => (.error (.file path fault), work) := by
  simp only [createTemporary, outcome_bind, outcome_files, outcome_ofFile]
  cases work.files.locateDirectory path <;> rfl

theorem outcome_persist (temporary : Temporary) (path : Text) (work : Workspace) :
    (persist temporary path).outcome work =
      match work.files.replaceFile path temporary.bytes with
      | .ok files =>
        (.ok (), { work with files, temporaries := work.temporaries.erase temporary })
      | .error fault =>
        (.error (.file path fault),
          { work with temporaries := work.temporaries.erase temporary }) := by
  have hdrop : (dropTemporaries [temporary]).outcome work =
      (.ok (), { work with temporaries := work.temporaries.erase temporary }) := rfl
  simp only [persist, replaceFile, outcome_bind, hdrop, outcome_files, outcome_ofFile]
  cases work.files.replaceFile path temporary.bytes <;> rfl

end Session

namespace Artifact

variable {skip : Bool} {artifact : Artifact} {artifacts : List Artifact}
  {staged : List (Artifact × Option Temporary)} {work after : Workspace} {error : Error}

/-! Staging -/

/-- The files with the directory of an artifact in them, as far as it can be made. -/
def prepared (artifact : Artifact) (files : FileTree) : FileTree :=
  (files.createDirectories artifact.directory).2

theorem isCurrent_iff {files : FileTree} :
    artifact.isCurrent files = true ↔ files.find artifact.path = .ok (.file artifact.bytes) := by
  rw [isCurrent, FileTree.read]
  cases hfind : files.find artifact.path with
  | error fault => simp [bind, Except.bind]
  | ok node => cases node <;> simp [bind, Except.bind]

theorem stage_of_current (h : (skip && artifact.isCurrent work.files) = true) :
    ∃ notes, (artifact.stage skip).outcome work = (.ok none, { work with notes }) := by
  rw [stage, Session.outcome_bind, Session.outcome_files]
  simp only [h, if_true, Session.outcome_bind, Session.outcome_leave, Session.outcome_pure]
  exact ⟨_, rfl⟩

theorem stage_of_stale (h : (skip && artifact.isCurrent work.files) = false) :
    (artifact.stage skip).outcome work =
      match work.files.createDirectories artifact.directory with
      | (.error fault, made) => (.error (.file artifact.directory fault), { work with files := made })
      | (.ok (), made) =>
        match made.locateDirectory artifact.directory with
        | .error fault => (.error (.file artifact.directory fault), { work with files := made })
        | .ok place =>
          (.ok (some ⟨place, artifact.bytes⟩),
            ⟨made, work.notes, ⟨place, artifact.bytes⟩ :: work.temporaries⟩) := by
  rw [stage, Session.outcome_bind, Session.outcome_files]
  simp only [h, Bool.false_eq_true, if_false, Session.outcome_bind,
    Session.outcome_createDirectories, Session.outcome_createTemporary, Session.outcome_pure]
  rcases work.files.createDirectories artifact.directory with ⟨fault | _, made⟩
  · rfl
  · dsimp only [Except.mapError]
    cases made.locateDirectory artifact.directory <;> rfl

/-- Staging leaves a file that is current if it may, and else fails at its directory, or
writes a temporary file there. -/
theorem outcome_stage (skip : Bool) (artifact : Artifact) (work : Workspace) :
    ((skip && artifact.isCurrent work.files) = true ∧
      ∃ notes, (artifact.stage skip).outcome work = (.ok none, { work with notes })) ∨
    (skip && artifact.isCurrent work.files) = false ∧
    ((∃ fault, (artifact.stage skip).outcome work =
      (.error (.file artifact.directory fault),
        { work with files := artifact.prepared work.files })) ∨
    ∃ place, (artifact.prepared work.files).locateDirectory artifact.directory = .ok place ∧
      (artifact.stage skip).outcome work =
        (.ok (some ⟨place, artifact.bytes⟩),
          { work with
            files := artifact.prepared work.files
            temporaries := ⟨place, artifact.bytes⟩ :: work.temporaries })) := by
  cases hcurrent : skip && artifact.isCurrent work.files with
  | true => exact .inl ⟨rfl, stage_of_current hcurrent⟩
  | false =>
    refine .inr ⟨rfl, ?_⟩
    rw [stage_of_stale hcurrent, prepared]
    rcases work.files.createDirectories artifact.directory with ⟨fault | _, made⟩
    · exact .inl ⟨fault, rfl⟩
    · dsimp only
      cases made.locateDirectory artifact.directory with
      | error fault => exact .inl ⟨fault, rfl⟩
      | ok place => exact .inr ⟨place, rfl, rfl⟩

theorem files_of_stage (skip : Bool) (artifact : Artifact) (work : Workspace) :
    ((artifact.stage skip).outcome work).2.files = work.files ∨
      ((artifact.stage skip).outcome work).2.files = artifact.prepared work.files := by
  rcases outcome_stage skip artifact work with ⟨-, notes, heq⟩ |
    ⟨-, ⟨fault, heq⟩ | ⟨place, -, heq⟩⟩
  · exact .inl (by rw [heq])
  · exact .inr (by rw [heq])
  · exact .inr (by rw [heq])

theorem stage_error (h : (artifact.stage skip).outcome work = (.error error, after)) :
    after.temporaries = work.temporaries ∧ ∃ fault, error = .file artifact.directory fault := by
  rcases outcome_stage skip artifact work with ⟨-, notes, heq⟩ | ⟨-, ⟨fault, heq⟩ | ⟨place, -, heq⟩⟩
  · rw [heq] at h
    cases h
  · rw [heq] at h
    cases h
    exact ⟨rfl, fault, rfl⟩
  · rw [heq] at h
    cases h

theorem stage_ok {first : Option Temporary}
    (h : (artifact.stage skip).outcome work = (.ok first, after)) :
    after.temporaries = first.toList ++ work.temporaries ∧
    (∀ temporary, first = some temporary → temporary.bytes = artifact.bytes ∧
      after.files.locateDirectory artifact.directory = .ok temporary.directory) ∧
    (first = none → after.files.find artifact.path = .ok (.file artifact.bytes)) := by
  rcases outcome_stage skip artifact work with ⟨hcurrent, notes, heq⟩ |
    ⟨-, ⟨fault, heq⟩ | ⟨place, hplace, heq⟩⟩
  · rw [heq] at h
    cases h
    exact ⟨rfl, nofun, fun _ => isCurrent_iff.mp (Bool.and_eq_true_iff.mp hcurrent).2⟩
  · rw [heq] at h
    cases h
  · rw [heq] at h
    cases h
    refine ⟨rfl, fun temporary hsome => ?_, nofun⟩
    cases hsome
    exact ⟨rfl, hplace⟩

/-- Staging more than one artifact fails at the first, fails at a later one and drops what
was staged, or stages them all. -/
theorem stageAll_cons_cases {rest : List Artifact}
    {result : Except Error (List (Artifact × Option Temporary))}
    (h : (stageAll skip (artifact :: rest)).outcome work = (result, after)) :
    (∃ error, result = .error error ∧
      (artifact.stage skip).outcome work = (.error error, after)) ∨
    ∃ first mid, (artifact.stage skip).outcome work = (.ok first, mid) ∧
      ((∃ error left, result = .error error ∧
        (stageAll skip rest).outcome mid = (.error error, left) ∧
        after = { left with temporaries := first.toList.foldl List.erase left.temporaries }) ∨
      ∃ others, result = .ok ((artifact, first) :: others) ∧
        (stageAll skip rest).outcome mid = (.ok others, after)) := by
  rw [stageAll, Session.outcome_bind] at h
  rcases hfirst : (artifact.stage skip).outcome work with ⟨error | first, mid⟩
  · rw [hfirst] at h
    cases h
    exact .inl ⟨error, rfl, rfl⟩
  · refine .inr ⟨first, mid, rfl, ?_⟩
    simp only [hfirst, Session.outcome_bind, Session.outcome_owning] at h
    rcases hrest : (stageAll skip rest).outcome mid with ⟨error | others, left⟩
    · rw [hrest] at h
      cases h
      exact .inl ⟨error, left, rfl, rfl, rfl⟩
    · rw [hrest] at h
      cases h
      exact .inr ⟨others, rfl, rfl⟩

/-- What holds of the files and is kept when the directory of an artifact is made holds
when staging ends, however it ends. -/
theorem stageAll_induct (inv : FileTree → Prop) {artifacts : List Artifact}
    (hstep : ∀ artifact ∈ artifacts, ∀ files, inv files → inv (artifact.prepared files))
    {result : Except Error (List (Artifact × Option Temporary))}
    (h : (stageAll skip artifacts).outcome work = (result, after)) (hinv : inv work.files) :
    inv after.files := by
  induction artifacts generalizing work after result with
  | nil =>
    cases h
    exact hinv
  | cons artifact rest ih =>
    have hprepared := hstep artifact List.mem_cons_self work.files hinv
    have hfirst : inv ((artifact.stage skip).outcome work).2.files := by
      rcases files_of_stage skip artifact work with hsame | hmade
      · rwa [hsame]
      · rwa [hmade]
    have hrest : ∀ other ∈ rest, ∀ files, inv files → inv (other.prepared files) :=
      fun other hmem => hstep other (List.mem_cons_of_mem artifact hmem)
    rcases stageAll_cons_cases h with ⟨error, -, heq⟩ | ⟨first, mid, heq, hlater⟩
    · rw [heq] at hfirst
      exact hfirst
    · rw [heq] at hfirst
      rcases hlater with ⟨error, left, -, hstaged, rfl⟩ | ⟨others, -, hstaged⟩
      · have hleft := ih hrest hstaged hfirst
        exact hleft
      · exact ih hrest hstaged hfirst

theorem grows_stageAll {result : Except Error (List (Artifact × Option Temporary))}
    (h : (stageAll skip artifacts).outcome work = (result, after)) :
    FileTree.Grows (fun _ => True) work.files after.files :=
  stageAll_induct _ (fun artifact _ files hgrows =>
    hgrows.trans (files.grows_createDirectories artifact.directory)) h (.refl ..)

theorem perm_of_foldl_erase {base temporaries : List Temporary} (owned : List Temporary)
    (h : temporaries.Perm (owned ++ base)) : (owned.foldl List.erase temporaries).Perm base := by
  induction owned generalizing temporaries with
  | nil => exact h
  | cons temporary owned ih =>
    have herase := h.erase temporary
    rw [List.cons_append, List.erase_cons_head] at herase
    exact ih herase

/-- Staging that fails leaves no temporary file, and the error names a directory. -/
theorem stageAll_error (h : (stageAll skip artifacts).outcome work = (.error error, after)) :
    after.temporaries.Perm work.temporaries ∧
      ∃ artifact ∈ artifacts, ∃ fault, error = .file artifact.directory fault := by
  induction artifacts generalizing work after error with
  | nil => cases h
  | cons artifact rest ih =>
    rcases stageAll_cons_cases h with ⟨_, hresult, heq⟩ | ⟨first, mid, heq, hlater⟩
    · cases hresult
      obtain ⟨hsame, fault, hfault⟩ := stage_error heq
      exact ⟨hsame ▸ .refl _, artifact, List.mem_cons_self, fault, hfault⟩
    · rcases hlater with ⟨_, left, hresult, hstaged, rfl⟩ | ⟨others, hok, -⟩
      · cases hresult
        obtain ⟨hleft, other, hmem, hfault⟩ := ih hstaged
        rw [(stage_ok heq).1] at hleft
        exact ⟨perm_of_foldl_erase first.toList hleft, other, List.mem_cons_of_mem _ hmem, hfault⟩
      · cases hok

/-- Once all artifacts are staged, there is a temporary file with its bytes and in its
directory for each one that is not current. -/
theorem stageAll_ok (h : (stageAll skip artifacts).outcome work = (.ok staged, after)) :
    staged.map (·.1) = artifacts ∧
    after.temporaries.Perm (staged.filterMap (·.2) ++ work.temporaries) ∧
    (∀ artifact temporary, (artifact, some temporary) ∈ staged →
      temporary.bytes = artifact.bytes ∧
        after.files.locateDirectory artifact.directory = .ok temporary.directory) ∧
    ∀ artifact, (artifact, none) ∈ staged →
      after.files.find artifact.path = .ok (.file artifact.bytes) := by
  induction artifacts generalizing work after staged with
  | nil =>
    cases h
    simp
  | cons artifact rest ih =>
    rcases stageAll_cons_cases h with ⟨_, hok, -⟩ | ⟨first, mid, heq, hlater⟩
    · cases hok
    · rcases hlater with ⟨_, left, hok, -, -⟩ | ⟨others, hok, hstaged⟩
      · cases hok
      · cases hok
        obtain ⟨hmap, hperm, hready, hcurrent⟩ := ih hstaged
        obtain ⟨htemporaries, hfirst, hnone⟩ := stage_ok heq
        have hgrows := grows_stageAll hstaged
        refine ⟨by rw [List.map_cons, hmap], ?_, ?_, ?_⟩
        · rw [htemporaries] at hperm
          cases first with
          | none => exact hperm
          | some temporary => exact hperm.trans List.perm_middle
        · intro other temporary hmem
          rcases List.mem_cons.mp hmem with hnew | hold
          · cases hnew
            obtain ⟨hbytes, hplace⟩ := hfirst temporary rfl
            exact ⟨hbytes, hgrows.stays.locateDirectory hplace⟩
          · exact hready other temporary hold
        · intro other hmem
          rcases List.mem_cons.mp hmem with hnew | hold
          · cases hnew
            exact hgrows.find (hnone rfl)
          · exact hcurrent other hold

/-! Placing -/

def put (files : FileTree) : Artifact × Option Temporary → Except FileFault FileTree
  | (_, none) => .ok files
  | (artifact, some temporary) => files.replaceFile artifact.path temporary.bytes

def statusOf (staged : Option Temporary) : FileStatus :=
  if staged.isSome then .written else .unchanged

/-- Placing an artifact fails with the files as they are, or puts its file there. The
temporary file is gone in both cases. -/
theorem outcome_place (artifact : Artifact) (first : Option Temporary) (work : Workspace) :
    (∃ fault, put work.files (artifact, first) = .error fault ∧
      (artifact.place first).outcome work =
        (.error (.file artifact.path fault),
          { work with temporaries := first.toList.foldl List.erase work.temporaries })) ∨
    ∃ files notes, put work.files (artifact, first) = .ok files ∧
      (artifact.place first).outcome work =
        (.ok ⟨artifact.path, statusOf first⟩,
          ⟨files, notes, first.toList.foldl List.erase work.temporaries⟩) := by
  cases first with
  | none => exact .inr ⟨work.files, work.notes, rfl, rfl⟩
  | some temporary =>
    simp only [place, put, Session.outcome_bind, Session.outcome_persist]
    cases work.files.replaceFile artifact.path temporary.bytes with
    | error fault => exact .inl ⟨fault, rfl, rfl⟩
    | ok files => exact .inr ⟨files, _, rfl, rfl⟩

/-- Placing artifacts fails at the first and drops the others, or goes on with the first in
its place. -/
theorem placeAll_cons_cases {first : Option Temporary} {rest : List (Artifact × Option Temporary)}
    {result : Except Error (List OutputFile)}
    (h : (placeAll ((artifact, first) :: rest)).outcome work = (result, after)) :
    (∃ fault, put work.files (artifact, first) = .error fault ∧
      result = .error (.file artifact.path fault) ∧ after.files = work.files ∧
      after.temporaries = (rest.filterMap (·.2)).foldl List.erase
        (first.toList.foldl List.erase work.temporaries)) ∨
    ∃ mid others, put work.files (artifact, first) = .ok mid.files ∧
      mid.temporaries = first.toList.foldl List.erase work.temporaries ∧
      (placeAll rest).outcome mid = (others, after) ∧
      result = others.map (⟨artifact.path, statusOf first⟩ :: ·) := by
  simp only [placeAll, Session.outcome_bind, Session.outcome_owning] at h
  rcases outcome_place artifact first work with ⟨fault, hput, heq⟩ | ⟨files, notes, hput, heq⟩
  · rw [heq] at h
    cases h
    exact .inl ⟨fault, hput, rfl, rfl, rfl⟩
  · rw [heq] at h
    right
    rcases hrest : (placeAll rest).outcome
      ⟨files, notes, first.toList.foldl List.erase work.temporaries⟩ with ⟨_ | others, left⟩
    · simp only [hrest] at h
      cases h
      exact ⟨_, _, hput, rfl, hrest, rfl⟩
    · simp only [hrest] at h
      cases h
      exact ⟨_, _, hput, rfl, hrest, rfl⟩

theorem perm_placeAll {base : List Temporary} {result : Except Error (List OutputFile)}
    (hperm : work.temporaries.Perm (staged.filterMap (·.2) ++ base))
    (h : (placeAll staged).outcome work = (result, after)) :
    after.temporaries.Perm base := by
  induction staged generalizing work after result with
  | nil =>
    cases h
    exact hperm
  | cons entry rest ih =>
    obtain ⟨artifact, first⟩ := entry
    have hfirst : (first.toList.foldl List.erase work.temporaries).Perm
        (rest.filterMap (·.2) ++ base) := by
      apply perm_of_foldl_erase
      cases first <;> exact hperm
    rcases placeAll_cons_cases h with ⟨fault, -, -, -, hleft⟩ | ⟨mid, others, -, hmid, hrest, -⟩
    · rw [hleft]
      exact perm_of_foldl_erase _ hfirst
    · rw [← hmid] at hfirst
      exact ih hfirst hrest

/-- Placing stops at the first artifact that cannot be put in its place. Those before it
are in theirs. -/
theorem placeAll_error (h : (placeAll staged).outcome work = (.error error, after)) :
    ∃ placed artifact temporary rest fault,
      staged = placed ++ (artifact, some temporary) :: rest ∧
      error = .file artifact.path fault ∧ placed.foldlM put work.files = .ok after.files ∧
      after.files.replaceFile artifact.path temporary.bytes = .error fault := by
  induction staged generalizing work after with
  | nil => cases h
  | cons entry rest ih =>
    obtain ⟨artifact, first⟩ := entry
    rcases placeAll_cons_cases h with ⟨fault, hput, herror, hfiles, -⟩ |
      ⟨mid, others, hput, -, hrest, hresult⟩
    · cases first with
      | none => cases hput
      | some temporary =>
        cases herror
        rw [← hfiles] at hput ⊢
        exact ⟨[], artifact, temporary, rest, fault, rfl, rfl, rfl, hput⟩
    · obtain rfl : others = .error error := by cases others <;> cases hresult; rfl
      obtain ⟨placed, other, temporary, later, fault, rfl, rfl, hplaced, hother⟩ := ih hrest
      refine ⟨(artifact, first) :: placed, other, temporary, later, fault, rfl, rfl, ?_, hother⟩
      exact FileTree.bind_eq_ok.mpr ⟨mid.files, hput, hplaced⟩

/-! Writing -/

theorem perm_writeAll {result : Except Error (List OutputFile)}
    (h : (writeAll skip artifacts).outcome work = (result, after)) :
    after.temporaries.Perm work.temporaries := by
  rw [writeAll, Session.outcome_bind] at h
  rcases hstage : (stageAll skip artifacts).outcome work with ⟨error | staged, mid⟩
  · rw [hstage] at h
    cases h
    exact (stageAll_error hstage).1
  · rw [hstage] at h
    exact perm_placeAll (stageAll_ok hstage).2.1 h

/-- The first of two staged artifacts is in its place, and the second cannot get there. -/
structure Halfway (first second : Artifact) (staged after : FileTree) (fault : FileFault) :
    Prop where
  first_put :
    (after = staged ∧ staged.find first.path = .ok (.file first.bytes)) ∨
    (∃ place, staged.locateDirectory first.directory = .ok place) ∧
      staged.replaceFile first.path first.bytes = .ok after
  second_ready : ∃ place, staged.locateDirectory second.directory = .ok place
  second_put : after.replaceFile second.path second.bytes = .error fault

/-- Two artifacts fail at a directory, at the first path, or halfway. -/
theorem writeAll_pair_error_cases {first second : Artifact}
    (h : (writeAll skip [first, second]).outcome work = (.error error, after)) :
    ∃ result mid, (stageAll skip [first, second]).outcome work = (result, mid) ∧
      ((after.files = mid.files ∧
          ∃ artifact ∈ [first, second], ∃ fault, error = .file artifact.directory fault) ∨
        (after.files = mid.files ∧ ∃ fault, error = .file first.path fault) ∨
        ∃ fault, error = .file second.path fault ∧
          Halfway first second mid.files after.files fault) := by
  rw [writeAll, Session.outcome_bind] at h
  rcases hstage : (stageAll skip [first, second]).outcome work with ⟨_ | staged, mid⟩
  · rw [hstage] at h
    cases h
    exact ⟨_, _, rfl, .inl ⟨rfl, (stageAll_error hstage).2⟩⟩
  · rw [hstage] at h
    refine ⟨_, mid, rfl, .inr ?_⟩
    obtain ⟨hmap, -, hready, hcurrent⟩ := stageAll_ok hstage
    obtain ⟨placed, artifact, temporary, rest, fault, rfl, rfl, hplaced, hput⟩ := placeAll_error h
    -- Before the artifact at which the placing stops there is none, or the first alone.
    cases placed with
    | nil =>
      obtain rfl : artifact = first := (List.cons.inj hmap).1
      exact .inl ⟨(Except.ok.inj hplaced).symm, fault, rfl⟩
    | cons entry placed =>
      obtain ⟨other, staged⟩ := entry
      obtain ⟨rfl, rfl, rfl, rfl⟩ :
          other = first ∧ placed = [] ∧ artifact = second ∧ rest = [] := by
        cases placed <;> simp_all
      simp only [List.foldlM_cons, List.foldlM_nil, bind_pure] at hplaced
      obtain ⟨hlate, hsecond⟩ := hready artifact temporary (by simp)
      rw [hlate] at hput
      refine .inr ⟨fault, rfl, ?_, ⟨_, hsecond⟩, hput⟩
      cases staged with
      | none => exact .inl ⟨(Except.ok.inj hplaced).symm, hcurrent other (by simp)⟩
      | some early =>
        obtain ⟨hearly, hfirst⟩ := hready other early (by simp)
        rw [put, hearly] at hplaced
        exact .inr ⟨⟨_, hfirst⟩, hplaced⟩

/-! Artifacts at plain paths -/

theorem rooted_stageAll {result : Except Error (List (Artifact × Option Temporary))}
    (hr : work.files.Rooted) (h : (stageAll skip artifacts).outcome work = (result, after)) :
    after.files.Rooted :=
  stageAll_induct _ (fun artifact _ _ hfiles => hfiles.createDirectories artifact.directory) h hr

/-- Staging makes directories on the way to plain paths only. -/
theorem grows_stageAll_of_plain {result : Except Error (List (Artifact × Option Temporary))}
    (hplain : ∀ artifact ∈ artifacts, Path.Plain artifact.path)
    (h : (stageAll skip artifacts).outcome work = (result, after)) :
    FileTree.Grows
      (fun place => ∃ artifact ∈ artifacts,
        place <+: (work.files.destination artifact.path).dropLast)
      work.files after.files := by
  refine stageAll_induct _ ?_ h (.refl ..)
  intro artifact hmem files hgrows
  have hone := FileTree.grows_createDirectories_of_forward
    (forward_directory (hplain artifact hmem)) files
  refine hgrows.trans (hone.mono fun place hway => ⟨artifact, hmem, ?_⟩)
  rwa [FileTree.destination_directory (hplain artifact hmem), hgrows.stays.destination_eq] at hway

theorem directory_of_ready {tree : FileTree} (hp : Path.Plain artifact.path)
    (h : ∃ place, tree.locateDirectory artifact.directory = .ok place) :
    tree.node? (tree.destination artifact.path).dropLast = some .directory := by
  obtain ⟨place, hplace⟩ := h
  obtain ⟨rfl, hd⟩ := FileTree.locateDirectory_eq_ok (forward_directory hp) hplace
  rw [← FileTree.destination_directory hp]
  exact hd

theorem Halfway.of_plain {first second : Artifact} {staged after : FileTree} {fault : FileFault}
    (h : Halfway first second staged after fault) (hr : staged.Rooted)
    (hfirst : Path.Plain first.path) (hsecond : Path.Plain second.path)
    (hapart : staged.Apart first.path second.path) :
    fault = .isDirectory ∧ staged.at? second.path = some .directory ∧
      after.at? second.path = some .directory ∧
      after.at? first.path = some (.file first.bytes) := by
  have hd := directory_of_ready hsecond h.second_ready
  rcases h.first_put with ⟨rfl, hcurrent⟩ | ⟨hready, hput⟩
  · obtain ⟨hfault, hdir⟩ := hr.directory_of_replaceFile_error hsecond hd h.second_put
    exact ⟨hfault, hdir, hdir, by rw [FileTree.at?, hcurrent]; rfl⟩
  · have hra : after.Rooted := hr.replaceFile hput
    have hset : after = staged.set (staged.destination first.path) (.file first.bytes) := by
      rw [hr.replaceFile_eq hfirst (directory_of_ready hfirst hready)] at hput
      split at hput
      · cases hput
      · exact (Except.ok.inj hput).symm
    -- The first file is at neither the second path nor its directory, so both are as before.
    have hne : staged.destination second.path ≠ staged.destination first.path := fun heq =>
      hapart.1 (heq ▸ List.prefix_rfl)
    have hneDir : (staged.destination second.path).dropLast ≠ staged.destination first.path :=
      fun heq => hapart.1 (heq ▸ List.dropLast_prefix _)
    have hdAfter : after.node? (after.destination second.path).dropLast = some .directory := by
      rw [hset, ← hd]
      exact FileTree.node?_set_of_ne hneDir ..
    obtain ⟨hfault, hdir⟩ := hra.directory_of_replaceFile_error hsecond hdAfter h.second_put
    have hsame : after.at? second.path = staged.at? second.path := by
      rw [hra.at?_eq hsecond, hr.at?_eq hsecond, hset]
      exact FileTree.node?_set_of_ne hne ..
    refine ⟨hfault, hsame ▸ hdir, hdir, ?_⟩
    rw [hra.at?_eq hfirst, hset]
    exact FileTree.node?_set_self (FileTree.destination_ne_nil hfirst) ..

/-- After a failure a location holds what it held, a directory where nothing was, or all
bytes of the first artifact if the second could not be put in its place. -/
theorem node?_of_writeAll_pair_error {first second : Artifact}
    (h : (writeAll skip [first, second]).outcome work = (.error error, after)) (place : Location) :
    after.files.node? place = work.files.node? place ∨
      work.files.node? place = none ∧ after.files.node? place = some .directory ∨
      after.files.node? place = some (.file first.bytes) ∧
        ∃ fault, error = .file second.path fault := by
  obtain ⟨result, mid, hstage, hcases⟩ := writeAll_pair_error_cases h
  have hstaged : mid.files.node? place = work.files.node? place ∨
      work.files.node? place = none ∧ mid.files.node? place = some .directory :=
    ((grows_stageAll hstage).node?_eq place).imp_right And.right
  rcases hcases with ⟨hfiles, -⟩ | ⟨hfiles, -⟩ | ⟨fault, herror, hhalf⟩
  · rw [hfiles]
    exact hstaged.imp_right .inl
  · rw [hfiles]
    exact hstaged.imp_right .inl
  · rcases hhalf.first_put with ⟨hfiles, -⟩ | ⟨-, hput⟩
    · rw [hfiles]
      exact hstaged.imp_right .inl
    · obtain ⟨above, name, -, -, -, hset⟩ := FileTree.replaceFile_eq_ok hput
      rw [hset]
      by_cases heq : place = above ++ [name]
      · subst heq
        exact .inr (.inr ⟨FileTree.node?_set_self (by simp) .., fault, herror⟩)
      · rw [FileTree.node?_set_of_ne heq]
        exact hstaged.imp_right .inl

/-- Neither of two plain paths that are apart is on the way to the directory of the other or
to its own. -/
theorem not_on_way {tree : FileTree} {first second : Artifact}
    (hfirst : Path.Plain first.path) (hsecond : Path.Plain second.path)
    (hapart : tree.Apart first.path second.path) :
    ∀ artifact ∈ [first, second],
      ¬tree.destination first.path <+: (tree.destination artifact.path).dropLast ∧
      ¬tree.destination second.path <+: (tree.destination artifact.path).dropLast := by
  intro artifact hmem
  have hneFirst : tree.destination first.path ≠ [] := FileTree.destination_ne_nil hfirst
  have hneSecond : tree.destination second.path ≠ [] := FileTree.destination_ne_nil hsecond
  rcases List.mem_pair.mp hmem with rfl | rfl
  · exact ⟨FileTree.not_prefix_dropLast hneFirst (.inl rfl),
      FileTree.not_prefix_dropLast hneSecond (.inr hapart.2)⟩
  · exact ⟨FileTree.not_prefix_dropLast hneFirst (.inr hapart.1),
      FileTree.not_prefix_dropLast hneSecond (.inl rfl)⟩

/-- At plain paths that are apart, a failure changes nothing but the first, and that only
if a directory stands at the second. -/
theorem at?_of_writeAll_pair_error {first second : Artifact}
    (h : (writeAll skip [first, second]).outcome work = (.error error, after))
    (hr : work.files.Rooted) (hfirst : Path.Plain first.path) (hsecond : Path.Plain second.path)
    (hapart : work.files.Apart first.path second.path) :
    after.files.at? second.path = work.files.at? second.path ∧
      if error = .file second.path .isDirectory then
        work.files.at? second.path = some .directory ∧
          after.files.at? first.path = some (.file first.bytes)
      else after.files.at? first.path = work.files.at? first.path := by
  obtain ⟨result, mid, hstage, hcases⟩ := writeAll_pair_error_cases h
  have hrm : mid.files.Rooted := rooted_stageAll hr hstage
  have hgrows := grows_stageAll_of_plain (by simp [hfirst, hsecond]) hstage
  have hway := not_on_way hfirst hsecond hapart
  have hkeepFirst : mid.files.at? first.path = work.files.at? first.path :=
    hgrows.at?_eq hr hrm hfirst fun ⟨artifact, hmem, hon⟩ => (hway artifact hmem).1 hon
  have hkeepSecond : mid.files.at? second.path = work.files.at? second.path :=
    hgrows.at?_eq hr hrm hsecond fun ⟨artifact, hmem, hon⟩ => (hway artifact hmem).2 hon
  rcases hcases with ⟨hfiles, artifact, hmem, fault, rfl⟩ | ⟨hfiles, fault, rfl⟩ |
    ⟨fault, rfl, hhalf⟩
  · have hne : artifact.directory ≠ second.path := by
      intro heq
      have hplain : Path.Plain artifact.path := by
        rcases List.mem_pair.mp hmem with rfl | rfl <;> assumption
      have hdirectory : work.files.destination second.path =
          (work.files.destination artifact.path).dropLast := by
        rw [← FileTree.destination_directory hplain, heq]
      exact (hway artifact hmem).2 (hdirectory ▸ List.prefix_rfl)
    rw [hfiles, if_neg (fun heq => hne (Error.file.inj heq).1)]
    exact ⟨hkeepSecond, hkeepFirst⟩
  · have hne : first.path ≠ second.path := fun heq => hapart.1 (heq ▸ List.prefix_rfl)
    rw [hfiles, if_neg (fun heq => hne (Error.file.inj heq).1)]
    exact ⟨hkeepSecond, hkeepFirst⟩
  · have hapartMid : mid.files.Apart first.path second.path := by
      simpa [FileTree.Apart, hgrows.stays.destination_eq] using hapart
    obtain ⟨rfl, hmid, hafter, hwritten⟩ := hhalf.of_plain hrm hfirst hsecond hapartMid
    have hbefore : work.files.at? second.path = some .directory := hkeepSecond ▸ hmid
    rw [if_pos rfl, hafter, hbefore]
    exact ⟨rfl, rfl, hwritten⟩

/-- A failure leaves no temporary file and no half of a file. Where the paths are plain and
apart, both hold what they held, unless a directory stands at the second and it is there
that the failure occurs: then the first is written already. -/
theorem writeAll_pair_of_error (skip : Bool) (first second : Artifact) (work after : Workspace)
    (error : Error)
    (failed : (writeAll skip [first, second]).outcome work = (.error error, after)) :
    after.temporaries.Perm work.temporaries ∧
    (∀ place, after.files.node? place = work.files.node? place ∨
      work.files.node? place = none ∧ after.files.node? place = some .directory ∨
      after.files.node? place = some (.file first.bytes) ∧
        ∃ fault, error = .file second.path fault) ∧
    (work.files.Rooted → Path.Plain first.path → Path.Plain second.path →
      work.files.Apart first.path second.path →
      after.files.at? second.path = work.files.at? second.path ∧
      if error = .file second.path .isDirectory then
        work.files.at? second.path = some .directory ∧
          after.files.at? first.path = some (.file first.bytes)
      else after.files.at? first.path = work.files.at? first.path) :=
  ⟨perm_writeAll failed, node?_of_writeAll_pair_error failed,
    at?_of_writeAll_pair_error failed⟩

def blocked : Workspace := { files := { entries := [(["b".toList], .file [7])] } }

theorem writeAll_pair_of_error_blocked :
    ∃ error after,
      (writeAll true [⟨"x/a".toList, "g".toList⟩, ⟨"b/m".toList, "m".toList⟩]).outcome blocked =
        (.error error, after) ∧
      after.temporaries.Perm [] ∧ after.files.at? "x/a".toList = none ∧
      after.files.at? "b/m".toList = none := by
  have failed : (writeAll true [⟨"x/a".toList, "g".toList⟩,
      ⟨"b/m".toList, "m".toList⟩]).outcome blocked =
      (.error (.file "b".toList .alreadyExists),
        ((writeAll true [⟨"x/a".toList, "g".toList⟩,
          ⟨"b/m".toList, "m".toList⟩]).outcome blocked).2) := by rfl
  obtain ⟨htemporaries, -, hkept⟩ := writeAll_pair_of_error _ _ _ _ _ _ failed
  obtain ⟨hsecond, hfirst⟩ := hkept (by decide) ⟨by decide, by decide⟩ ⟨by decide, by decide⟩
    (by decide)
  exact ⟨_, _, failed, htemporaries, hfirst, hsecond⟩

/-- A directory where the second artifact is to be put. -/
def occupied : Workspace := { files := { entries := [(["d".toList], .directory)] } }

/-- Two artifacts need not be written together or not at all: here the first is written and
the second is not. -/
theorem writeAll_pair_occupied :
    ∃ error after,
      (writeAll true [⟨"a".toList, "g".toList⟩, ⟨"d".toList, "m".toList⟩]).outcome occupied =
        (.error error, after) ∧
      occupied.files.at? "a".toList = none ∧
      after.files.at? "a".toList = some (.file (Text.encode "g".toList)) :=
  ⟨.file "d".toList .isDirectory, _, rfl, rfl, rfl⟩

end Artifact
end OpenGrammar
