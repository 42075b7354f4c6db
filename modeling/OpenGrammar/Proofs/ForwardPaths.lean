import OpenGrammar.Proofs.PlainPaths

/-! Paths without steps back up, in rooted trees. What such a path leads to depends on what
is at the location it spells and on the files on the way there. Directories can be made all
along it unless a file is in the way, and then nothing is made. -/
namespace OpenGrammar
namespace FileTree

variable {tree other : FileTree} {place : Location} {segments : List Text} {path : Text}

/-! Steps into nothing and into files -/

theorem Rooted.ne_none_of_prefix (hr : tree.Rooted) {above : Location} (h : above <+: place)
    (hsome : tree.node? place ≠ none) : tree.node? above ≠ none := by
  obtain ⟨names, rfl⟩ := h
  rcases names.eq_nil_or_concat with rfl | ⟨front, last, rfl⟩
  · rwa [List.append_nil] at hsome
  · rw [List.concat_eq_append, ← List.append_assoc] at hsome
    have hfront := hr.directory_of_append front (hr.above _ _ hsome)
    rw [hfront]
    exact Option.some_ne_none _

/-- Nothing is below a file. -/
theorem Rooted.eq_of_prefix_of_file (hr : tree.Rooted) {above : Location} {bytes : List UInt8}
    (h : above <+: place) (hfile : tree.node? above = some (.file bytes))
    (hsome : tree.node? place ≠ none) : above = place := by
  obtain ⟨names, rfl⟩ := h
  rcases names.eq_nil_or_concat with rfl | ⟨front, last, rfl⟩
  · rw [List.append_nil]
  · rw [List.concat_eq_append, ← List.append_assoc] at hsome
    have hfront := hr.directory_of_append front (hr.above _ _ hsome)
    rw [hfile] at hfront
    cases hfront

theorem enter_of_none {segment : Text} (h : tree.node? place = none) :
    tree.enter place segment = .error .notFound := by
  rw [enter, h]

theorem enter_of_file {segment : Text} {bytes : List UInt8}
    (h : tree.node? place = some (.file bytes)) :
    tree.enter place segment = .error .notDirectory := by
  rw [enter, h]

theorem enter_of_directory {segment : Text} (h : tree.node? place = some .directory)
    (hforward : segment ≠ ['.', '.']) :
    tree.enter place segment = .ok (place ++ Path.steps [segment]) :=
  enter_eq_ok_iff.mpr ⟨h, (advance_of_ne hforward place).symm⟩

/-- What comes after steps that do not lead back up fails as in an empty place, if nothing is
at their end and no file on the way. -/
theorem bind_foldlM_of_none {α : Type} {next : Location → Except FileFault α}
    (hnext : ∀ place, tree.node? place = none → next place = .error .notFound)
    (hforward : ['.', '.'] ∉ segments)
    (hnone : tree.node? (place ++ Path.steps segments) = none)
    (hfree : ∀ above, place <+: above → above <+: place ++ Path.steps segments →
      ∀ bytes, tree.node? above ≠ some (.file bytes)) :
    (segments.foldlM tree.enter place >>= next) = .error .notFound := by
  induction segments generalizing place with
  | nil =>
    rw [Path.steps_nil, List.append_nil] at hnone
    exact hnext place hnone
  | cons segment segments ih =>
    rw [List.mem_cons, not_or] at hforward
    have hsteps : Path.steps (segment :: segments) =
        Path.steps [segment] ++ Path.steps segments := Path.steps_append [segment] segments
    rw [hsteps, ← List.append_assoc] at hnone hfree
    rw [List.foldlM_cons, bind_assoc]
    rcases hplace : tree.node? place with _ | _ | bytes
    · rw [enter_of_none hplace]
      rfl
    · rw [enter_of_directory hplace (Ne.symm hforward.1)]
      exact ih hforward.2 hnone fun above hp => hfree above ((List.prefix_append _ _).trans hp)
    · exact absurd hplace (hfree place List.prefix_rfl
        (by rw [List.append_assoc]; exact List.prefix_append _ _) bytes)

/-- Names behind a file, or what needs a directory at its end, fail at the file. -/
theorem Rooted.bind_foldlM_of_file {α : Type} (hr : tree.Rooted)
    {next : Location → Except FileFault α}
    (hnext : ∀ place bytes, tree.node? place = some (.file bytes) →
      next place = .error .notDirectory)
    {names : List Text} (hnames : ∀ name ∈ names, Path.isVoid name = false)
    (hforward : ['.', '.'] ∉ names) {file : Location} {bytes : List UInt8}
    (hbehind : place <+: file) (hway : file <+: place ++ names)
    (hfile : tree.node? file = some (.file bytes)) :
    (names.foldlM tree.enter place >>= next) = .error .notDirectory := by
  induction names generalizing place with
  | nil =>
    rw [List.append_nil] at hway
    obtain rfl : file = place := hway.eq_of_length_le hbehind.length_le
    exact hnext file bytes hfile
  | cons name names ih =>
    rw [List.mem_cons, not_or] at hforward
    rw [List.foldlM_cons, bind_assoc]
    by_cases heq : place = file
    · rw [enter_of_file (heq ▸ hfile)]
      rfl
    · have hsome : tree.node? file ≠ none := by simp [hfile]
      have hd : tree.node? place = some .directory := by
        rcases hplace : tree.node? place with _ | _ | other
        · exact absurd hplace (hr.ne_none_of_prefix hbehind hsome)
        · rfl
        · exact absurd (hr.eq_of_prefix_of_file hbehind hplace hsome) heq
      have hname : Path.steps [name] = [name] := by
        simp [Path.steps, hnames name List.mem_cons_self]
      rw [enter_of_directory hd (Ne.symm hforward.1), hname]
      have hlonger : place ++ [name] <+: file := by
        have hcons : place ++ [name] <+: place ++ name :: names := by simp
        rcases List.prefix_or_prefix_of_prefix hcons hway with h | h
        · exact h
        · rcases List.prefix_concat_iff.mp h with h | h
          · exact h ▸ List.prefix_rfl
          · exact absurd (hbehind.eq_of_length_le h.length_le) heq
      refine ih (fun other hmem => hnames other (List.mem_cons_of_mem name hmem)) hforward.2
        hlonger ?_
      rwa [List.append_assoc]

/-! Trees that a path cannot tell apart -/

/-- The same is at a location in two trees, and the same files are on the way there. -/
structure AlikeTo (place : Location) (tree other : FileTree) : Prop where
  node?_eq : tree.node? place = other.node? place
  file_iff : ∀ above, above <+: place → ∀ bytes,
    tree.node? above = some (.file bytes) ↔ other.node? above = some (.file bytes)

theorem AlikeTo.symm (h : AlikeTo place tree other) : AlikeTo place other tree :=
  ⟨h.node?_eq.symm, fun above hp bytes => (h.file_iff above hp bytes).symm⟩

def look (tree : FileTree) (place : Location) (segments : List Text) :
    Except FileFault FileNode := do
  match tree.node? (← segments.foldlM tree.enter place) with
  | some node => .ok node
  | none => .error .notFound

theorem find_eq_look (h : path ≠ []) :
    tree.find path = tree.look (tree.start path) (path.splitOn '/') := by
  rw [find, locate, if_neg h]
  rfl

/-- A path that goes on behind a file fails at the file. -/
theorem Rooted.find_of_file (hr : tree.Rooted) {above : List Text} {name : Text}
    (hsplit : path.splitOn '/' = above ++ [name])
    (hnames : ∀ segment ∈ above, Path.isVoid segment = false) (hforward : ['.', '.'] ∉ above)
    {bytes : List UInt8} (hfile : tree.node? (tree.start path ++ above) = some (.file bytes)) :
    tree.find path = .error .notDirectory := by
  have hne : path ≠ [] := by
    rintro rfl
    obtain rfl : above = [] := by simpa using congrArg List.length hsplit
    rw [List.append_nil, hr.start] at hfile
    cases hfile
  rw [find_eq_look hne, look, hsplit, List.foldlM_append, bind_assoc]
  refine hr.bind_foldlM_of_file (fun place bytes hplace => ?_) hnames hforward
    (List.prefix_append _ _) List.prefix_rfl hfile
  rw [List.foldlM_cons, enter_of_file hplace]
  rfl

theorem look_nil (tree : FileTree) (place : Location) :
    tree.look place [] = match tree.node? place with
      | some node => .ok node
      | none => .error .notFound := rfl

theorem look_cons_of_none {segment : Text} (h : tree.node? place = none) :
    tree.look place (segment :: segments) = .error .notFound := by
  rw [look, List.foldlM_cons, enter_of_none h]
  rfl

/-- Where one tree holds nothing, the other holds nothing at the end of the way. -/
theorem AlikeTo.look_of_none (h : AlikeTo (place ++ Path.steps segments) tree other)
    (hr : tree.Rooted) (hforward : ['.', '.'] ∉ segments) (hnone : tree.node? place = none) :
    other.look place segments = .error .notFound := by
  have hbelow : ∀ below, place <+: below → tree.node? below = none := by
    intro below hp
    by_contra hsome
    exact hr.ne_none_of_prefix hp hsome hnone
  refine bind_foldlM_of_none (fun place hplace => by rw [hplace]) hforward ?_ ?_
  · rw [← h.node?_eq]
    exact hbelow _ (List.prefix_append _ _)
  · intro above hp hway bytes hfile
    rw [← h.file_iff above hway, hbelow above hp] at hfile
    cases hfile

theorem AlikeTo.look_eq (h : AlikeTo (place ++ Path.steps segments) tree other)
    (hr : tree.Rooted) (hro : other.Rooted) (hforward : ['.', '.'] ∉ segments) :
    tree.look place segments = other.look place segments := by
  induction segments generalizing place with
  | nil =>
    rw [Path.steps_nil, List.append_nil] at h
    rw [look_nil, look_nil, h.node?_eq]
  | cons segment segments ih =>
    by_cases hnone : tree.node? place = none
    · rw [look_cons_of_none hnone, h.look_of_none hr hforward hnone]
    by_cases hother : other.node? place = none
    · rw [look_cons_of_none hother, h.symm.look_of_none hro hforward hother]
    rw [List.mem_cons, not_or] at hforward
    have hfile := h.file_iff place (List.prefix_append _ _)
    have hsteps : Path.steps (segment :: segments) =
        Path.steps [segment] ++ Path.steps segments := Path.steps_append [segment] segments
    rw [hsteps, ← List.append_assoc] at h
    rw [look, look, List.foldlM_cons, List.foldlM_cons]
    rcases hplace : tree.node? place with _ | _ | bytes
    · exact absurd hplace hnone
    · have hdirectory : other.node? place = some .directory := by
        rcases hnode : other.node? place with _ | _ | bytes
        · exact absurd hnode hother
        · rfl
        · rw [(hfile bytes).mpr hnode] at hplace
          cases hplace
      rw [enter_of_directory hplace (Ne.symm hforward.1),
        enter_of_directory hdirectory (Ne.symm hforward.1)]
      exact ih h hforward.2
    · rw [enter_of_file hplace, enter_of_file ((hfile bytes).mp hplace)]
      rfl

/-- A path without steps back up leads to the same in both trees, and fails in the same way. -/
theorem AlikeTo.find_eq (h : AlikeTo (tree.destination path) tree other)
    (hhome : other.home = tree.home) (hr : tree.Rooted) (hro : other.Rooted)
    (hforward : ['.', '.'] ∉ path.splitOn '/') : tree.find path = other.find path := by
  by_cases hnil : path = []
  · rw [hnil]
    rfl
  · have hstart : other.start path = tree.start path := by rw [start, start, hhome]
    rw [find_eq_look hnil, find_eq_look hnil, hstart]
    exact AlikeTo.look_eq h hr hro hforward

/-! Making directories -/

def Clear (place : Location) (tree : FileTree) : Prop :=
  ∀ above, above <+: place → ∀ bytes, tree.node? above ≠ some (.file bytes)

/-- All along the way to a location there are directories, and nothing else has changed. -/
structure Filled (place : Location) (tree made : FileTree) : Prop where
  home_eq : made.home = tree.home
  directory : ∀ above, above <+: place → made.node? above = some .directory
  others : ∀ off, ¬off <+: place → made.node? off = tree.node? off

theorem Clear.of_prefix {above : Location} (h : Clear place tree) (hp : above <+: place) :
    Clear above tree := fun further hf => h further (hf.trans hp)

theorem Rooted.filled_self (hr : tree.Rooted) (hd : tree.node? place = some .directory) :
    Filled place tree tree := by
  refine ⟨rfl, fun above hp => ?_, fun _ _ => rfl⟩
  obtain ⟨names, rfl⟩ := hp
  exact hr.directory_of_append names hd

theorem not_concat_above (place : Location) (name : Text) : ¬place ++ [name] <+: place := by
  intro hp
  have hle := hp.length_le
  rw [List.length_append, List.length_singleton] at hle
  omega

theorem Filled.set_directory {made : FileTree} {name : Text} (h : Filled place tree made) :
    Filled (place ++ [name]) tree (made.set (place ++ [name]) .directory) := by
  refine ⟨h.home_eq, fun above hp => ?_, fun off hoff => ?_⟩
  · rcases List.prefix_concat_iff.mp hp with rfl | hp
    · exact node?_set_self (by simp) ..
    · have hne : above ≠ place ++ [name] := by
        rintro rfl
        exact not_concat_above place name hp
      rw [node?_set_of_ne hne, h.directory above hp]
  · have hne : off ≠ place ++ [name] := by
      rintro rfl
      exact hoff List.prefix_rfl
    rw [node?_set_of_ne hne, h.others off fun hp => hoff (hp.trans (List.prefix_append _ _))]

theorem makeDirectory_of_none {segment : Text} (h : tree.node? place = none) :
    tree.makeDirectory place segment = .error .notFound := by
  rw [makeDirectory, enter_of_none h]
  rfl

theorem makeDirectory_of_file {segment : Text} {bytes : List UInt8}
    (h : tree.node? place = some (.file bytes)) :
    tree.makeDirectory place segment = .error .notDirectory := by
  rw [makeDirectory, enter_of_file h]
  rfl

theorem makeDirectory_of_directory {name : Text} (h : tree.node? place = some .directory)
    (hvoid : Path.isVoid name = false) (hforward : name ≠ ['.', '.']) :
    tree.makeDirectory place name =
      if tree.node? (place ++ [name]) = none then .ok (tree.set (place ++ [name]) .directory)
      else .error .alreadyExists := by
  have hname : Path.steps [name] = [name] := by simp [Path.steps, hvoid]
  rw [makeDirectory, enter_of_directory h hforward, hname]
  rfl

section MakeDirectories

variable {origin : Location} {names : List Text} {name : Text}

/-- Names that can be those of directories, in any order. -/
def AllNames (names : List Text) : Prop :=
  ∀ name ∈ names, Path.isVoid name = false ∧ name ≠ ['.', '.']

theorem AllNames.steps_reverse (h : AllNames names) : Path.steps names.reverse = names.reverse := by
  rw [Path.steps, List.filter_eq_self]
  intro name hmem
  simp [(h name (List.mem_reverse.mp hmem)).1]

theorem AllNames.forward_reverse (h : AllNames names) : ['.', '.'] ∉ names.reverse :=
  fun hmem => (h _ (List.mem_reverse.mp hmem)).2 rfl

theorem AllNames.of_cons (h : AllNames (name :: names)) : AllNames names :=
  fun other hmem => h other (List.mem_cons_of_mem name hmem)

theorem Rooted.foldlM_names (hr : tree.Rooted) (h : AllNames names)
    (hd : tree.node? (origin ++ names.reverse) = some .directory) :
    names.reverse.foldlM tree.enter origin = .ok (origin ++ names.reverse) := by
  have hfold := hr.foldlM_enter h.forward_reverse (h.steps_reverse.symm ▸ hd)
  rwa [h.steps_reverse] at hfold

theorem Rooted.makeDirectories_of_clear (hr : tree.Rooted)
    (ho : tree.node? origin = some .directory) (hnames : AllNames names)
    (hclear : Clear (origin ++ names.reverse) tree) :
    ∃ made, tree.makeDirectories origin names = (.ok (), made) ∧
      Filled (origin ++ names.reverse) tree made := by
  induction names with
  | nil => exact ⟨tree, rfl, hr.filled_self (by simpa using ho)⟩
  | cons name above ih =>
    obtain ⟨hvoid, hforward⟩ := hnames name List.mem_cons_self
    have habove := hnames.of_cons
    rw [List.reverse_cons, ← List.append_assoc] at hclear ⊢
    by_cases hd : tree.node? (origin ++ above.reverse) = some .directory
    · have hattempt : (above.reverse.foldlM tree.enter origin >>= (tree.makeDirectory · name)) =
          if tree.node? (origin ++ above.reverse ++ [name]) = none then
            .ok (tree.set (origin ++ above.reverse ++ [name]) .directory)
          else .error .alreadyExists := by
        rw [hr.foldlM_names habove hd]
        exact makeDirectory_of_directory hd hvoid hforward
      by_cases hnone : tree.node? (origin ++ above.reverse ++ [name]) = none
      · rw [if_pos hnone] at hattempt
        refine ⟨_, ?_, (hr.filled_self hd).set_directory⟩
        simp only [FileTree.makeDirectories, hattempt]
      · have hthere : tree.node? (origin ++ above.reverse ++ [name]) = some .directory := by
          rcases hnode : tree.node? (origin ++ above.reverse ++ [name]) with _ | _ | bytes
          · exact absurd hnode hnone
          · rfl
          · exact absurd hnode (hclear _ List.prefix_rfl bytes)
        rw [if_neg hnone] at hattempt
        have hfold : (name :: above).reverse.foldlM tree.enter origin =
            .ok (origin ++ above.reverse ++ [name]) := by
          rw [hr.foldlM_names hnames (by simpa using hthere)]
          simp
        refine ⟨tree, ?_, hr.filled_self hthere⟩
        simp only [FileTree.makeDirectories, hattempt, hfold, isDirectoryAt_iff.mpr hthere, if_true]
    · have hnone : tree.node? (origin ++ above.reverse) = none := by
        rcases hnode : tree.node? (origin ++ above.reverse) with _ | _ | bytes
        · rfl
        · exact absurd hnode hd
        · exact absurd hnode (hclear _ (List.prefix_append _ _) bytes)
      -- The first attempt ends where nothing is, and the second in a directory that was made.
      have hattempt : (above.reverse.foldlM tree.enter origin >>= (tree.makeDirectory · name)) =
          .error .notFound := by
        refine bind_foldlM_of_none (fun _ => makeDirectory_of_none) habove.forward_reverse ?_ ?_
        · rwa [habove.steps_reverse]
        · intro place _ hp
          rw [habove.steps_reverse] at hp
          exact hclear place (hp.trans (List.prefix_append _ _))
      obtain ⟨made, hmade, hfilled⟩ := ih habove (hclear.of_prefix (List.prefix_append _ _))
      have hrm : made.Rooted := by
        have hrooted := hr.makeDirectories origin above
        rwa [hmade] at hrooted
      have hthere := hfilled.directory _ List.prefix_rfl
      have hfree : made.node? (origin ++ above.reverse ++ [name]) = none := by
        rw [hfilled.others _ (not_concat_above _ name)]
        by_contra hsome
        exact hd (hr.above _ _ hsome)
      have hagain : (above.reverse.foldlM made.enter origin >>= (made.makeDirectory · name)) =
          .ok (made.set (origin ++ above.reverse ++ [name]) .directory) := by
        rw [hrm.foldlM_names habove hthere]
        exact (makeDirectory_of_directory hthere hvoid hforward).trans (if_pos hfree)
      refine ⟨_, ?_, hfilled.set_directory⟩
      simp only [FileTree.makeDirectories, hattempt, hmade, hagain]

theorem Rooted.makeDirectories_of_file (hr : tree.Rooted)
    (ho : tree.node? origin = some .directory) (hnames : AllNames names) {file : Location}
    {bytes : List UInt8} (hway : file <+: origin ++ names.reverse)
    (hfile : tree.node? file = some (.file bytes)) :
    tree.makeDirectories origin names =
      (.error (if file = origin ++ names.reverse then .alreadyExists else .notDirectory),
        tree) := by
  cases names with
  | nil =>
    rw [List.reverse_nil, List.append_nil] at hway
    have heq := hr.eq_of_prefix_of_file hway hfile (by simp [ho])
    rw [heq, ho] at hfile
    cases hfile
  | cons name above =>
    obtain ⟨hvoid, hforward⟩ := hnames name List.mem_cons_self
    have habove := hnames.of_cons
    have hbehind : origin <+: file := by
      rcases List.prefix_or_prefix_of_prefix (List.prefix_append origin _) hway with h | h
      · exact h
      · have heq := hr.eq_of_prefix_of_file h hfile (by simp [ho])
        exact heq ▸ List.prefix_rfl
    by_cases heq : file = origin ++ (name :: above).reverse
    · rw [if_pos heq]
      rw [heq, List.reverse_cons, ← List.append_assoc] at hfile
      have hsome : tree.node? (origin ++ above.reverse ++ [name]) ≠ none := by
        rw [hfile]
        exact Option.some_ne_none _
      have hd := hr.above _ _ hsome
      have hfoldAbove := hr.foldlM_names habove hd
      have hattempt : (above.reverse.foldlM tree.enter origin >>= (tree.makeDirectory · name)) =
          .error .alreadyExists := by
        rw [hfoldAbove]
        exact (makeDirectory_of_directory hd hvoid hforward).trans (if_neg hsome)
      have hfold : (name :: above).reverse.foldlM tree.enter origin =
          .ok (origin ++ above.reverse ++ [name]) := by
        have hname : Path.steps [name] = [name] := by simp [Path.steps, hvoid]
        have henter := enter_of_directory hd hforward
        rw [hname] at henter
        rw [List.reverse_cons, List.foldlM_append, hfoldAbove]
        exact bind_eq_ok.mpr ⟨_, rfl, by simpa using henter⟩
      have hno : tree.isDirectoryAt (origin ++ above.reverse ++ [name]) = false := by
        rw [isDirectoryAt, hfile]
        rfl
      simp only [FileTree.makeDirectories, hattempt, hfold, hno, Bool.false_eq_true, if_false]
    · rw [if_neg heq]
      rw [List.reverse_cons, ← List.append_assoc] at hway heq
      have hwayAbove : file <+: origin ++ above.reverse :=
        (List.prefix_concat_iff.mp hway).resolve_left heq
      have hstop : ∀ {α : Type} {next : Location → Except FileFault α},
          (∀ place bytes, tree.node? place = some (.file bytes) →
            next place = .error .notDirectory) →
          (above.reverse.foldlM tree.enter origin >>= next) = .error .notDirectory := fun hnext =>
        hr.bind_foldlM_of_file hnext (fun other hmem => (habove other (List.mem_reverse.mp hmem)).1)
          habove.forward_reverse hbehind hwayAbove hfile
      have hattempt : (above.reverse.foldlM tree.enter origin >>= (tree.makeDirectory · name)) =
          .error .notDirectory := hstop fun _ _ => makeDirectory_of_file
      have hfold : (name :: above).reverse.foldlM tree.enter origin = .error .notDirectory := by
        rw [List.reverse_cons, List.foldlM_append]
        refine hstop fun place bytes hplace => ?_
        simpa using enter_of_file hplace
      simp only [FileTree.makeDirectories, hattempt, hfold]

end MakeDirectories

theorem allNames_names (h : ['.', '.'] ∉ path.splitOn '/') :
    AllNames (Path.names path).reverse := by
  intro name hmem
  obtain ⟨hsplit, hvoid⟩ := List.mem_filter.mp (List.mem_reverse.mp hmem)
  refine ⟨by simpa using hvoid, ?_⟩
  rintro rfl
  exact h hsplit

theorem Rooted.createDirectories_of_clear (hr : tree.Rooted)
    (hforward : ['.', '.'] ∉ path.splitOn '/') (hclear : Clear (tree.destination path) tree) :
    ∃ made, tree.createDirectories path = (.ok (), made) ∧
      Filled (tree.destination path) tree made := by
  have hmade := hr.makeDirectories_of_clear (hr.start path) (allNames_names hforward)
  rw [List.reverse_reverse] at hmade
  exact hmade hclear

theorem Rooted.createDirectories_of_file (hr : tree.Rooted)
    (hforward : ['.', '.'] ∉ path.splitOn '/') {file : Location} {bytes : List UInt8}
    (hway : file <+: tree.destination path) (hfile : tree.node? file = some (.file bytes)) :
    tree.createDirectories path =
      (.error (if file = tree.destination path then .alreadyExists else .notDirectory), tree) := by
  have hnames : (Path.names path).reverse.reverse = Path.names path := List.reverse_reverse _
  have hmade := hr.makeDirectories_of_file (hr.start path) (allNames_names hforward)
    (hnames.symm ▸ hway) hfile
  rw [hnames] at hmade
  exact hmade

theorem Rooted.locateDirectory_eq (hr : tree.Rooted) (hne : path ≠ [])
    (hforward : ['.', '.'] ∉ path.splitOn '/')
    (hd : tree.node? (tree.destination path) = some .directory) :
    tree.locateDirectory path = .ok (tree.destination path) := by
  have hlocate : tree.locate path = .ok (tree.destination path) := by
    rw [locate, if_neg hne]
    exact hr.foldlM_enter hforward hd
  exact bind_eq_ok.mpr ⟨_, hlocate, enter_eq_ok_iff.mpr ⟨hd, rfl⟩⟩

end FileTree
end OpenGrammar
