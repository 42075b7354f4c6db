import OpenGrammar.Artifact
import OpenGrammar.Proofs.PathComponents

/-! Paths to files. A plain path has no step back up and ends in a name, so that it leads
to one location in each rooted tree, and its directory to the location above. -/
namespace OpenGrammar
namespace Path

/-- The directory above a name is reached from the same start, by all names before. -/
theorem exists_parent? {path name : Text} {above : List Text}
    (h : path.splitOn '/' = above ++ [name]) (hvoid : isVoid name = false) :
    ∃ directory, parent? path = some directory ∧ names directory = steps above ∧
      isAbsolute directory = isAbsolute path := by
  have hnames : names path = steps above ++ [name] := by
    rw [names, h, steps_append]
    simp [steps, hvoid]
  obtain ⟨directory, hparent, hlead, habove⟩ := exists_parent?_of_names hnames
  refine ⟨directory, hparent, habove, ?_⟩
  rw [Bool.eq_iff_iff, ← lead_eq_slash_iff, ← lead_eq_slash_iff, hlead]

/-! Plain paths -/

/-- No step leads back up, and the last segment is a name. -/
structure Plain (path : Text) : Prop where
  forward : ['.', '.'] ∉ path.splitOn '/'
  named : ∀ last ∈ (path.splitOn '/').getLast?, isVoid last = false

theorem Plain.exists_segments {path : Text} (h : Plain path) :
    ∃ above name, path.splitOn '/' = above ++ [name] ∧ ['.', '.'] ∉ above ∧
      name ≠ ['.', '.'] ∧ isVoid name = false ∧ names path = steps above ++ [name] := by
  rcases (path.splitOn '/').eq_nil_or_concat with hnil | ⟨above, name, hsplit⟩
  · exact absurd hnil (List.splitOn_ne_nil '/' path)
  · rw [List.concat_eq_append] at hsplit
    have hforward := h.forward
    rw [hsplit, List.mem_append, not_or, List.mem_singleton] at hforward
    have hvoid : isVoid name = false := h.named name (by simp [hsplit])
    refine ⟨above, name, hsplit, hforward.1, Ne.symm hforward.2, hvoid, ?_⟩
    rw [names, hsplit, steps_append]
    simp [steps, hvoid]

end Path

namespace Artifact

theorem names_directory_of_splitOn {artifact : Artifact} {above : List Text} {name : Text}
    (h : artifact.path.splitOn '/' = above ++ [name]) (hvoid : Path.isVoid name = false) :
    Path.names artifact.directory = Path.steps above ∧
      Path.isAbsolute artifact.directory = Path.isAbsolute artifact.path := by
  obtain ⟨directory, hparent, hdir, habs⟩ := Path.exists_parent? h hvoid
  rw [← hdir, ← habs, Artifact.directory, hparent]
  cases directory with
  | nil => exact ⟨rfl, rfl⟩
  | cons c rest => exact ⟨rfl, rfl⟩

theorem names_directory {artifact : Artifact} (h : Path.Plain artifact.path) :
    Path.names artifact.directory = (Path.names artifact.path).dropLast ∧
      Path.isAbsolute artifact.directory = Path.isAbsolute artifact.path := by
  obtain ⟨above, name, hsplit, -, -, hvoid, hnames⟩ := h.exists_segments
  rw [hnames, List.dropLast_concat]
  exact names_directory_of_splitOn hsplit hvoid

/-- Neither does the directory of a plain path lead back up. -/
theorem forward_directory {artifact : Artifact} (h : Path.Plain artifact.path) :
    ['.', '.'] ∉ artifact.directory.splitOn '/' := by
  intro hmem
  have hdir : ['.', '.'] ∈ Path.names artifact.directory := List.mem_filter.mpr ⟨hmem, rfl⟩
  rw [(names_directory h).1] at hdir
  exact h.forward (List.mem_filter.mp ((List.dropLast_subset _) hdir)).1

end Artifact

namespace FileTree

def destination (tree : FileTree) (path : Text) : Location := tree.start path ++ Path.names path

def at? (tree : FileTree) (path : Text) : Option FileNode := (tree.find path).toOption

variable {tree : FileTree} {path : Text}

theorem destination_eq {above : List Text} {name : Text}
    (h : Path.names path = Path.steps above ++ [name]) :
    tree.destination path = tree.start path ++ Path.steps above ++ [name] := by
  rw [destination, h, List.append_assoc]

theorem destination_ne_nil (h : Path.Plain path) : tree.destination path ≠ [] := by
  obtain ⟨above, name, -, -, -, -, hnames⟩ := h.exists_segments
  simp [destination, hnames]

theorem destination_of_home {other : FileTree} (h : other.home = tree.home) (path : Text) :
    other.destination path = tree.destination path := by
  rw [destination, destination, start, start, h]

theorem Stays.destination_eq {before after : FileTree} (h : Stays before after) (path : Text) :
    after.destination path = before.destination path := destination_of_home h.home_eq path

theorem destination_directory {artifact : Artifact} (h : Path.Plain artifact.path) :
    tree.destination artifact.directory = (tree.destination artifact.path).dropLast := by
  obtain ⟨hnames, habs⟩ := Artifact.names_directory h
  obtain ⟨above, name, -, -, -, -, hpath⟩ := h.exists_segments
  rw [destination, start, habs, hnames, destination, start, hpath, List.dropLast_concat,
    ← List.append_assoc, List.dropLast_concat]

/-- A plain path leads to what is at the location it spells. -/
theorem Rooted.at?_eq (hr : tree.Rooted) (h : Path.Plain path) :
    tree.at? path = tree.node? (tree.destination path) := by
  obtain ⟨above, name, hsplit, hforward, hname, hvoid, hnames⟩ := h.exists_segments
  have hne : path ≠ [] := by
    rintro rfl
    have hnil : [] = name := by simpa using congrArg List.getLast? hsplit
    simp [← hnil, Path.isVoid] at hvoid
  have hlocate : tree.locate path = (above ++ [name]).foldlM tree.enter (tree.start path) := by
    rw [locate, if_neg hne, hsplit]
  rw [destination_eq hnames]
  by_cases hd : tree.node? (tree.start path ++ Path.steps above) = some .directory
  · rw [(hr.foldlM_enter_concat_iff hforward hname hvoid).mpr ⟨hd, rfl⟩] at hlocate
    rw [at?, find, hlocate]
    simp only [bind, Except.bind]
    cases tree.node? (tree.start path ++ Path.steps above ++ [name]) <;> rfl
  · have hnone : tree.node? (tree.start path ++ Path.steps above ++ [name]) = none := by
      by_contra hsome
      exact hd (hr.above _ _ hsome)
    rw [hnone, at?, find]
    cases hresult : tree.locate path with
    | error fault => rfl
    | ok target =>
      rw [hlocate] at hresult
      exact absurd ((hr.foldlM_enter_concat_iff hforward hname hvoid).mp hresult).1 hd

theorem Rooted.find_eq_ok_iff (hr : tree.Rooted) (h : Path.Plain path) {node : FileNode} :
    tree.find path = .ok node ↔ tree.node? (tree.destination path) = some node := by
  rw [← hr.at?_eq h, at?]
  cases tree.find path <;> simp [Except.toOption]

/-- A plain path that no new directory is on holds what it held. -/
theorem Grows.at?_eq {fresh : Location → Prop} {before after : FileTree}
    (h : Grows fresh before after) (hb : before.Rooted) (ha : after.Rooted)
    (hp : Path.Plain path) (hf : ¬fresh (before.destination path)) :
    after.at? path = before.at? path := by
  rw [ha.at?_eq hp, hb.at?_eq hp, h.stays.destination_eq, h.node?_of_not_fresh hf]

/-- The locations of two paths are not on the way to each other. -/
def Apart (tree : FileTree) (first second : Text) : Prop :=
  ¬tree.destination first <+: tree.destination second ∧
    ¬tree.destination second <+: tree.destination first

instance (tree : FileTree) (first second : Text) : Decidable (tree.Apart first second) :=
  inferInstanceAs (Decidable (_ ∧ _))

theorem not_prefix_dropLast {place other : Location} (hne : place ≠ [])
    (h : place = other ∨ ¬place <+: other) : ¬place <+: other.dropLast := by
  intro hway
  rcases h with rfl | hnot
  · have hle := hway.length_le
    have hpos := List.length_pos_iff.mpr hne
    rw [List.length_dropLast] at hle
    omega
  · exact hnot (hway.trans (List.dropLast_prefix other))

theorem grows_createDirectories_of_forward (h : ['.', '.'] ∉ path.splitOn '/')
    (tree : FileTree) :
    Grows (· <+: tree.destination path) tree (tree.createDirectories path).2 := by
  refine makeDirectories_induct (Grows _ tree) _ ?_ tree (Grows.refl ..)
  rintro mid made segment above place hsuffix hfold hmade hgrows
  have hway : (segment :: above).reverse <+: Path.names path := by
    rw [← List.reverse_suffix, List.reverse_reverse]
    exact hsuffix
  have hforward : ['.', '.'] ∉ (segment :: above).reverse := fun hmem =>
    h (List.mem_filter.mp (hway.subset hmem)).1
  rw [List.reverse_cons, List.mem_append, not_or, List.mem_singleton] at hforward
  obtain ⟨-, hnone, rfl⟩ := makeDirectory_eq_ok hmade
  refine hgrows.trans (Grows.set_directory ?_ hnone)
  rw [foldlM_enter_eq_ok hforward.1 hfold, advance_of_ne (Ne.symm hforward.2),
    List.append_assoc, ← Path.steps_append, ← List.reverse_cons, destination]
  have hsteps : Path.steps (Path.names path) = Path.names path := by
    simp [Path.names, Path.steps]
  rw [List.prefix_append_right_inj, ← hsteps]
  exact hway.filter _

theorem eq_destination_of_locate {place : Location} (h : ['.', '.'] ∉ path.splitOn '/')
    (hl : tree.locate path = .ok place) : place = tree.destination path := by
  rw [locate] at hl
  split at hl
  · cases hl
  · exact foldlM_enter_eq_ok h hl

theorem locateDirectory_eq_ok {place : Location} (h : ['.', '.'] ∉ path.splitOn '/')
    (hl : tree.locateDirectory path = .ok place) :
    place = tree.destination path ∧ tree.node? place = some .directory := by
  obtain ⟨target, hlocate, henter⟩ := bind_eq_ok.mp hl
  obtain ⟨hd, rfl⟩ := enter_eq_ok_iff.mp henter
  exact ⟨eq_destination_of_locate h hlocate, hd⟩

/-- Where the directory of a plain path is there, only a directory can be in the way. -/
theorem Rooted.replaceFile_eq (hr : tree.Rooted) (h : Path.Plain path)
    (hd : tree.node? (tree.destination path).dropLast = some .directory) (bytes : List UInt8) :
    tree.replaceFile path bytes =
      if tree.node? (tree.destination path) = some .directory then .error .isDirectory
      else .ok (tree.set (tree.destination path) (.file bytes)) := by
  obtain ⟨above, name, hsplit, hforward, hname, hvoid, hnames⟩ := h.exists_segments
  rw [destination_eq hnames, List.dropLast_concat] at hd
  rw [destination_eq hnames]
  have hempty : name.isEmpty = false ∧ name ≠ ['.'] := by simpa [Path.isVoid] using hvoid
  have hlast : path.getLast? ≠ some '/' := by
    intro hslash
    obtain ⟨before, rfl⟩ := List.getLast?_eq_some_iff.mp hslash
    rw [List.splitOn_append_cons_self, List.splitOn_nil] at hsplit
    have hnil : [] = name := by simpa using (List.append_inj' hsplit rfl).2
    simp [← hnil] at hempty
  have hsegments : (path.splitOn '/').reverse.dropWhile List.isEmpty = name :: above.reverse := by
    simp [hsplit, hempty]
  have hfold := hr.foldlM_enter hforward hd
  have henter : tree.enter (tree.start path ++ Path.steps above) name =
      .ok (tree.start path ++ Path.steps above ++ [name]) :=
    enter_eq_ok_iff.mpr ⟨hd, by simp [advance_of_ne hname, Path.steps, hvoid]⟩
  rw [FileTree.replaceFile, hsegments]
  simp only [List.reverse_reverse, hfold, bind, Except.bind, henter,
    hempty.2, hname, or_self, if_false, hlast, isDirectoryAt_iff]

theorem Rooted.directory_of_replaceFile_error (hr : tree.Rooted) (h : Path.Plain path)
    (hd : tree.node? (tree.destination path).dropLast = some .directory) {bytes : List UInt8}
    {fault : FileFault} (hput : tree.replaceFile path bytes = .error fault) :
    fault = .isDirectory ∧ tree.at? path = some .directory := by
  rw [hr.replaceFile_eq h hd] at hput
  split at hput
  · rename_i hdir
    rw [hr.at?_eq h, hdir]
    exact ⟨(Except.error.inj hput).symm, rfl⟩
  · cases hput

end FileTree
end OpenGrammar
