import Mathlib.Data.List.Induction
import OpenGrammar.Files.FileTree
import OpenGrammar.Proofs.Segments

/-! What is where in a tree of files. Making directories only adds them, putting a file
changes one location, and in a rooted tree a path without steps back up leads to the
location that its names spell. -/
namespace OpenGrammar

namespace Path

def steps (segments : List Text) : List Text := segments.filter (!isVoid ·)

@[simp] theorem steps_nil : steps [] = [] := rfl

theorem steps_append (a b : List Text) : steps (a ++ b) = steps a ++ steps b :=
  List.filter_append ..

end Path

namespace FileTree

theorem bind_eq_ok {ε α β : Type} {x : Except ε α} {f : α → Except ε β} {b : β} :
    x >>= f = .ok b ↔ ∃ a, x = .ok a ∧ f a = .ok b := by
  cases x <;> simp [bind, Except.bind]

/-! Locations -/

@[simp] theorem node?_nil (tree : FileTree) : tree.node? [] = some .directory := by
  simp [node?]

theorem isDirectoryAt_iff {tree : FileTree} {place : Location} :
    tree.isDirectoryAt place = true ↔ tree.node? place = some .directory := by
  simp [isDirectoryAt]

theorem lookup_filter_of_ne {place other : Location} (h : other ≠ place)
    (entries : List (Location × FileNode)) :
    (entries.filter (·.1 != place)).lookup other = entries.lookup other := by
  induction entries with
  | nil => rfl
  | cons entry entries ih =>
    obtain ⟨key, node⟩ := entry
    by_cases hkey : key = place
    · have hother : (other == key) = false := by simpa [hkey] using h
      simp only [hkey, bne_self_eq_false, Bool.false_eq_true, not_false_eq_true,
        List.filter_cons_of_neg, ih, List.lookup_cons]
      rw [← hkey, hother]
    · simp [hkey, List.lookup_cons, ih]

theorem node?_set_self {place : Location} (h : place ≠ []) (tree : FileTree) (node : FileNode) :
    (tree.set place node).node? place = some node := by
  simp [node?, set, h]

theorem node?_set_of_ne {place other : Location} (h : other ≠ place) (tree : FileTree)
    (node : FileNode) : (tree.set place node).node? other = tree.node? other := by
  have hother : (other == place) = false := by simpa using h
  simp [node?, set, List.lookup_cons, hother, lookup_filter_of_ne h]

/-! Growth -/

/-- Nothing is gone or changed, and what is new are directories at certain locations. -/
structure Grows (fresh : Location → Prop) (before after : FileTree) : Prop where
  home_eq : after.home = before.home
  node?_eq : ∀ place, after.node? place = before.node? place ∨
    fresh place ∧ before.node? place = none ∧ after.node? place = some .directory

namespace Grows

variable {fresh : Location → Prop} {before mid after : FileTree}

theorem refl (fresh : Location → Prop) (tree : FileTree) : Grows fresh tree tree :=
  ⟨rfl, fun _ => .inl rfl⟩

theorem trans (h : Grows fresh before mid) (h' : Grows fresh mid after) :
    Grows fresh before after := by
  refine ⟨h'.home_eq.trans h.home_eq, fun place => ?_⟩
  rcases h'.node?_eq place with hsame | ⟨hfresh, hnone, hdir⟩
  · rw [hsame]
    exact h.node?_eq place
  · rcases h.node?_eq place with hsame | ⟨-, -, hdir'⟩
    · exact .inr ⟨hfresh, hsame ▸ hnone, hdir⟩
    · simp [hdir'] at hnone

theorem mono {more : Location → Prop} (h : Grows fresh before after)
    (hm : ∀ place, fresh place → more place) : Grows more before after :=
  ⟨h.home_eq, fun place => (h.node?_eq place).imp_right (And.imp_left (hm place))⟩

/-- What is there stays. -/
theorem node?_of_some (h : Grows fresh before after) {place : Location} {node : FileNode}
    (hn : before.node? place = some node) : after.node? place = some node := by
  rcases h.node?_eq place with hsame | ⟨-, hnone, -⟩
  · rw [hsame, hn]
  · simp [hn] at hnone

theorem node?_of_not_fresh (h : Grows fresh before after) {place : Location}
    (hf : ¬fresh place) : after.node? place = before.node? place :=
  (h.node?_eq place).resolve_right fun hnew => hf hnew.1

theorem set_directory {tree : FileTree} {place : Location} (hfresh : fresh place)
    (hnone : tree.node? place = none) : Grows fresh tree (tree.set place .directory) := by
  refine ⟨rfl, fun other => ?_⟩
  by_cases h : other = place
  · subst h
    have hne : other ≠ [] := fun hnil => by simp [hnil] at hnone
    exact .inr ⟨hfresh, hnone, node?_set_self hne tree _⟩
  · exact .inl (node?_set_of_ne h tree _)

end Grows

/-! Steps -/

def advance (place : Location) (segment : Text) : Location :=
  if Path.isVoid segment then place
  else if segment = ['.', '.'] then place.dropLast
  else place ++ [segment]

theorem enter_eq_ok_iff {tree : FileTree} {place next : Location} {segment : Text} :
    tree.enter place segment = .ok next ↔
      tree.node? place = some .directory ∧ next = advance place segment := by
  rw [enter, eq_comm (a := next)]
  rcases tree.node? place with _ | _ | bytes <;> simp [advance]

structure Stays (before after : FileTree) : Prop where
  home_eq : after.home = before.home
  directory : ∀ {place}, before.node? place = some .directory →
    after.node? place = some .directory

theorem Grows.stays {fresh : Location → Prop} {before after : FileTree}
    (h : Grows fresh before after) : Stays before after :=
  ⟨h.home_eq, h.node?_of_some⟩

namespace Stays

variable {before mid after : FileTree} {path : Text} {place : Location}

theorem trans (h : Stays before mid) (h' : Stays mid after) : Stays before after :=
  ⟨h'.home_eq.trans h.home_eq, fun hd => h'.directory (h.directory hd)⟩

theorem start_eq (h : Stays before after) (path : Text) :
    after.start path = before.start path := by
  simp [start, h.home_eq]

theorem foldlM_enter (h : Stays before after) {segments : List Text} {target : Location}
    (hfold : segments.foldlM before.enter place = .ok target) :
    segments.foldlM after.enter place = .ok target := by
  induction segments generalizing place with
  | nil => exact hfold
  | cons segment segments ih =>
    obtain ⟨next, henter, hrest⟩ := bind_eq_ok.mp hfold
    obtain ⟨hd, hnext⟩ := enter_eq_ok_iff.mp henter
    have hstep : after.enter place segment = .ok next :=
      enter_eq_ok_iff.mpr ⟨h.directory hd, hnext⟩
    exact bind_eq_ok.mpr ⟨next, hstep, ih hrest⟩

theorem locate (h : Stays before after) (hl : before.locate path = .ok place) :
    after.locate path = .ok place := by
  rw [FileTree.locate] at hl ⊢
  split at hl
  · cases hl
  · rw [if_neg ‹_›, h.start_eq]
    exact h.foldlM_enter hl

theorem locateDirectory (h : Stays before after) (hl : before.locateDirectory path = .ok place) :
    after.locateDirectory path = .ok place := by
  obtain ⟨target, hlocate, henter⟩ := bind_eq_ok.mp hl
  obtain ⟨hd, hplace⟩ := enter_eq_ok_iff.mp henter
  have henter' := enter_eq_ok_iff.mpr ⟨h.directory hd, hplace⟩
  exact bind_eq_ok.mpr ⟨target, h.locate hlocate, henter'⟩

end Stays

theorem find_eq_ok_iff {tree : FileTree} {path : Text} {node : FileNode} :
    tree.find path = .ok node ↔
      ∃ place, tree.locate path = .ok place ∧ tree.node? place = some node := by
  rw [find, bind_eq_ok]
  refine exists_congr fun place => and_congr_right fun _ => ?_
  cases tree.node? place <;> simp

theorem Grows.find {fresh : Location → Prop} {before after : FileTree}
    (h : Grows fresh before after) {path : Text} {node : FileNode}
    (hf : before.find path = .ok node) : after.find path = .ok node := by
  obtain ⟨place, hlocate, hnode⟩ := find_eq_ok_iff.mp hf
  exact find_eq_ok_iff.mpr ⟨place, h.stays.locate hlocate, h.node?_of_some hnode⟩

theorem makeDirectory_eq_ok {tree made : FileTree} {above : Location} {segment : Text}
    (h : tree.makeDirectory above segment = .ok made) :
    tree.node? above = some .directory ∧ tree.node? (advance above segment) = none ∧
      made = tree.set (advance above segment) .directory := by
  obtain ⟨place, henter, hmade⟩ := bind_eq_ok.mp h
  obtain ⟨habove, rfl⟩ := enter_eq_ok_iff.mp henter
  by_cases hnone : tree.node? (advance above segment) = none
  · rw [if_pos hnone, Except.ok.injEq] at hmade
    exact ⟨habove, hnone, hmade.symm⟩
  · simp [hnone] at hmade

/-- What holds of a tree and is kept by each directory that is made holds in the end,
whether or not all of them could be made. -/
theorem makeDirectories_induct {origin : Location} (inv : FileTree → Prop)
    (segments : List Text)
    (hstep : ∀ (tree made : FileTree) (segment : Text) (above : List Text) (place : Location),
      segment :: above <:+ segments → above.reverse.foldlM tree.enter origin = .ok place →
      tree.makeDirectory place segment = .ok made → inv tree → inv made)
    (tree : FileTree) (h : inv tree) : inv (tree.makeDirectories origin segments).2 := by
  induction segments generalizing tree with
  | nil => exact h
  | cons segment above ih =>
    have attempted : ∀ {tree made : FileTree},
        (do let place ← above.reverse.foldlM tree.enter origin
            tree.makeDirectory place segment) = .ok made → inv tree → inv made := by
      intro tree made hmade hinv
      obtain ⟨place, hplace, hone⟩ := bind_eq_ok.mp hmade
      exact hstep tree made segment above place List.suffix_rfl hplace hone hinv
    -- What is above is made only where the first attempt finds nothing, and then the last
    -- directory is tried once more.
    have habove := ih (fun tree made segment' above' place hsuffix =>
      hstep tree made segment' above' place (hsuffix.trans (List.suffix_cons ..))) tree h
    simp only [makeDirectories]
    split
    · rename_i made hmade
      exact attempted hmade h
    · split
      · rename_i hrest
        exact (congrArg (inv ·.2) hrest).mp habove
      · rename_i tree' hrest
        have hinv : inv tree' := (congrArg (inv ·.2) hrest).mp habove
        split
        · rename_i made hmade
          exact attempted hmade hinv
        · split <;> exact hinv
    · split <;> exact h

theorem grows_createDirectories (tree : FileTree) (path : Text) :
    Grows (fun _ => True) tree (tree.createDirectories path).2 := by
  refine makeDirectories_induct (Grows _ tree) _ ?_ tree (Grows.refl ..)
  rintro mid made segment above place - - hmade hgrows
  obtain ⟨-, hnone, rfl⟩ := makeDirectory_eq_ok hmade
  exact hgrows.trans (Grows.set_directory trivial hnone)

/-- Segments of which the last is empty are those of a path that is empty or ends in a
slash. -/
theorem splitOn_eq_concat_nil {path : Text} {above : List Text}
    (h : path.splitOn '/' = above ++ [[]]) : path = [] ∨ path.getLast? = some '/' := by
  have hpath : Text.join ['/'] (above ++ [[]]) = path := by
    rw [← h]
    exact List.intercalate_splitOn '/'
  by_cases hnil : above = []
  · left
    rw [← hpath, hnil]
    rfl
  · right
    rw [← hpath, Text.join_concat hnil]
    simp

theorem splitOn_of_dropWhile {path name : Text} {above : List Text}
    (h : (path.splitOn '/').reverse.dropWhile List.isEmpty = name :: above)
    (hslash : path.getLast? ≠ some '/') : path.splitOn '/' = above.reverse ++ [name] := by
  rcases (path.splitOn '/').eq_nil_or_concat with hnil | ⟨front, last, hlast⟩
  · exact absurd hnil (List.splitOn_ne_nil '/' path)
  rw [List.concat_eq_append] at hlast
  by_cases hempty : last = []
  · rcases splitOn_eq_concat_nil (hempty ▸ hlast) with hnil | hend
    · simp [hnil] at h
    · exact absurd hend hslash
  · rw [hlast] at h ⊢
    have hcons : last :: front.reverse = name :: above := by simpa [hempty] using h
    obtain ⟨rfl, rfl⟩ := List.cons.inj hcons
    simp

/-- A file is put at the location that a path leads to: in a directory, and not in place of
one. -/
theorem replaceFile_eq_ok {tree after : FileTree} {path : Text} {bytes : List UInt8}
    (h : tree.replaceFile path bytes = .ok after) :
    ∃ place name, tree.locate path = .ok (place ++ [name]) ∧
      tree.node? place = some .directory ∧
      tree.node? (place ++ [name]) ≠ some .directory ∧
      after = tree.set (place ++ [name]) (.file bytes) := by
  rw [replaceFile] at h
  split at h
  · cases h
  · rename_i name above hsegments
    obtain ⟨place, hfold, h⟩ := bind_eq_ok.mp h
    obtain ⟨target, henter, h⟩ := bind_eq_ok.mp h
    have hname : name.isEmpty = false := by
      have hhead := List.head?_dropWhile_not List.isEmpty (path.splitOn '/').reverse
      simpa [hsegments] using hhead
    split at h
    · cases h
    · rename_i hdots
      rw [not_or] at hdots
      have hadvance : advance place name = place ++ [name] := by
        simp [advance, Path.isVoid, hname, hdots]
      split at h
      · cases h
      · rename_i hslash
        split at h
        · cases h
        · rename_i hfree
          have hsplit := splitOn_of_dropWhile hsegments hslash
          have hne : path ≠ [] := by
            rintro rfl
            simp at hsegments
          have hlocate : tree.locate path = .ok target := by
            rw [locate, if_neg hne, hsplit, List.foldlM_append]
            refine bind_eq_ok.mpr ⟨place, hfold, ?_⟩
            simpa using henter
          obtain ⟨hplace, rfl⟩ := enter_eq_ok_iff.mp henter
          rw [isDirectoryAt_iff, hadvance] at hfree
          rw [hadvance] at hlocate
          rw [hadvance, Except.ok.injEq] at h
          exact ⟨place, name, hlocate, hplace, hfree, h.symm⟩

theorem stays_replaceFile {tree after : FileTree} {path : Text} {bytes : List UInt8}
    (h : tree.replaceFile path bytes = .ok after) : Stays tree after := by
  obtain ⟨place, name, -, -, hfree, rfl⟩ := replaceFile_eq_ok h
  refine ⟨rfl, fun {other} hd => ?_⟩
  by_cases heq : other = place ++ [name]
  · exact absurd (heq ▸ hd) hfree
  · rw [node?_set_of_ne heq, hd]

/-! Rooted trees -/

/-- Each thing stands in a directory, and relative paths start in one. -/
structure Rooted (tree : FileTree) : Prop where
  home : tree.node? tree.home = some .directory
  above : ∀ place name, tree.node? (place ++ [name]) ≠ none →
    tree.node? place = some .directory

namespace Rooted

variable {tree : FileTree}

theorem start (h : tree.Rooted) (path : Text) : tree.node? (tree.start path) = some .directory := by
  rw [FileTree.start]
  split
  · exact node?_nil tree
  · exact h.home

theorem directory_of_append (h : tree.Rooted) {place : Location} (names : List Text)
    (hd : tree.node? (place ++ names) = some .directory) :
    tree.node? place = some .directory := by
  induction names using List.reverseRecOn with
  | nil => simpa using hd
  | append_singleton names name ih =>
    rw [← List.append_assoc] at hd
    have hsome : tree.node? (place ++ names ++ [name]) ≠ none := by
      rw [hd]
      exact Option.some_ne_none _
    exact ih (h.above _ _ hsome)

theorem set (h : tree.Rooted) {place : Location} {name : Text} {node : FileNode}
    (hd : tree.node? place = some .directory)
    (hnode : tree.node? (place ++ [name]) = some .directory → node = .directory) :
    (tree.set (place ++ [name]) node).Rooted := by
  have stays : ∀ other, tree.node? other = some .directory →
      (tree.set (place ++ [name]) node).node? other = some .directory := by
    intro other hother
    by_cases heq : other = place ++ [name]
    · subst heq
      rw [node?_set_self (by simp), hnode hother]
    · rw [node?_set_of_ne heq, hother]
  refine ⟨stays _ h.home, fun other segment hsome => stays other ?_⟩
  by_cases heq : other ++ [segment] = place ++ [name]
  · rw [(List.append_inj' heq rfl).1]
    exact hd
  · rw [node?_set_of_ne heq] at hsome
    exact h.above other segment hsome

theorem advance_of_none (h : tree.Rooted) {place : Location} {segment : Text}
    (hd : tree.node? place = some .directory)
    (hnone : tree.node? (advance place segment) = none) :
    advance place segment = place ++ [segment] := by
  rw [advance] at hnone ⊢
  split at hnone
  · simp [hd] at hnone
  · split at hnone
    · have hback : tree.node? place.dropLast = some .directory := by
        rcases List.eq_nil_or_concat place with rfl | ⟨names, name, rfl⟩
        · exact hd
        · exact h.directory_of_append [name] (by simpa using hd)
      simp [hback] at hnone
    · simp [*]

theorem makeDirectory (h : tree.Rooted) {made : FileTree} {place : Location} {segment : Text}
    (hmade : tree.makeDirectory place segment = .ok made) : made.Rooted := by
  obtain ⟨hd, hnone, rfl⟩ := makeDirectory_eq_ok hmade
  have hname := h.advance_of_none hd hnone
  rw [hname]
  exact h.set hd fun _ => rfl

theorem makeDirectories (h : tree.Rooted) (origin : Location) (segments : List Text) :
    (tree.makeDirectories origin segments).2.Rooted :=
  makeDirectories_induct Rooted _ (fun _ _ _ _ _ _ _ hmade hr => hr.makeDirectory hmade) tree h

theorem createDirectories (h : tree.Rooted) (path : Text) :
    (tree.createDirectories path).2.Rooted := h.makeDirectories ..

theorem replaceFile (h : tree.Rooted) {after : FileTree} {path : Text} {bytes : List UInt8}
    (hput : tree.replaceFile path bytes = .ok after) : after.Rooted := by
  obtain ⟨place, name, -, hd, hfree, rfl⟩ := replaceFile_eq_ok hput
  exact h.set hd fun hdir => absurd hdir hfree

end Rooted

/-- A tree is rooted if each of its entries is in a directory. -/
theorem rooted_iff {tree : FileTree} :
    tree.Rooted ↔ tree.node? tree.home = some .directory ∧
      ∀ entry ∈ tree.entries, tree.node? entry.1.dropLast = some .directory := by
  constructor
  · refine fun h => ⟨h.home, fun entry hmem => ?_⟩
    rcases entry.1.eq_nil_or_concat with hnil | ⟨place, name, hconcat⟩
    · rw [hnil]
      exact node?_nil tree
    · rw [List.concat_eq_append] at hconcat
      rw [hconcat, List.dropLast_concat]
      refine h.above place name ?_
      have hsome : (tree.entries.lookup (place ++ [name])).isSome :=
        List.lookup_isSome_iff.mpr ⟨entry, hmem, by simp [hconcat]⟩
      simpa [node?, Option.isSome_iff_ne_none] using hsome
  · rintro ⟨hhome, hentries⟩
    refine ⟨hhome, fun place name hsome => ?_⟩
    have hlookup : (tree.entries.lookup (place ++ [name])).isSome := by
      simpa [node?, Option.isSome_iff_ne_none] using hsome
    obtain ⟨entry, hmem, hkey⟩ := List.lookup_isSome_iff.mp hlookup
    have hentry := hentries entry hmem
    rwa [← eq_of_beq hkey, List.dropLast_concat] at hentry

instance (tree : FileTree) : Decidable tree.Rooted := decidable_of_iff' _ rooted_iff

/-! Steps that do not lead back up -/

theorem advance_of_ne {segment : Text} (h : segment ≠ ['.', '.']) (place : Location) :
    advance place segment = place ++ Path.steps [segment] := by
  by_cases hvoid : Path.isVoid segment = true <;> simp [advance, Path.steps, hvoid, h]

/-- Steps that do not lead back up spell the location they lead to. -/
theorem foldlM_enter_eq_ok {tree : FileTree} {segments : List Text} {place target : Location}
    (hforward : ['.', '.'] ∉ segments) (h : segments.foldlM tree.enter place = .ok target) :
    target = place ++ Path.steps segments := by
  induction segments generalizing place with
  | nil =>
    cases h
    simp
  | cons segment segments ih =>
    rw [List.mem_cons, not_or] at hforward
    obtain ⟨next, henter, hrest⟩ := bind_eq_ok.mp h
    obtain ⟨-, rfl⟩ := enter_eq_ok_iff.mp henter
    rw [ih hforward.2 hrest, advance_of_ne (Ne.symm hforward.1), List.append_assoc,
      ← Path.steps_append, List.singleton_append]

/-- In a rooted tree such steps lead to each directory. -/
theorem Rooted.foldlM_enter {tree : FileTree} (h : tree.Rooted) {segments : List Text}
    {place : Location} (hforward : ['.', '.'] ∉ segments)
    (hd : tree.node? (place ++ Path.steps segments) = some .directory) :
    segments.foldlM tree.enter place = .ok (place ++ Path.steps segments) := by
  induction segments using List.reverseRecOn with
  | nil => simp [pure, Except.pure]
  | append_singleton segments segment ih =>
    rw [List.mem_append, not_or, List.mem_singleton] at hforward
    rw [Path.steps_append, ← List.append_assoc] at hd ⊢
    have habove := h.directory_of_append _ hd
    have henter : tree.enter (place ++ Path.steps segments) segment =
        .ok (place ++ Path.steps segments ++ Path.steps [segment]) :=
      enter_eq_ok_iff.mpr ⟨habove, (advance_of_ne (Ne.symm hforward.2) _).symm⟩
    simp only [List.foldlM_append, List.foldlM_cons, List.foldlM_nil, bind_pure]
    exact bind_eq_ok.mpr ⟨_, ih hforward.1 habove, henter⟩

theorem Rooted.foldlM_enter_concat_iff {tree : FileTree} (h : tree.Rooted)
    {segments : List Text} {name : Text} {place target : Location}
    (hforward : ['.', '.'] ∉ segments) (hname : name ≠ ['.', '.'])
    (hvoid : Path.isVoid name = false) :
    (segments ++ [name]).foldlM tree.enter place = .ok target ↔
      tree.node? (place ++ Path.steps segments) = some .directory ∧
        target = place ++ Path.steps segments ++ [name] := by
  have hadvance : ∀ above : Location, advance above name = above ++ [name] := by
    intro above
    simp [advance_of_ne hname, Path.steps, hvoid]
  simp only [List.foldlM_append, List.foldlM_cons, List.foldlM_nil, bind_pure, bind_eq_ok,
    enter_eq_ok_iff]
  constructor
  · rintro ⟨above, hfold, hd, rfl⟩
    rw [foldlM_enter_eq_ok hforward hfold] at hd ⊢
    exact ⟨hd, hadvance _⟩
  · rintro ⟨hd, rfl⟩
    exact ⟨_, h.foldlM_enter hforward hd, hd, (hadvance _).symm⟩

end FileTree
end OpenGrammar
