import OpenGrammar.Proofs.FileTrees

/-! Paths by their leads and names. A path is cut between its segments without a change of where
it starts, so that the directory above it has all its components but the last, however many
slashes and dots the text has. -/
namespace OpenGrammar
namespace Path

theorem slash_not_mem_of_mem_splitOn {path segment : Text} (h : segment ∈ path.splitOn '/') :
    '/' ∉ segment := (Text.of_mem_splitOn h).1

def names (path : Text) : List Text := steps (path.splitOn '/')

theorem names_append_slash (a b : Text) : names (a ++ '/' :: b) = names a ++ names b := by
  rw [names, List.splitOn_append_cons_self, steps_append, names, names]

theorem names_join {segments : List Text} (h : ∀ segment ∈ segments, '/' ∉ segment) :
    names (Text.join ['/'] segments) = steps segments := by
  by_cases hnil : segments = []
  · subst hnil
    rfl
  · rw [names, Text.join, List.splitOn_intercalate '/' h hnil]

/-! Where a path starts -/

theorem splitOn_dot_cons {rest : Text} (h : (rest.splitOn '/').head? = some []) :
    ('.' :: rest).splitOn '/' = ['.'] :: (rest.splitOn '/').tail := by
  rw [List.splitOn_cons_eq_if_modifyHead, if_neg (by decide)]
  cases hsplit : rest.splitOn '/' with
  | nil => simp [hsplit] at h
  | cons first more =>
    obtain rfl : first = [] := by simpa [hsplit] using h
    rfl

theorem exists_of_head?_splitOn {path : Text} (h : (path.splitOn '/').head? = some ['.']) :
    ∃ rest, path = '.' :: rest ∧ (rest.splitOn '/').head? = some [] := by
  cases path with
  | nil => simp at h
  | cons c rest =>
    rw [List.splitOn_cons_eq_if_modifyHead] at h
    split at h
    · simp at h
    · cases hsplit : rest.splitOn '/' with
      | nil => exact absurd hsplit (List.splitOn_ne_nil '/' rest)
      | cons first more =>
        obtain ⟨rfl, rfl⟩ : c = '.' ∧ first = [] := by simpa [hsplit] using h
        exact ⟨rest, rfl, by simp [hsplit]⟩

theorem join_prefix_path {path : Text} {segments : List Text} (hp : segments <+: path.splitOn '/') :
    Text.join ['/'] segments <+: path := by
  obtain ⟨more, hmore⟩ := hp
  have hpath : Text.join ['/'] (path.splitOn '/') = path := List.intercalate_splitOn '/'
  rw [← hmore] at hpath
  by_cases hnil : segments = []
  · simp [hnil, Text.join]
  · by_cases hend : more = []
    · rw [hend, List.append_nil] at hpath
      exact hpath ▸ List.prefix_rfl
    · rw [Text.join_append hnil hend, List.append_assoc] at hpath
      exact ⟨_, hpath⟩

theorem isAbsolute_front {front path : Text} (h : isAbsolute path = false)
    (hp : front <+: path) : isAbsolute front = false := by
  obtain ⟨rest, rfl⟩ := hp
  cases front with
  | nil => rfl
  | cons c front => exact h

theorem head?_splitOn_join {path : Text} {segments : List Text}
    (hp : segments <+: path.splitOn '/') :
    ((Text.join ['/'] segments).splitOn '/').head? = some [] ∨
      ((Text.join ['/'] segments).splitOn '/').head? = (path.splitOn '/').head? := by
  cases segments with
  | nil => exact Or.inl rfl
  | cons first rest =>
    have hslash : ∀ segment ∈ first :: rest, '/' ∉ segment := fun segment hmem =>
      slash_not_mem_of_mem_splitOn (hp.subset hmem)
    obtain ⟨more, hmore⟩ := hp
    right
    rw [Text.join, List.splitOn_intercalate '/' hslash (List.cons_ne_nil first rest), ← hmore]
    rfl

/-- A path starts with a slash, with a dot that is a segment, or with neither. -/
inductive Leads : Text → Text → Prop
  | slash (rest : Text) : Leads ['/'] rest
  | dot {rest : Text} : (rest.splitOn '/').head? = some [] → Leads ['.'] rest
  | bare {rest : Text} : isAbsolute rest = false → (rest.splitOn '/').head? ≠ some ['.'] →
    Leads [] rest

theorem leads_drop (path : Text) :
    lead path ++ path.drop (lead path).length = path ∧
      Leads (lead path) (path.drop (lead path).length) := by
  unfold lead
  split
  · rename_i habs
    cases path with
    | nil => simp [isAbsolute] at habs
    | cons c rest =>
      obtain rfl : c = '/' := by simpa [isAbsolute] using habs
      exact ⟨rfl, .slash rest⟩
  · rename_i habs
    split
    · rename_i hdot
      obtain ⟨rest, rfl, hrest⟩ := exists_of_head?_splitOn hdot
      exact ⟨rfl, .dot hrest⟩
    · rename_i hdot
      exact ⟨rfl, .bare (Bool.eq_false_iff.mpr habs) hdot⟩

namespace Leads

variable {front rest : Text}

theorem lead_eq (h : Leads front rest) : lead (front ++ rest) = front := by
  cases h with
  | slash => rfl
  | dot hrest => simp [lead, isAbsolute, splitOn_dot_cons hrest]
  | bare habs hdot => simp [lead, habs, hdot]

theorem names_eq (h : Leads front rest) : names (front ++ rest) = names rest := by
  cases h with
  | slash => exact names_append_slash [] rest
  | dot hrest =>
    rw [List.singleton_append, names, names, splitOn_dot_cons hrest]
    cases hsplit : rest.splitOn '/' with
    | nil => rfl
    | cons first more =>
      obtain rfl : first = [] := by simpa [hsplit] using hrest
      rfl
  | bare => rfl

theorem cut (h : Leads front rest) {segments : List Text} (hp : segments <+: rest.splitOn '/') :
    Leads front (Text.join ['/'] segments) := by
  have hhead := head?_splitOn_join hp
  cases h with
  | slash => exact .slash _
  | dot hrest =>
    rw [hrest, or_self] at hhead
    exact .dot hhead
  | bare habs hdot =>
    refine .bare (isAbsolute_front habs (join_prefix_path hp)) ?_
    rcases hhead with hnil | hsame
    · simp [hnil]
    · rwa [hsame]

end Leads

/-! The directory above a path -/

theorem steps_dropWhile (segments : List Text) :
    steps (segments.dropWhile isVoid) = steps segments := by
  induction segments with
  | nil => rfl
  | cons segment segments ih =>
    by_cases hvoid : isVoid segment = true
    · rw [List.dropWhile_cons_of_pos hvoid, ih]
      simp [steps, hvoid]
    · rw [List.dropWhile_cons_of_neg hvoid]

def trimmed (segments : List Text) : List Text := (segments.reverse.dropWhile isVoid).reverse

theorem steps_trimmed (segments : List Text) : steps (trimmed segments) = steps segments := by
  have hdrop := congrArg List.reverse (steps_dropWhile segments.reverse)
  simpa [trimmed, steps, List.filter_reverse] using hdrop

theorem trimmed_prefix_self (segments : List Text) : trimmed segments <+: segments := by
  have hsuffix := List.dropWhile_suffix (l := segments.reverse) isVoid
  simpa [trimmed] using List.reverse_prefix.mpr hsuffix

theorem exists_parent?_of_names {path name : Text} {above : List Text}
    (h : names path = above ++ [name]) :
    ∃ directory, parent? path = some directory ∧ lead directory = lead path ∧
      names directory = above := by
  obtain ⟨hpath, hleads⟩ := leads_drop path
  have hnames : names path = steps (trimmed ((path.drop (lead path).length).splitOn '/')) := by
    conv_lhs => rw [← hpath]
    rw [hleads.names_eq, steps_trimmed]
    rfl
  have hprefix := trimmed_prefix_self ((path.drop (lead path).length).splitOn '/')
  rw [h] at hnames
  rw [trimmed] at hnames hprefix
  cases hdrop : ((path.drop (lead path).length).splitOn '/').reverse.dropWhile isVoid with
  | nil => simp [hdrop] at hnames
  | cons last more =>
    have hlast : isVoid last = false := by
      have hhead := List.head?_dropWhile_not isVoid
        ((path.drop (lead path).length).splitOn '/').reverse
      rwa [hdrop] at hhead
    have hsteps : steps [last] = [last] := by simp [steps, hlast]
    rw [hdrop, List.reverse_cons] at hnames hprefix
    rw [steps_append, hsteps] at hnames
    have hsegments : trimmed more.reverse <+: (path.drop (lead path).length).splitOn '/' :=
      (trimmed_prefix_self _).trans ((List.prefix_append _ _).trans hprefix)
    have hslash : ∀ segment ∈ trimmed more.reverse, '/' ∉ segment := fun segment hmem =>
      slash_not_mem_of_mem_splitOn (hsegments.subset hmem)
    have hcut := hleads.cut hsegments
    refine ⟨lead path ++ Text.join ['/'] (trimmed more.reverse), ?_, hcut.lead_eq, ?_⟩
    · rw [parent?, hdrop, trimmed, List.reverse_reverse]
    · rw [hcut.names_eq, names_join hslash, steps_trimmed]
      exact (List.append_inj_left' hnames rfl).symm

/-! Components -/

/-- The component that a path starts with and that is no name, if any. -/
def start (path : Text) : List Component :=
  if lead path = ['/'] then [.root] else if lead path = ['.'] then [.current] else []

theorem components_eq (path : Text) :
    components path = start path ++ (names path).map Component.ofSegment := by
  simp only [components, start, lead, names, steps]
  split
  · rfl
  · split <;> rfl

theorem ofSegment_ne (segment : Text) :
    Component.ofSegment segment ≠ .root ∧ Component.ofSegment segment ≠ .current := by
  unfold Component.ofSegment
  split <;> simp

theorem normal_not_mem_start (path name : Text) : Component.normal name ∉ start path := by
  unfold start
  split
  · simp
  · split <;> simp

theorem lead_eq_slash_iff {path : Text} : lead path = ['/'] ↔ isAbsolute path = true := by
  unfold lead
  split
  · simp [*]
  · split <;> simp [*]

theorem start_eq_nil_iff {path : Text} :
    start path = [] ↔ isAbsolute path = false ∧ (path.splitOn '/').head? ≠ some ['.'] := by
  unfold start lead
  split
  · simp [*]
  · split <;> simp [*]

/-- Only the first component can be a root or a dot. -/
theorem ne_of_mem_tail {path : Text} {step : Component} (h : step ∈ (components path).tail) :
    step ≠ .root ∧ step ≠ .current := by
  have hmem : step ∈ (names path).map Component.ofSegment := by
    rw [components_eq] at h
    unfold start at h
    split at h
    · simpa using h
    · split at h
      · simpa using h
      · exact List.mem_of_mem_tail h
  obtain ⟨segment, -, rfl⟩ := List.mem_map.mp hmem
  exact ofSegment_ne segment

theorem head?_components_eq_root_iff {path : Text} :
    (components path).head? = some .root ↔ isAbsolute path = true := by
  rw [← lead_eq_slash_iff, components_eq, start]
  by_cases hslash : lead path = ['/']
  · simp [hslash]
  · by_cases hdot : lead path = ['.']
    · simp [hdot]
    · cases hnames : names path with
      | nil => simp [hslash, hdot]
      | cons first rest => simp [hslash, hdot, (ofSegment_ne first).1]

theorem components_eq_nil_iff {path : Text} : components path = [] ↔ path = [] := by
  constructor
  · intro h
    rw [components_eq, List.append_eq_nil_iff, List.map_eq_nil_iff] at h
    obtain ⟨hstart, hnames⟩ := h
    obtain ⟨habs, hhead⟩ := start_eq_nil_iff.mp hstart
    cases hsplit : path.splitOn '/' with
    | nil => exact absurd hsplit (List.splitOn_ne_nil '/' path)
    | cons first rest =>
      have hdot : first ≠ ['.'] := by simpa [hsplit] using hhead
      -- Without names and a dot the first segment is empty, and no slash stands behind it.
      have hvoid : isVoid first = true := by
        by_contra hne
        simp [names, hsplit, steps, hne] at hnames
      have hfirst : first = [] := by simpa [isVoid, hdot] using hvoid
      cases path with
      | nil => rfl
      | cons c path =>
        have hc : c ≠ '/' := by simpa [isAbsolute] using habs
        rw [List.splitOn_cons_eq_if_modifyHead, if_neg (by simpa using hc)] at hsplit
        cases hpath : path.splitOn '/' with
        | nil => simp [hpath] at hsplit
        | cons other more => simp [hpath, hfirst] at hsplit
  · rintro rfl
    rfl

theorem fileName?_eq_some_iff {path name : Text} :
    fileName? path = some name ↔ ∃ above, components path = above ++ [.normal name] := by
  rw [← List.getLast?_eq_some_iff]
  unfold fileName?
  split
  · rename_i last hlast
    simp [hlast]
  · rename_i hnone
    simp only [reduceCtorEq, false_iff]
    exact hnone name

theorem exists_parent?_of_fileName? {path name : Text} (h : fileName? path = some name) :
    ∃ directory, parent? path = some directory ∧
      components path = components directory ++ [.normal name] := by
  obtain ⟨above, habove⟩ := fileName?_eq_some_iff.mp h
  rw [components_eq] at habove
  rcases (names path).eq_nil_or_concat with hnil | ⟨front, last, hnames⟩
  · rw [hnil, List.map_nil, List.append_nil] at habove
    exact absurd (habove ▸ List.mem_append_right _ List.mem_cons_self)
      (normal_not_mem_start path name)
  · rw [List.concat_eq_append] at hnames
    obtain ⟨directory, hparent, hlead, hfront⟩ := exists_parent?_of_names hnames
    rw [hnames, List.map_append, ← List.append_assoc] at habove
    refine ⟨directory, hparent, ?_⟩
    rw [components_eq, components_eq, hnames, hfront, start, start, hlead, List.map_append,
      ← List.append_assoc]
    exact congrArg _ (List.append_inj_right' habove rfl)

def directory (path : Text) : Text := (parent? path).getD []

theorem components_of_fileName? {path name : Text} (h : fileName? path = some name) :
    components path = components (directory path) ++ [.normal name] := by
  obtain ⟨above, hparent, hcomponents⟩ := exists_parent?_of_fileName? h
  rw [directory, hparent]
  exact hcomponents

theorem components_directory {path name : Text} {above : List Component}
    (h : components path = above ++ [.normal name]) : components (directory path) = above := by
  have hname := components_of_fileName? (fileName?_eq_some_iff.mpr ⟨above, h⟩)
  exact (List.append_inj_left' (h.symm.trans hname) rfl).symm

theorem isAbsolute_directory {path name : Text} (h : fileName? path = some name) :
    isAbsolute (directory path) = isAbsolute path := by
  rw [Bool.eq_iff_iff, ← head?_components_eq_root_iff, ← head?_components_eq_root_iff,
    components_of_fileName? h]
  cases components (directory path) <;> simp

end Path
end OpenGrammar
