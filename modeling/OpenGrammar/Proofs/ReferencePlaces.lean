import OpenGrammar.Proofs.OnePass
import OpenGrammar.Proofs.RequiredImports

/-! The places of external references. A scan that goes on behind each reference leaves none of
them out, since no two overlap; so what it writes, and how often it asks what to write, is
told place by place. What the linkage writes holds no reference, and a second scan finds
nothing to do. -/
namespace OpenGrammar
namespace Token

/-! Places -/

/-- The name of the external reference whose three tokens start at the place. -/
def referenceOn? (toks : List Token) (i : Nat) : Option Text := referenceAt? (toks.drop i)

@[simp] theorem referenceOn?_zero (toks : List Token) : referenceOn? toks 0 = referenceAt? toks := rfl

@[simp] theorem referenceOn?_succ (tok : Token) (toks : List Token) (i : Nat) :
    referenceOn? (tok :: toks) (i + 1) = referenceOn? toks i := rfl

/-- The place lies in a reference that starts before it. -/
def Inside (toks : List Token) (i : Nat) : Prop :=
  ∃ j, j < i ∧ (i < j + 3 ∧ (referenceOn? toks j).isSome = true)

instance decidableInside (toks : List Token) (i : Nat) : Decidable (Inside toks i) :=
  inferInstanceAs (Decidable (∃ j, j < i ∧ (i < j + 3 ∧ (referenceOn? toks j).isSome = true)))

theorem not_inside_zero (toks : List Token) : ¬ Inside toks 0 := by
  rintro ⟨j, hj, -⟩
  exact absurd hj (Nat.not_lt_zero j)

theorem inside_succ_iff {tok : Token} {toks : List Token} {i : Nat} :
    Inside (tok :: toks) (i + 1) ↔
      (i < 2 ∧ (referenceAt? (tok :: toks)).isSome = true) ∨ Inside toks i := by
  constructor
  · rintro ⟨j, hj, hi, href⟩
    cases j with
    | zero => exact Or.inl ⟨by omega, href⟩
    | succ j => exact Or.inr ⟨j, by omega, by omega, href⟩
  · rintro (⟨hi, href⟩ | ⟨j, hj, hi, href⟩)
    · exact ⟨0, by omega, by omega, href⟩
    · exact ⟨j + 1, by omega, by omega, href⟩

/-- References do not overlap. -/
theorem add_three_le_of_referenceOn? {toks : List Token} {i j : Nat} {name other : Text}
    (hi : referenceOn? toks i = some name) (hj : referenceOn? toks j = some other) (h : i < j) :
    i + 3 ≤ j := by
  obtain ⟨rest, hrest⟩ := referenceAt?_eq_some_iff.1 hi
  obtain ⟨hname, hclose⟩ := referenceAt?_behind name rest
  have hdrop : ∀ n, toks.drop (i + n) = (externalTokens name ++ rest).drop n := by
    intro n
    rw [hrest, List.drop_drop]
  by_contra hlt
  obtain rfl | rfl : j = i + 1 ∨ j = i + 2 := by omega
  · rw [referenceOn?, hdrop] at hj
    exact absurd (hname.symm.trans hj) (by simp)
  · rw [referenceOn?, hdrop] at hj
    exact absurd (hclose.symm.trans hj) (by simp)

/-! The scan with a callback that may keep a state -/

section Scan

variable {m : Type → Type} [Monad m]

def Piece.writeM (f : Text → m Text) : Piece → m Text
  | .plain tok => pure tok.text
  | .external name => f name

/-- The text with each external reference replaced by what the callback gives for its name. -/
def mapExternalsM (f : Text → m Text) (t : Text) : m Text :=
  List.flatten <$> (pieces (tokenize t)).mapM (Piece.writeM f)

/-- What is written at a place: what the callback gives for the reference that starts there,
nothing inside of a reference, and the token itself at all other places. -/
def writeAt (f : Text → m Text) (toks : List Token) (i : Nat) : m Text :=
  match referenceOn? toks i with
  | some name => f name
  | none => pure (if Inside toks i then [] else (toks[i]?.map Token.text).getD [])

def Piece.writesM (f : Text → m Text) : Piece → List (m Text)
  | .plain tok => [pure tok.text]
  | .external name => [f name, pure [], pure []]

theorem writeAt_zero_of_none (f : Text → m Text) {tok : Token} {toks : List Token}
    (h : referenceAt? (tok :: toks) = none) : writeAt f (tok :: toks) 0 = pure tok.text := by
  simp [writeAt, h, not_inside_zero]

theorem writeAt_succ_of_none (f : Text → m Text) {tok : Token} {toks : List Token}
    (h : referenceAt? (tok :: toks) = none) (i : Nat) :
    writeAt f (tok :: toks) (i + 1) = writeAt f toks i := by
  simp [writeAt, inside_succ_iff, h]

theorem writeAt_external (f : Text → m Text) (name : Text) (rest : List Token) :
    writeAt f (externalTokens name ++ rest) 0 = f name ∧
      writeAt f (externalTokens name ++ rest) 1 = pure [] ∧
      writeAt f (externalTokens name ++ rest) 2 = pure [] ∧
      ∀ i, writeAt f (externalTokens name ++ rest) (i + 3) = writeAt f rest i := by
  obtain ⟨hname, hclose⟩ := referenceAt?_behind name rest
  have hhere : referenceAt? (externalTokens name ++ rest) = some name :=
    referenceAt?_eq_some_iff.2 (List.prefix_append _ rest)
  simp only [externalTokens, List.cons_append, List.nil_append] at hhere ⊢
  refine ⟨by simp [writeAt, hhere], ?_, ?_, fun i => ?_⟩
  · simp [writeAt, hname, inside_succ_iff, hhere]
  · simp [writeAt, hclose, inside_succ_iff, hhere]
  · simp [writeAt, inside_succ_iff, hname, hclose]

theorem map_writeAt (f : Text → m Text) {toks : List Token} (h : ∀ tok ∈ toks, tok.Leads []) :
    (List.range toks.length).map (writeAt f toks) = (pieces toks).flatMap (Piece.writesM f) := by
  refine pieces_induction h ?nil ?alone ?reference
  case nil => rfl
  case alone =>
    intro tok toks hp ih
    have hnone := referenceAt?_of_pieces hp
    rw [hp, List.flatMap_cons, ← ih, List.length_cons, List.range_succ_eq_map, List.map_cons,
      writeAt_zero_of_none f hnone, List.map_map]
    congr 2
    funext i
    exact writeAt_succ_of_none f hnone i
  case reference =>
    intro name toks ih
    obtain ⟨h0, h1, h2, hbehind⟩ := writeAt_external f name toks
    have hlength : (externalTokens name ++ toks).length = toks.length + 1 + 1 + 1 := rfl
    rw [pieces_externalTokens, List.flatMap_cons, ← ih, hlength, List.range_succ_eq_map,
      List.range_succ_eq_map, List.range_succ_eq_map]
    simp only [List.map_cons, List.map_map, h0, h1, h2, Piece.writesM, List.cons_append,
      List.nil_append]
    congr 4
    funext i
    exact hbehind i

variable [LawfulMonad m]

theorem flatten_writesM (f : Text → m Text) (ps : List Piece) :
    List.flatten <$> (ps.flatMap (Piece.writesM f)).mapM id = List.flatten <$> ps.mapM (Piece.writeM f) := by
  induction ps with
  | nil => rfl
  | cons p ps ih =>
    have hcons : ∀ x : m Text, (do
        let a ← x
        let rest ← List.flatten <$> (ps.flatMap (Piece.writesM f)).mapM id
        pure (a ++ rest)) = List.flatten <$> (do
          let a ← x
          let rest ← ps.mapM (Piece.writeM f)
          pure (a :: rest)) := by
      intro x
      rw [ih]
      simp
    cases p with
    | plain tok => simpa [Piece.writesM, Piece.writeM] using hcons (pure tok.text)
    | external name => simpa [Piece.writesM, Piece.writeM] using hcons (f name)

/-- A scan writes and calls place by place, from left to right. -/
theorem mapExternalsM_eq (f : Text → m Text) (t : Text) :
    mapExternalsM f t =
      List.flatten <$> (List.range (tokenize t).length).mapM (writeAt f (tokenize t)) := by
  have hplaces : (List.range (tokenize t).length).map (writeAt f (tokenize t)) =
      (pieces (tokenize t)).flatMap (Piece.writesM f) :=
    map_writeAt f fun tok ht => leads_of_mem_tokenize ht
  have hactions : (List.range (tokenize t).length).mapM (writeAt f (tokenize t)) =
      ((List.range (tokenize t).length).map (writeAt f (tokenize t))).mapM id := by
    rw [List.mapM_map]
    rfl
  rw [hactions, hplaces, flatten_writesM, mapExternalsM]

end Scan

/-! Callbacks that only note what they are asked for -/

section Noting

variable {σ : Type}

def noting (f : Text → Text) (keep : σ → Text → σ) (name : Text) : StateM σ Text := do
  modify (keep · name)
  return f name

theorem run_writeM_noting (f : Text → Text) (keep : σ → Text → σ) (ps : List Piece) (s : σ) :
    (ps.mapM (Piece.writeM (noting f keep))).run s =
      (ps.map fun
        | .plain tok => tok.text
        | .external name => f name,
      (ps.filterMap fun
        | .plain _ => none
        | .external name => some name).foldl keep s) := by
  induction ps generalizing s with
  | nil => rfl
  | cons p ps ih =>
    cases p with
    | plain tok =>
      rw [List.mapM_cons, Piece.writeM, pure_bind, StateT.run_bind, ih]
      rfl
    | external name =>
      rw [List.mapM_cons, Piece.writeM, noting, StateT.run_bind]
      simp only [bind_pure_comp, StateT.run_map, StateT.run_modify, map_pure, pure_bind, ih]
      rfl

theorem run_mapExternalsM_noting (f : Text → Text) (keep : σ → Text → σ) (t : Text) (s : σ) :
    (mapExternalsM (noting f keep) t).run s = (mapExternals f t, (externals t).foldl keep s) := by
  rw [mapExternalsM, StateT.run_map, run_writeM_noting, mapExternals, List.flatMap_def]
  rfl

end Noting

/-! Texts without references -/

theorem references_eq_nil_iff {t : Text} :
    references t = [] ↔ ∀ toks, toks <:+ tokenize t → referenceAt? toks = none := by
  simp [references, List.filterMap_eq_nil_iff]

theorem mapExternals_of_no_externals (f : Text → Text) {t : Text} (h : externals t = []) :
    mapExternals f t = t := by
  conv_rhs => rw [← spell_tokenize t, ← given_pieces]
  refine List.flatMap_congr fun p hp => ?_
  cases p with
  | plain tok => rfl
  | external name =>
    rw [← mem_externals_iff, h] at hp
    cases hp

/-- A token that is no opening angle bracket was there before the references were replaced. -/
theorem plain_of_flatMap_relink {f : Text → Text} (hf : ∀ name, ∃ cs, f name = '<' :: cs)
    {ps : List Piece} {tok : Token} {rest : List Token} (hne : tok ≠ ⟨.symbol, ['<']⟩)
    (h : ps.flatMap (Piece.relink f) = tok :: rest) :
    ∃ qs, ps = .plain tok :: qs ∧ qs.flatMap (Piece.relink f) = rest := by
  cases ps with
  | nil => cases h
  | cons p ps =>
    rw [List.flatMap_cons] at h
    cases p with
    | plain other =>
      obtain ⟨rfl, hrest⟩ := List.cons.inj h
      exact ⟨ps, rfl, hrest⟩
    | external name =>
      obtain ⟨cs, hcs⟩ := hf name
      rw [Piece.relink, hcs, tokenize_plain (by decide)] at h
      exact absurd (List.cons.inj h).1.symm hne

/-- No text starts with a reference once its references are replaced. -/
theorem referenceAt?_flatMap_relink {f : Text → Text} (hf : ∀ name, ∃ cs, f name = '<' :: cs)
    (t : Text) : referenceAt? ((pieces (tokenize t)).flatMap (Piece.relink f)) = none := by
  rw [Option.eq_none_iff_forall_ne_some]
  intro name h
  obtain ⟨rest, hrest⟩ := referenceAt?_eq_some_iff.1 h
  obtain ⟨ps, hp, h1⟩ := plain_of_flatMap_relink hf (by decide) hrest.symm
  obtain ⟨qs, rfl, h2⟩ := plain_of_flatMap_relink hf (by simp) h1
  obtain ⟨rs, rfl, -⟩ := plain_of_flatMap_relink hf (by decide) h2
  -- the three tokens were a reference before
  have htokens : (pieces (tokenize t)).flatMap Piece.tokens = tokenize t :=
    tokens_pieces fun tok ht => leads_of_mem_tokenize ht
  rw [hp] at htokens
  rw [← htokens] at hp
  simp [Piece.tokens, pieces] at hp

end Token

namespace Linkage

open Token

variable {link : Linkage}

/-- What the linkage writes holds no external reference. -/
theorem externals_linkExternals (hs : ∀ c ∈ link.suffix, isIdentPart c = true) (t : Text) :
    externals (link.linkExternals t) = [] := by
  have hopen : ∀ name, ∃ cs, externalReference link.suffix name = '<' :: cs := fun _ => ⟨_, rfl⟩
  rw [externals_eq_references, references_eq_nil_iff]
  rintro toks ⟨before, htoks⟩
  rw [Option.eq_none_iff_forall_ne_some]
  intro name h
  obtain ⟨rest, rfl⟩ := referenceAt?_eq_some_iff.1 h
  -- the text can be cut in front of the reference before anything is replaced
  obtain ⟨-, b, -, -, hb⟩ := ComposedRule.exists_cut_linkExternals hs (by decide) htoks.symm
  have hspell := @tokenize_spell_of_tokenize _ before (externalTokens name ++ rest) []
    (by rw [List.append_nil, htoks])
  have hnone := referenceAt?_flatMap_relink hopen b
  have htokens : tokenize (link.linkExternals b) = externalTokens name ++ rest := by
    rw [hb]
    exact hspell
  rw [← tokenize_linkExternals hs, htokens, h] at hnone
  cases hnone

theorem linkExternals_linkExternals (hs : ∀ c ∈ link.suffix, isIdentPart c = true) (t : Text) :
    link.linkExternals (link.linkExternals t) = link.linkExternals t :=
  mapExternals_of_no_externals _ (externals_linkExternals hs t)

theorem addImports_linkExternals (hs : ∀ c ∈ link.suffix, isIdentPart c = true)
    (parent : Option ClassName) (set : ImportSet) (t : Text) :
    link.addImports parent set (link.linkExternals t) = set := by
  cases parent with
  | none => rfl
  | some parent =>
    rw [addImports, externalImports, externals_linkExternals hs]
    rfl

def register (link : Linkage) (parent : Option ClassName) (set : ImportSet) (name : Text) : ImportSet :=
  match parent with
  | none => set
  | some parent => set.insert (externalImport parent link.suffix name)

/-- One scan that replaces the external references and registers the imports that they need. -/
def replaceExternals (link : Linkage) (parent : Option ClassName) (t : Text) : StateM ImportSet Text :=
  mapExternalsM (noting (externalReference link.suffix) (link.register parent)) t

theorem run_replaceExternals (link : Linkage) (parent : Option ClassName) (t : Text) (set : ImportSet) :
    (link.replaceExternals parent t).run set =
      (link.linkExternals t, link.addImports parent set t) := by
  have hset : (externals t).foldl (link.register parent) set = link.addImports parent set t := by
    cases parent with
    | none =>
      induction externals t with
      | nil => rfl
      | cons name names ih => exact ih
    | some parent =>
      rw [addImports, externalImports, ImportSet.insertAll, List.foldl_map]
      rfl
  rw [replaceExternals, run_mapExternalsM_noting, hset]
  rfl

/-- The external references of a text do not overlap, and one scan replaces them: it calls back once for
each place where a reference starts, from left to right, and copies all other tokens. What
the linkage writes holds no reference, so that a second scan changes nothing and registers no
import. -/
theorem externals_replaced_once (t : Text) :
    (∀ i j name other, i < j → externalTokens name <+: (tokenize t).drop i →
      externalTokens other <+: (tokenize t).drop j → i + 3 ≤ j) ∧
    (∀ {σ : Type} (f : Text → StateM σ Text), mapExternalsM f t =
      List.flatten <$> (List.range (tokenize t).length).mapM (writeAt f (tokenize t))) ∧
    (∀ {σ : Type} (f : Text → Text) (keep : σ → Text → σ) (s : σ),
      (mapExternalsM (noting f keep) t).run s = (mapExternals f t, (externals t).foldl keep s)) ∧
    ∀ (link : Linkage) (parent : Option ClassName), (∀ c ∈ link.suffix, isIdentPart c = true) →
      ∀ set : ImportSet,
        (link.replaceExternals parent t).run set =
          (link.linkExternals t, link.addImports parent set t) ∧
        (link.replaceExternals parent (link.linkExternals t)).run set = (link.linkExternals t, set) := by
  refine ⟨fun i j name other hlt hi hj => ?_, fun f => mapExternalsM_eq f t,
    fun f keep s => run_mapExternalsM_noting f keep t s, fun link parent hs set =>
      ⟨run_replaceExternals link parent t set, ?_⟩⟩
  · exact add_three_le_of_referenceOn? (referenceAt?_eq_some_iff.2 hi)
      (referenceAt?_eq_some_iff.2 hj) hlt
  · rw [run_replaceExternals, linkExternals_linkExternals hs, addImports_linkExternals hs]

/-- Nested braces, references side by side, and what only looks like a reference. -/
def bracedText : Text := "\x7b\x7ba\x7d\x7d\x7bb\x7d/\x7b c\x7d'\x7bd\x7d'".toList

def ruleless : Linkage := ⟨⟨[]⟩, "Ext".toList⟩

theorem externals_replaced_once_braced :
    externalTokens ['a'] <+: (tokenize bracedText).drop 1 ∧
    externalTokens ['b'] <+: (tokenize bracedText).drop 5 ∧ 1 + 3 ≤ 5 ∧
    (∀ c ∈ ruleless.suffix, isIdentPart c = true) ∧
    ruleless.linkExternals bracedText =
      "\x7b<<aExt <<a_real>>>>\x7d<<bExt <<b_real>>>>/\x7b c\x7d'\x7bd\x7d'".toList ∧
    (ruleless.addImports (some (.ofDotted "p.Root".toList)) .empty bracedText).items =
      ["static p.RootUtil.aExt", "static p.RootUtil.bExt"].map String.toList ∧
    (ruleless.replaceExternals (some (.ofDotted "p.Root".toList)) (ruleless.linkExternals bracedText)).run
      .empty = (ruleless.linkExternals bracedText, .empty) := by
  have ha : externalTokens ['a'] <+: (tokenize bracedText).drop 1 := by decide +kernel
  have hb : externalTokens ['b'] <+: (tokenize bracedText).drop 5 := by decide +kernel
  have hs : ∀ c ∈ ruleless.suffix, isIdentPart c = true := List.all_eq_true.1 (by decide)
  obtain ⟨hapart, -, -, hlink⟩ := externals_replaced_once bracedText
  exact ⟨ha, hb, hapart 1 5 _ _ (by decide) ha hb, hs, by decide +kernel, by decide +kernel,
    (hlink ruleless _ hs .empty).2⟩

end Linkage
end OpenGrammar
