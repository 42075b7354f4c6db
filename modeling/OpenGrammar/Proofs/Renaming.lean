import OpenGrammar.Proofs.Replacement

/-! Names replaced by names and by calls. The tokens of a text in which names were replaced are
its own tokens with those of the replacements in the place of the names. So names that were
replaced by names can be replaced again, and both times may be done at once. -/
namespace OpenGrammar
namespace Token

/-- A name, or a call that hands one name to another. -/
def IsReplacement (target : Text) : Prop :=
  isIdentifier target = true ∨ ∃ accessor name,
    isIdentifier accessor = true ∧ isIdentifier name = true ∧ target = Linkage.call accessor name

/-- Names are replaced by names only. -/
def KeepsNames (f : Text → Option Text) : Prop :=
  ∀ name target, isIdentifier name = true → f name = some target → isIdentifier target = true

def renamed (f : Text → Option Text) (name : Text) : Text := (f name).getD name

def rename (f : Text → Option Text) (tok : Token) : Token :=
  if tok.kind = .identifier then { tok with text := renamed f tok.text } else tok

def after (g f : Text → Option Text) (name : Text) : Option Text :=
  match f name with
  | some middle => some (renamed g middle)
  | none => g name

def callTokens (accessor name : Text) : List Token :=
  [⟨.symbol, ['<']⟩, ⟨.symbol, ['<']⟩, ⟨.identifier, accessor⟩, ⟨.whitespace, [' ']⟩,
    ⟨.identifier, name⟩, ⟨.symbol, ['>']⟩, ⟨.symbol, ['>']⟩]

variable {f g : Text → Option Text}

theorem isIdentifier_renamed (hf : KeepsNames f) {name : Text} (h : isIdentifier name = true) :
    isIdentifier (renamed f name) = true := by
  unfold renamed
  cases hr : f name with
  | none => exact h
  | some target => exact hf name target h hr

theorem renamed_after (g f : Text → Option Text) (name : Text) :
    renamed (after g f) name = renamed g (renamed f name) := by
  unfold renamed after
  cases f name with
  | none => rfl
  | some middle => rfl

theorem KeepsNames.after (hg : KeepsNames g) (hf : KeepsNames f) : KeepsNames (after g f) := by
  intro name target hn ht
  unfold Token.after at ht
  cases hr : f name with
  | none =>
    rw [hr] at ht
    exact hg name target hn ht
  | some middle =>
    rw [hr] at ht
    obtain rfl := Option.some.inj ht
    exact isIdentifier_renamed hg (hf name middle hn hr)

theorem spell_rename (f : Text → Option Text) (tok : Token) :
    (rename f tok).text = if tok.kind = .identifier then renamed f tok.text else tok.text := by
  unfold rename
  split <;> rfl

theorem rename_rename (g f : Text → Option Text) (tok : Token) :
    rename g (rename f tok) = rename (after g f) tok := by
  unfold rename
  by_cases hk : tok.kind = .identifier
  · simp [hk, renamed_after]
  · simp [hk]

theorem tokenize_call {accessor name : Text} (ha : isIdentifier accessor = true)
    (hn : isIdentifier name = true) : tokenize (Linkage.call accessor name) = callTokens accessor name := by
  have hinside : tokenize (accessor ++ ' ' :: name) =
      [⟨.identifier, accessor⟩, ⟨.whitespace, [' ']⟩, ⟨.identifier, name⟩] := by
    rw [tokenize_spaced (fun c hc => isIdentPart_of_mem ha hc) (Linkage.not_isGap_head hn),
      tokenize_identifier ha, tokenize_identifier hn]
    rfl
  have hends : ∀ tok ∈ (tokenize (accessor ++ ' ' :: name)).getLast?, tok.EndsBefore '>' := by
    intro tok ht
    rw [hinside] at ht
    obtain rfl : ⟨.identifier, name⟩ = tok := by simpa using ht
    exact (by decide : isIdentPart '>' = false)
  have hcall : Linkage.call accessor name = "<<".toList ++ (accessor ++ ' ' :: name) ++ ">>".toList := by
    simp [Linkage.call]
  rw [hcall, tokenize_angled hends, hinside]
  rfl

theorem IsReplacement.isLink {target : Text} (h : IsReplacement target) : IsLink target := by
  rcases h with h | ⟨accessor, name, ha, hn, rfl⟩
  · exact isLink_identifier h
  · refine (isCall_call (fun c hc => isIdentPart_of_mem ha hc) (Linkage.not_isGap_head hn) ?_).isLink
    exact fun tok ht => endsBefore_of_word (fun c hc => isIdentPart_of_mem hn hc) ht (by decide)

theorem KeepsNames.isReplacement (hf : KeepsNames f) {name target : Text}
    (hn : isIdentifier name = true) (h : f name = some target) : IsReplacement target :=
  Or.inl (hf name target hn h)

theorem tokenize_renamed (hf : KeepsNames f) (t : Text) :
    tokenize (mapIdentifiers f t) = (tokenize t).map (rename f) := by
  rw [tokenize_mapIdentifiers fun _ _ hn h => (hf.isReplacement hn h).isLink, List.map_eq_flatMap]
  refine List.flatMap_congr fun tok ht => ?_
  unfold relink rename
  split
  · rename_i hk
    have hn := isIdentifier_of_mem_tokenize ht hk
    cases hr : f tok.text with
    | none => simp [renamed, hr]
    | some target => simp [renamed, hr, tokenize_identifier (hf _ _ hn hr), hk]
  · rfl

theorem mapIdentifiers_eq_spell (f : Text → Option Text) (t : Text) :
    mapIdentifiers f t = spell ((tokenize t).map (rename f)) := by
  simp only [mapIdentifiers, spell, List.flatMap_map, spell_rename]
  rfl

theorem mapIdentifiers_mapIdentifiers (hf : KeepsNames f) (g : Text → Option Text) (t : Text) :
    mapIdentifiers g (mapIdentifiers f t) = mapIdentifiers (after g f) t := by
  rw [mapIdentifiers_eq_spell, tokenize_renamed hf, List.map_map, mapIdentifiers_eq_spell]
  congr 1
  exact List.map_congr_left fun tok _ => rename_rename g f tok

/-- The tokens of a text in which names were replaced are its own, with those of a name or a call
in the place of each name that was. Names that were replaced by names may be replaced at
once by what these are replaced by. -/
theorem tokenize_replaced
    (hf : ∀ name target, isIdentifier name = true → f name = some target → IsReplacement target)
    (t : Text) :
    tokenize (mapIdentifiers f t) = (tokenize t).flatMap (relink f) ∧
    (∀ name target, isIdentifier name = true → f name = some target →
      tokenize target = [⟨.identifier, target⟩] ∨
        ∃ accessor called, target = Linkage.call accessor called ∧
          tokenize target = callTokens accessor called) ∧
    (KeepsNames f → tokenize (mapIdentifiers f t) = (tokenize t).map (rename f) ∧
      ∀ g, KeepsNames g → KeepsNames (after g f) ∧
        mapIdentifiers g (mapIdentifiers f t) = mapIdentifiers (after g f) t) := by
  refine ⟨tokenize_mapIdentifiers fun name target hn h => (hf name target hn h).isLink, ?_, ?_⟩
  · intro name target hn h
    rcases hf name target hn h with ht | ⟨accessor, called, ha, hc, rfl⟩
    · exact Or.inl (tokenize_identifier ht)
    · exact Or.inr ⟨accessor, called, rfl, tokenize_call ha hc⟩
  · intro hk
    exact ⟨tokenize_renamed hk t, fun g hg => ⟨hg.after hk, mapIdentifiers_mapIdentifiers hk g t⟩⟩

def linkedNames (name : Text) : Option Text :=
  List.lookup name [("b".toList, "<<bExt b_real>>".toList), ("c".toList, "d".toList)]

def swappedNames (name : Text) : Option Text :=
  List.lookup name [("b".toList, "c".toList), ("c".toList, "b".toList)]

theorem tokenize_replaced_beside_literal :
    (∀ name target, isIdentifier name = true → linkedNames name = some target → IsReplacement target) ∧
    tokenize (mapIdentifiers linkedNames "b/c'b'".toList) =
      callTokens "bExt".toList "b_real".toList ++
        [⟨.symbol, ['/']⟩, ⟨.identifier, ['d']⟩, ⟨.literal, "'b'".toList⟩] ∧
    KeepsNames swappedNames ∧
    mapIdentifiers swappedNames (mapIdentifiers swappedNames "b/c'b'".toList) = "b/c'b'".toList := by
  have hlinked : ∀ name target, isIdentifier name = true → linkedNames name = some target →
      IsReplacement target := by
    intro name target _ h
    unfold linkedNames at h
    simp only [List.lookup_cons] at h
    split at h
    · exact Or.inr ⟨"bExt".toList, "b_real".toList, by decide, by decide, (Option.some.inj h).symm⟩
    · split at h
      · obtain rfl := Option.some.inj h
        exact Or.inl (by decide)
      · cases h
  have hswapped : KeepsNames swappedNames := by
    intro name target _ h
    unfold swappedNames at h
    simp only [List.lookup_cons] at h
    split at h
    · obtain rfl := Option.some.inj h
      decide
    · split at h
      · obtain rfl := Option.some.inj h
        decide
      · cases h
  refine ⟨hlinked, ?_, hswapped, ?_⟩
  · rw [(tokenize_replaced hlinked "b/c'b'".toList).1]
    decide +kernel
  · have htwice := (tokenize_replaced (fun _ _ hn h => hswapped.isReplacement hn h) "b/c'b'".toList).2.2
    rw [((htwice hswapped).2 swappedNames hswapped).2]
    decide +kernel

end Token
end OpenGrammar
