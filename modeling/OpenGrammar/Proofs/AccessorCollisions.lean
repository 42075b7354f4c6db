import OpenGrammar.Proofs.Composing

/-! Rules that would share an accessor. The accessors in use tell all earlier rules, so that
the first rule whose camel case an earlier one has is refused, and no other; what the
accessors end with makes no difference. -/
namespace OpenGrammar

/-- The first element of a list that has the key of an earlier one, and that earlier one. -/
structure FirstRepeat {α κ : Type} (key : α → κ) (xs : List α) (first second : α) : Prop where
  exists_split : ∃ before after,
    xs = before ++ second :: after ∧ first ∈ before ∧ (before.map key).Nodup
  key_eq : key first = key second

namespace FirstRepeat

variable {α κ : Type} {key : α → κ} {xs : List α} {first second : α}

theorem not_nodup (h : FirstRepeat key xs first second) : ¬ (xs.map key).Nodup := by
  obtain ⟨before, after, rfl, hm, -⟩ := h.exists_split
  intro hn
  rw [List.map_append, List.nodup_append, List.map_cons] at hn
  exact hn.2.2 _ (List.mem_map_of_mem hm) _ List.mem_cons_self h.key_eq

theorem unique {first' second' : α} (h : FirstRepeat key xs first second)
    (h' : FirstRepeat key xs first' second') : first = first' ∧ second = second' := by
  obtain ⟨before, after, rfl, hm, hn⟩ := h.exists_split
  obtain ⟨before', after', he, hm', hn'⟩ := h'.exists_split
  have hsplit : ∀ {b b' : List α} {x y : α} {a a' : List α}, x ∈ b → key x = key y →
      (b'.map key).Nodup → b ++ y :: a = b' ++ a' → b' <+: b := by
    intro b b' x y a a' hx hk hb he
    rcases List.append_eq_append_iff.1 he with ⟨u, rfl, hu⟩ | ⟨u, rfl, -⟩
    · cases u with
      | nil => simp
      | cons z u =>
        obtain rfl := (List.cons.inj hu).1
        rw [List.map_append, List.nodup_append] at hb
        exact absurd hk (hb.2.2 _ (List.mem_map_of_mem hx) _ (by simp))
    · exact List.prefix_append _ _
  have hb : before = before' := by
    have hle := hsplit hm h.key_eq hn' he
    have hge := hsplit hm' h'.key_eq hn he.symm
    exact hge.eq_of_length_le hle.length_le
  subst hb
  obtain ⟨rfl, -⟩ := List.cons.inj (List.append_cancel_left he)
  have hinj := List.inj_on_of_nodup_map hn
  exact ⟨hinj hm hm' (h.key_eq.trans h'.key_eq.symm), rfl⟩

theorem of_map {β : Type} {f : β → α} {ys : List β} (h : FirstRepeat key (ys.map f) first second) :
    ∃ a b, FirstRepeat (fun y => key (f y)) ys a b ∧ f a = first ∧ f b = second := by
  obtain ⟨before, after, he, hm, hn⟩ := h.exists_split
  obtain ⟨before, rest, rfl, rfl, hrest⟩ := List.map_eq_append_iff.1 he
  obtain ⟨b, after, rfl, rfl, -⟩ := List.map_eq_cons_iff.1 hrest
  obtain ⟨a, ha, rfl⟩ := List.mem_map.1 hm
  rw [List.map_map] at hn
  exact ⟨a, b, ⟨⟨before, after, rfl, ha, hn⟩, h.key_eq⟩, rfl, rfl⟩

end FirstRepeat

namespace Naming

variable {suffix : Text} {claims : Claims} {seen bares : List Text} {bare : Text}

/-- The accessors in use are those of the rules seen so far, each owned by its rule. -/
structure Records (suffix : Text) (claims : Claims) (seen : List Text) : Prop where
  lookup_eq : ∀ bare ∈ seen, claims.lookup (accessor suffix bare) = some bare
  known : ∀ name owner, claims.lookup name = some owner →
    owner ∈ seen ∧ accessor suffix owner = name

theorem records_nil (suffix : Text) : Records suffix [] [] := ⟨by simp, by simp⟩

theorem accessor_eq_iff {other : Text} :
    accessor suffix bare = accessor suffix other ↔ camelCase bare = camelCase other :=
  List.append_left_inj suffix

theorem Records.nodup (h : Records suffix claims seen) (hn : seen.Nodup) :
    (seen.map camelCase).Nodup := by
  refine hn.map_on fun a ha b hb he => ?_
  have hb' := h.lookup_eq b hb
  rw [← accessor_eq_iff.2 he, h.lookup_eq a ha] at hb'
  exact Option.some.inj hb'

theorem Records.claim_ok (h : Records suffix claims seen)
    (hfree : camelCase bare ∉ seen.map camelCase) :
    ∃ claims', claim suffix claims bare = .ok (accessor suffix bare, claims') ∧
      Records suffix claims' (seen ++ [bare]) := by
  have hl : claims.lookup (accessor suffix bare) = none := by
    cases hl : claims.lookup (accessor suffix bare) with
    | none => rfl
    | some owner =>
      obtain ⟨hm, he⟩ := h.known _ _ hl
      exact absurd (List.mem_map.2 ⟨owner, hm, accessor_eq_iff.1 he⟩) hfree
  refine ⟨(accessor suffix bare, bare) :: claims, by simp [claim, hl], ?_, ?_⟩
  · intro b hb
    rcases List.mem_append.1 hb with hb | hb
    · have hne : accessor suffix b ≠ accessor suffix bare := by
        intro he
        exact hfree (List.mem_map.2 ⟨b, hb, accessor_eq_iff.1 he⟩)
      rw [List.lookup_cons, beq_eq_false_iff_ne.2 hne]
      exact h.lookup_eq b hb
    · obtain rfl := List.mem_singleton.1 hb
      simp
  · intro name owner hn
    rw [List.lookup_cons] at hn
    split at hn
    · rename_i he
      obtain rfl := Option.some.inj hn
      exact ⟨by simp, (eq_of_beq he).symm⟩
    · obtain ⟨hm, he⟩ := h.known _ _ hn
      exact ⟨List.mem_append_left _ hm, he⟩

theorem Records.claim_error (h : Records suffix claims seen) {owner : Text} (ho : owner ∈ seen)
    (he : camelCase owner = camelCase bare) (hne : owner ≠ bare) :
    claim suffix claims bare = .error (.accessorCollision owner bare (accessor suffix bare)) := by
  have hl := h.lookup_eq owner ho
  rw [accessor_eq_iff.2 he] at hl
  simp [claim, hl, hne]

/-- Different rules take their accessors into use up to the first whose camel case an earlier
one has. -/
theorem claimAll_of_records (h : Records suffix claims seen) (hn : (seen ++ bares).Nodup) :
    (((seen ++ bares).map camelCase).Nodup ∧ ∃ names, claimAll suffix claims bares = .ok names) ∨
      ∃ first second, FirstRepeat camelCase (seen ++ bares) first second ∧
        claimAll suffix claims bares =
          .error (.accessorCollision first second (accessor suffix second)) := by
  induction bares generalizing claims seen with
  | nil =>
    rw [List.append_nil] at hn ⊢
    exact Or.inl ⟨h.nodup hn, [], rfl⟩
  | cons bare rest ih =>
    have hseen := hn.sublist (List.sublist_append_left seen _)
    by_cases hfree : camelCase bare ∈ seen.map camelCase
    · obtain ⟨owner, ho, he⟩ := List.mem_map.1 hfree
      have hne : owner ≠ bare := (List.nodup_append.1 hn).2.2 owner ho bare List.mem_cons_self
      refine Or.inr ⟨owner, bare, ⟨⟨seen, rest, rfl, ho, h.nodup hseen⟩, he⟩, ?_⟩
      rw [claimAll, h.claim_error ho he hne]
      rfl
    · obtain ⟨claims', hc, h'⟩ := h.claim_ok hfree
      have hsplit : seen ++ bare :: rest = seen ++ [bare] ++ rest := by simp
      rw [hsplit] at hn ⊢
      rcases ih h' hn with ⟨hk, names, hr⟩ | ⟨first, second, hf, hr⟩
      · refine Or.inl ⟨hk, accessor suffix bare :: names, ?_⟩
        rw [claimAll, hc]
        simp [hr, bind, Except.bind, pure, Except.pure]
      · refine Or.inr ⟨first, second, hf, ?_⟩
        rw [claimAll, hc]
        simp [hr, bind, Except.bind]

end Naming

namespace Composition

section Engine

variable {engine : PatternEngine} {config : Config} {names : GrammarNames} {text : Text} {path : Option Text}
  {source : Source} {directives : Directives}

/-- What is left of a composition once its names are known to be free. -/
theorem compose_of_free (hscan : Source.scan text path = .ok source)
    (hread : Directives.read source.header config.defaultBaseClass = .ok directives)
    (hfree : checkReserved (Classification.ofTable directives source.rules) source.rules.rules =
      .ok ()) :
    compose config names text path =
      (Naming.claimAll config.accessorSuffix []
        (((Classification.ofTable directives source.rules).rulesOf .extendable).map
          Rule.bareName)).map
        (assemble names source directives (linkageOf config source directives)) := by
  rw [compose, hscan]
  simp only [bind, Except.bind, ofSource, hread, hfree]
  rfl

theorem nodup_bareNames_extendable {table : RuleTable} :
    (((Classification.ofTable directives table).rulesOf .extendable).map Rule.bareName).Nodup := by
  have hname : ((Classification.ofTable directives table).rulesOf .extendable).map Rule.bareName =
      ((Classification.ofTable directives table).rulesOf .extendable).map Rule.name :=
    List.map_congr_left fun rule hr => Classification.name_of_mem_extendable hr
  rw [hname]
  exact Classification.nodup_names_extendable

/-- A composition whose names are free succeeds, or the accessors of two of its rules are one. -/
theorem compose_of_free_cases (hscan : Source.scan text path = .ok source)
    (hread : Directives.read source.header config.defaultBaseClass = .ok directives)
    (hfree : checkReserved (Classification.ofTable directives source.rules) source.rules.rules =
      .ok ()) :
    let rules := (Classification.ofTable directives source.rules).rulesOf .extendable
    ((rules.map fun rule => Naming.camelCase rule.bareName).Nodup ∧
        ∃ comp, compose config names text path = .ok comp) ∨
      ∃ first second,
        FirstRepeat (fun rule => Naming.camelCase rule.bareName) rules first second ∧
        compose config names text path = .error (.accessorCollision first.bareName second.bareName
          (Naming.accessor config.accessorSuffix second.bareName)) := by
  intro rules
  rw [compose_of_free hscan hread hfree]
  rcases Naming.claimAll_of_records (Naming.records_nil config.accessorSuffix)
      (@nodup_bareNames_extendable _ directives source.rules) with
    ⟨hkeys, accessors, hc⟩ | ⟨first, second, hrepeat, hc⟩
  · rw [List.nil_append, List.map_map] at hkeys
    exact Or.inl ⟨hkeys, _, by rw [hc]; rfl⟩
  · obtain ⟨a, b, hrules, rfl, rfl⟩ := hrepeat.of_map
    exact Or.inr ⟨a, b, hrules, by rw [hc]; rfl⟩

/-- A composition whose names are free fails exactly if two extendable rules have the same camel
case, whatever accessors end with. It then names the first rule whose camel case an
earlier one has, that earlier one, and the accessor that both would have. -/
theorem compose_eq_error_iff_collision (hscan : Source.scan text path = .ok source)
    (hread : Directives.read source.header config.defaultBaseClass = .ok directives)
    (hfree : checkReserved (Classification.ofTable directives source.rules) source.rules.rules =
      .ok ()) (suffix : Text) :
    let rules := (Classification.ofTable directives source.rules).rulesOf .extendable
    let outcome := compose { config with accessorSuffix := suffix } names text path
    ((∃ e, outcome = .error e) ↔
        ∃ r ∈ rules, ∃ s ∈ rules, r ≠ s ∧
          Naming.camelCase r.bareName = Naming.camelCase s.bareName) ∧
      ∀ e, outcome = .error e ↔
        ∃ first second,
          FirstRepeat (fun rule => Naming.camelCase rule.bareName) rules first second ∧
          e = .accessorCollision first.bareName second.bareName
            (Naming.camelCase second.bareName ++ suffix) := by
  intro rules outcome
  have hkeys : (rules.map fun rule => Naming.camelCase rule.bareName).Nodup ↔
      ∀ r ∈ rules, ∀ s ∈ rules,
        Naming.camelCase r.bareName = Naming.camelCase s.bareName → r = s :=
    List.nodup_map_iff_inj_on nodup_bareNames_extendable.of_map
  rcases @compose_of_free_cases _ { config with accessorSuffix := suffix } names text path source
      directives hscan hread hfree with ⟨hnodup, comp, hok⟩ | ⟨first, second, hrepeat, herror⟩
  · have hno : ∀ e, outcome ≠ .error e := by
      intro e he
      cases hok.symm.trans he
    refine ⟨⟨fun ⟨e, he⟩ => absurd he (hno e), ?_⟩, fun e => ⟨fun he => absurd he (hno e), ?_⟩⟩
    · rintro ⟨r, hr, s, hs, hne, he⟩
      exact absurd (hkeys.1 hnodup r hr s hs he) hne
    · rintro ⟨first, second, hrepeat, -⟩
      exact absurd hnodup hrepeat.not_nodup
  · refine ⟨⟨fun _ => ?_, fun _ => ⟨_, herror⟩⟩, fun e => ⟨fun he => ?_, ?_⟩⟩
    · have hclash := hrepeat.not_nodup
      rw [hkeys] at hclash
      push Not at hclash
      obtain ⟨r, hr, s, hs, he, hne⟩ := hclash
      exact ⟨r, hr, s, hs, hne, he⟩
    · exact ⟨first, second, hrepeat, Except.error.inj (he.symm.trans herror)⟩
    · rintro ⟨first', second', hrepeat', rfl⟩
      obtain ⟨rfl, rfl⟩ := hrepeat'.unique hrepeat
      exact herror

end Engine

/-- A grammar whose last rule has the camel case of the first one. The private rule in between
has no accessor. -/
def collidingText : Text := "a_b ::= c\nprivate aB ::= 'x'\nc ::= 'y'\na__b ::= aB\n".toList

theorem compose_eq_error_iff_collision_colliding :
    ∃ source directives,
      Source.scan collidingText none = .ok source ∧
      Directives.read source.header ({} : Config).defaultBaseClass = .ok directives ∧
      checkReserved (Classification.ofTable directives source.rules) source.rules.rules = .ok () ∧
      compose { accessorSuffix := "Hook".toList } sampleNames collidingText none =
        .error (.accessorCollision "a_b".toList "a__b".toList "aBHook".toList) := by
  have hrun : (Source.scan collidingText none).toOption.any (fun source =>
      (Directives.read source.header ({} : Config).defaultBaseClass).toOption.any fun directives =>
        decide (checkReserved (Classification.ofTable directives source.rules) source.rules.rules =
            .ok () ∧
          (Classification.ofTable directives source.rules).rulesOf .extendable =
            [⟨"a_b".toList, "c".toList⟩, ⟨"c".toList, "'y'".toList⟩,
              ⟨"a__b".toList, "aB".toList⟩])) = true := by
    decide +kernel
  obtain ⟨source, directives, hscan, hread, hrun⟩ := exists_stages_of_any hrun
  obtain ⟨hfree, hrules⟩ := of_decide_eq_true hrun
  have hcollision := @compose_eq_error_iff_collision _ {} sampleNames _ _ _ _ hscan hread hfree
    "Hook".toList
  refine ⟨source, directives, hscan, hread, hfree, (hcollision.2 _).2 ?_⟩
  rw [hrules]
  exact ⟨⟨"a_b".toList, "c".toList⟩, ⟨"a__b".toList, "aB".toList⟩,
    ⟨⟨[⟨"a_b".toList, "c".toList⟩, ⟨"c".toList, "'y'".toList⟩], [], rfl, List.mem_cons_self,
      by decide⟩, by decide⟩, by decide⟩

end Composition
end OpenGrammar
