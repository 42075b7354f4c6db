import OpenGrammar.Proofs.DirectiveReading
import OpenGrammar.Proofs.GroupedPatterns

/-! Patterns that are to match whole texts. Such a pattern is written into a group between the marks of
the two ends of a text. Of the engine only a few laws of groups are needed: a pattern that does not
close that group itself is then compiled exactly if it is a pattern that does not end in a comment,
and it accepts the names that it matches as a whole. -/
namespace OpenGrammar
namespace PatternEngine

/-- The texts that are patterns. -/
def IsPattern [PatternEngine] (t : Text) : Prop := ∃ r : Pattern, compile t = .ok r

/-- The patterns that do not end in a comment: a parenthesis behind one of these is read, and closes
no group. -/
def IsFinished [PatternEngine] (t : Text) : Prop := IsPattern t ∧ ¬ IsPattern (t ++ [')'])

/-- The texts that are no patterns because of a fault of a kind. -/
def Faulty [PatternEngine] (kind : Fault → Prop) (t : Text) : Prop :=
  ∃ e : Fault, compile t = .error e ∧ kind e

/-- What an engine makes of groups and of the marks of the two ends of a text: `spans` tells which
parts of a text an expression matches, `unopened` are the faults of texts that close a group which
they do not open, and `tooLarge` those of patterns past the limits of the engine. -/
structure GroupLaws [PatternEngine] (spans : Pattern → Text → Nat → Nat → Prop)
    (unopened tooLarge : Fault → Prop) : Prop where
  /-- A text is searched for any part that matches. -/
  search : ∀ r t, isMatch r t = true ↔ ∃ i j, spans r t i j
  /-- A pattern matches the same in a group, if the end of the group is read. -/
  group : ∀ {p r}, compile p = .ok r → ¬ IsPattern (p ++ [')']) →
    Faulty tooLarge (grouped p) ∨
      ∃ g, compile (grouped p) = .ok g ∧ ∀ t i j, spans g t i j ↔ spans r t i j
  /-- The content of a group is a pattern, and the end of the group is read. -/
  inside : ∀ {p}, IsPattern (grouped p) → Faulty unopened p ∨ IsFinished p
  /-- Between the marks of the ends a group matches whole texts only. -/
  ends : ∀ {p g}, compile (grouped p) = .ok g →
    Faulty unopened p ∨ Faulty tooLarge (anchored p) ∨
      ∃ r, compile (anchored p) = .ok r ∧
        ∀ t i j, spans r t i j ↔ i = 0 ∧ j = t.length ∧ spans g t i j
  /-- What stands between the marks of the ends is a pattern. -/
  between : ∀ {p}, IsPattern (anchored p) → Faulty unopened p ∨ IsPattern (grouped p)

namespace GroupLaws

variable {engine : PatternEngine} {spans : Pattern → Text → Nat → Nat → Prop}
  {unopened tooLarge : Fault → Prop} {p : Text} {r : Pattern} {e : Fault}

/-- What is compiled is a pattern by itself, and matches whole texts only. -/
theorem of_compile_anchored (laws : GroupLaws spans unopened tooLarge) (hclosed : ¬ Faulty unopened p)
    (h : compile (anchored p) = .ok r) :
    IsFinished p ∧ ∃ s, compile p = .ok s ∧ ∀ t, isMatch r t = true ↔ spans s t 0 t.length := by
  have hgroup : IsPattern (grouped p) := (laws.between ⟨r, h⟩).resolve_left hclosed
  obtain ⟨g, hg⟩ := hgroup
  have hfinished : IsFinished p := (laws.inside ⟨g, hg⟩).resolve_left hclosed
  obtain ⟨⟨s, hs⟩, hparen⟩ := hfinished
  have hspans : ∀ t i j, spans g t i j ↔ spans s t i j := by
    rcases laws.group hs hparen with ⟨e, he, -⟩ | ⟨g', hg', hspans⟩
    · cases hg.symm.trans he
    · cases hg.symm.trans hg'
      exact hspans
  have hends : ∀ t i j, spans r t i j ↔ i = 0 ∧ j = t.length ∧ spans g t i j := by
    rcases (laws.ends hg).resolve_left hclosed with ⟨e, he, -⟩ | ⟨r', hr', hends⟩
    · cases h.symm.trans he
    · cases h.symm.trans hr'
      exact hends
  refine ⟨⟨⟨s, hs⟩, hparen⟩, s, hs, fun t => ?_⟩
  rw [laws.search]
  constructor
  · rintro ⟨i, j, hmatch⟩
    obtain ⟨rfl, rfl, hg⟩ := (hends t i j).1 hmatch
    exact (hspans t _ _).1 hg
  · intro hmatch
    exact ⟨0, t.length, (hends t _ _).2 ⟨rfl, rfl, (hspans t _ _).2 hmatch⟩⟩

theorem of_compile_anchored_error (laws : GroupLaws spans unopened tooLarge)
    (hclosed : ¬ Faulty unopened p) (h : compile (anchored p) = .error e) :
    ¬ IsFinished p ∨ Faulty tooLarge (grouped p) ∨ tooLarge e := by
  by_cases hfinished : IsFinished p
  · obtain ⟨⟨s, hs⟩, hparen⟩ := hfinished
    rcases laws.group hs hparen with hlarge | ⟨g, hg, -⟩
    · exact .inr (.inl hlarge)
    · rcases (laws.ends hg).resolve_left hclosed with ⟨e', he', hlarge⟩ | ⟨r, hr, -⟩
      · cases h.symm.trans he'
        exact .inr (.inr hlarge)
      · cases h.symm.trans hr
  · exact .inl hfinished

end GroupLaws
end PatternEngine

/-! The laws of groups for regular expressions -/

namespace Regex

open PatternEngine (IsPattern IsFinished Faulty GroupLaws grouped anchored)

variable {p : Text} {r : Regex} {t : Text} {i j : Nat}

def spans (r : Regex) (t : Text) (i j : Nat) : Prop := j ≤ t.length ∧ Matches t r i j

theorem compile_eq_ok_iff : PatternEngine.compile p = .ok r ↔ parse? p = some r := by
  cases h : parse? p <;> simp [PatternEngine.compile, h]

theorem isPattern_iff : IsPattern p ↔ (parse? p).isSome = true :=
  (exists_congr fun _ => compile_eq_ok_iff).trans Option.isSome_iff_exists.symm

instance decidableIsPattern : DecidablePred fun p => IsPattern p :=
  fun _ => decidable_of_iff _ isPattern_iff.symm

instance decidableIsFinished : DecidablePred fun p => IsFinished p :=
  fun _ => inferInstanceAs (Decidable (_ ∧ _))

theorem faulty_unopenedGroup_iff : Faulty (· = Fault.unopenedGroup) p ↔ straysOut p = true := by
  cases h : parse? p with
  | some r =>
    have hstray : straysOut p ≠ true := fun hstray => by simp [parse?_of_straysOut hstray] at h
    simp [Faulty, PatternEngine.compile, h, hstray]
  | none => simp [Faulty, PatternEngine.compile, h]

theorem spans_seq_empty : spans (.seq r .empty) t i j ↔ spans r t i j := by
  simp [spans, Matches]

theorem spans_whole : spans (whole r) t i j ↔ i = 0 ∧ j = t.length ∧ spans r t i j := by
  constructor
  · rintro ⟨hj, k, ⟨hstart, rfl⟩, l, hmatch, m, ⟨hend, rfl⟩, rfl⟩
    have hle := holdsAt_endText.1 hend
    have hbound := hmatch.bounded
    obtain rfl := (holdsAt_startText (by omega)).1 hstart
    exact ⟨rfl, by omega, hj, hmatch⟩
  · rintro ⟨rfl, rfl, hj, hmatch⟩
    exact ⟨hj, 0, ⟨(holdsAt_startText (Nat.zero_le _)).2 rfl, rfl⟩, t.length, hmatch, t.length,
      ⟨holdsAt_endText.2 (Nat.le_refl _), rfl⟩, rfl⟩

theorem ite_parse?_eq_some_iff {finish : Regex → Regex} :
    (if (parse? (p ++ [')'])).isSome then none else (parse? p).map finish) = some r ↔
      IsFinished p ∧ ∃ s, parse? p = some s ∧ r = finish s := by
  rw [IsFinished, isPattern_iff, isPattern_iff]
  split
  · rename_i hparen
    simp [hparen]
  · rename_i hparen
    cases hp : parse? p with
    | none => simp
    | some s => simp [hparen, eq_comm]

theorem parse?_grouped_eq_some_iff (h : straysOut p = false) : parse? (grouped p) = some r ↔
    IsFinished p ∧ ∃ s, parse? p = some s ∧ r = .seq s .empty := by
  rw [parse?_grouped h]
  exact ite_parse?_eq_some_iff

theorem parse?_anchored_eq_some_iff (h : straysOut p = false) : parse? (anchored p) = some r ↔
    IsFinished p ∧ ∃ s, parse? p = some s ∧ r = whole s := by
  rw [parse?_anchored h]
  exact ite_parse?_eq_some_iff

theorem groupLaws : GroupLaws spans (· = Fault.unopenedGroup) fun _ => False where
  search r t := by
    refine isMatch_iff.trans ⟨fun ⟨i, hi, j, hmatch⟩ => ⟨i, j, ?_, hmatch⟩, fun ⟨i, j, hj, hmatch⟩ => ?_⟩
    · have := hmatch.bounded
      omega
    · have := hmatch.bounded
      exact ⟨i, by omega, j, hmatch⟩
  group {p r} h hparen := by
    have hr := compile_eq_ok_iff.1 h
    have hclosed : straysOut p = false := by
      by_contra hstray
      rw [parse?_of_straysOut (by simpa using hstray)] at hr
      cases hr
    refine .inr ⟨.seq r .empty, compile_eq_ok_iff.2 ?_, fun t i j => spans_seq_empty⟩
    exact (parse?_grouped_eq_some_iff hclosed).2 ⟨⟨⟨r, h⟩, hparen⟩, r, hr, rfl⟩
  inside {p} h := by
    rw [faulty_unopenedGroup_iff]
    cases hclosed : straysOut p with
    | true => exact .inl rfl
    | false =>
      obtain ⟨g, hg⟩ := h
      exact .inr ((parse?_grouped_eq_some_iff hclosed).1 (compile_eq_ok_iff.1 hg)).1
  ends {p g} h := by
    rw [faulty_unopenedGroup_iff]
    cases hclosed : straysOut p with
    | true => exact .inl rfl
    | false =>
      obtain ⟨hfinished, s, hs, rfl⟩ := (parse?_grouped_eq_some_iff hclosed).1 (compile_eq_ok_iff.1 h)
      refine .inr (.inr ⟨whole s, compile_eq_ok_iff.2 ?_, fun t i j => ?_⟩)
      · exact (parse?_anchored_eq_some_iff hclosed).2 ⟨hfinished, s, hs, rfl⟩
      · exact spans_whole.trans (by rw [spans_seq_empty])
  between {p} h := by
    rw [faulty_unopenedGroup_iff]
    cases hclosed : straysOut p with
    | true => exact .inl rfl
    | false =>
      obtain ⟨r, hr⟩ := h
      obtain ⟨hfinished, s, hs, -⟩ := (parse?_anchored_eq_some_iff hclosed).1 (compile_eq_ok_iff.1 hr)
      have hg := (parse?_grouped_eq_some_iff hclosed).2 ⟨hfinished, s, hs, rfl⟩
      exact .inr ⟨_, compile_eq_ok_iff.2 hg⟩

end Regex

namespace Directives

open PatternEngine
open Text (findAll)

/-- A compiled pattern that accepts exactly the names that its text matches as a whole. -/
def AcceptsWhole [PatternEngine] (spans : Pattern → Text → Nat → Nat → Prop) (p : SubclassPattern) :
    Prop :=
  ∃ r, compile p.pattern = .ok r ∧ ∀ name, p.accepts name = true ↔ spans r name 0 name.length

/-- With an engine that keeps the laws of groups, each pattern that does not close a group too much is
compiled exactly if it is a pattern that does not end in a comment, as far as the limits of the
engine go, and then it accepts the names that it matches as a whole. The reading of a header stops
at the first directive whose text is not compiled, with the text of that directive and the fault. -/
theorem compilePatterns_whole {engine : PatternEngine} {spans : Pattern → Text → Nat → Nat → Prop}
    {unopened tooLarge : Fault → Prop} (laws : GroupLaws spans unopened tooLarge)
    (hits : List ((Text × Text) × Text)) :
    (∀ patterns, compilePatterns hits = .ok patterns →
      List.Forall₂ (fun hit p => CompiledFrom hit p ∧
        (¬ Faulty unopened hit.1.1 → IsFinished hit.1.1 ∧ AcceptsWhole spans p)) hits patterns) ∧
    (∀ e, compilePatterns hits = .error e → ∃ front hit back fault, hits = front ++ hit :: back ∧
      (∀ other ∈ front, ¬ Faulty unopened other.1.1 → IsFinished other.1.1) ∧
      (¬ Faulty unopened hit.1.1 →
        ¬ IsFinished hit.1.1 ∨ Faulty tooLarge (grouped hit.1.1) ∨ tooLarge fault) ∧
      compile (anchored hit.1.1) = .error fault ∧ e = .invalidPattern hit.2 (describe fault)) ∧
    ∀ header default, hits = findAll extends? (header.getD []) →
      ∀ e, read header default = .error e ↔ compilePatterns hits = .error e := by
  refine ⟨fun patterns h => ?_, fun e h => ?_, ?_⟩
  · refine (compiledFrom_of_compilePatterns h).imp fun hit p hp => ⟨hp, fun hclosed => ?_⟩
    obtain ⟨hfinished, s, hs, hwhole⟩ := laws.of_compile_anchored hclosed hp.compile_eq
    exact ⟨hfinished, s, hp.pattern ▸ hs, hwhole⟩
  · obtain ⟨front, hit, back, fault, hsplit, hfront, hfault, he⟩ := compilePatterns_eq_error_iff.1 h
    refine ⟨front, hit, back, fault, hsplit, fun other hother hclosed => ?_, fun hclosed => ?_, hfault,
      he⟩
    · obtain ⟨r, hr⟩ := hfront other hother
      exact (laws.of_compile_anchored hclosed hr).1
    · exact laws.of_compile_anchored_error hclosed hfault
  · rintro header default rfl e
    exact read_eq_error_iff

def stmtHit : (Text × Text) × Text :=
  ((".*_stmt|[)]".toList, "stmt".toList), "extends(\".*_stmt|[)]\")=stmt".toList)

theorem compilePatterns_whole_stmt :
    GroupLaws Regex.spans (· = Regex.Fault.unopenedGroup) (fun _ => False) ∧
      ¬ Faulty (· = Regex.Fault.unopenedGroup) stmtHit.1.1 ∧ IsFinished stmtHit.1.1 ∧
      ∃ p, compilePatterns [stmtHit] = .ok [p] ∧ AcceptsWhole Regex.spans p := by
  have hclosed : ¬ Faulty (· = Regex.Fault.unopenedGroup) stmtHit.1.1 := by
    rw [Regex.faulty_unopenedGroup_iff]
    decide +kernel
  have hfinished : IsFinished stmtHit.1.1 := by decide +kernel
  obtain ⟨hok, herror, -⟩ := compilePatterns_whole Regex.groupLaws [stmtHit]
  refine ⟨Regex.groupLaws, hclosed, hfinished, ?_⟩
  cases h : compilePatterns [stmtHit] with
  | error e =>
    obtain ⟨front, hit, back, fault, hsplit, -, hrefused, -⟩ := herror e h
    obtain ⟨rfl, rfl, rfl⟩ : front = [] ∧ hit = stmtHit ∧ back = [] := by
      cases front with
      | nil => simpa [eq_comm] using hsplit
      | cons first front => simp at hsplit
    rcases hrefused hclosed with hrefused | ⟨_, _, hlarge⟩ | hlarge
    · exact absurd hfinished hrefused
    · exact hlarge.elim
    · exact hlarge.elim
  | ok patterns =>
    cases hok patterns h with
    | cons hp hrest =>
      cases hrest
      exact ⟨_, rfl, (hp.2 hclosed).2⟩

/-- Texts that close a group too much can be accepted, and can accept a part of a name; a pattern that
ends in a comment is refused. -/
theorem compilePatterns_pasted :
    (¬ IsPattern "a)(b".toList ∧
      ((read (some "\x7b extends(\"a)(b\")=stmt \x7d".toList) []).toOption.map
        fun directives => directives.fixes "ab".toList) = some true) ∧
    (¬ IsPattern "a)|(b".toList ∧
      ((read (some "\x7b extends(\"a)|(b\")=stmt \x7d".toList) []).toOption.map
        fun directives => directives.fixes "ax".toList) = some true) ∧
    (IsPattern "(?x)a#b".toList ∧
      read (some "\x7b extends(\"(?x)a#b\")=stmt \x7d".toList) [] =
        .error (.invalidPattern "extends(\"(?x)a#b\")=stmt".toList (describe .malformed))) := by
  refine ⟨⟨by decide +kernel, by decide +kernel⟩, ⟨by decide +kernel, by decide +kernel⟩,
    by decide +kernel, ?_⟩
  have hits : findAll extends? "\x7b extends(\"(?x)a#b\")=stmt \x7d".toList =
      [(("(?x)a#b".toList, "stmt".toList), "extends(\"(?x)a#b\")=stmt".toList)] := by
    decide +kernel
  have hrefused : compile (anchored "(?x)a#b".toList) = .error .malformed := by rfl
  rw [read_eq_error_iff, Option.getD_some, hits]
  exact compilePatterns_cons_of_error hrefused

end Directives
end OpenGrammar
