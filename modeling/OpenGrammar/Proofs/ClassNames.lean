import Mathlib.Data.List.Basic
import OpenGrammar.ClassName
import OpenGrammar.Proofs.Segments

/-! Class names that are read from dotted names. No segment of the package starts with an upper
case letter, and of several simple names the first does, so that a dotted name tells the package
from the class. -/
namespace OpenGrammar
namespace ClassName

open Text

def Proper (segments : List Text) : Prop := ∀ s ∈ segments, s ≠ [] ∧ '.' ∉ s

/-- The class name with the given segments, from the outermost package to the innermost class. -/
def ofSegments (segments : List Text) : ClassName :=
  ⟨join ['.'] (segments.take (packageLength segments)), segments.drop (packageLength segments)⟩

theorem ofDotted_eq (dotted : Text) : ofDotted dotted = ofSegments (dotSegments dotted) := rfl

theorem proper_dotSegments (dotted : Text) : Proper (dotSegments dotted) :=
  fun _ => of_mem_dotSegments

/-- A class name that is read from some dotted name. -/
def IsRead (c : ClassName) : Prop := ∃ dotted, c = ofDotted dotted

theorem isRead_iff {c : ClassName} : c.IsRead ↔ ∃ segments, Proper segments ∧ c = ofSegments segments := by
  constructor
  · rintro ⟨dotted, rfl⟩
    exact ⟨dotSegments dotted, proper_dotSegments dotted, rfl⟩
  · rintro ⟨segments, hproper, rfl⟩
    exact ⟨join ['.'] segments, by rw [ofDotted_eq, dotSegments_join hproper]⟩

section Segments

variable {segments others : List Text}

theorem join_injective (hs : Proper segments) (ho : Proper others)
    (h : join ['.'] segments = join ['.'] others) : segments = others := by
  rw [← dotSegments_join hs, h, dotSegments_join ho]

theorem join_eq_nil_iff (hs : Proper segments) : join ['.'] segments = [] ↔ segments = [] := by
  constructor
  · intro h
    exact join_injective hs (fun _ hmem => nomatch hmem) h
  · rintro rfl
    rfl

theorem Proper.take (hs : Proper segments) (n : Nat) : Proper (segments.take n) :=
  fun s hmem => hs s (List.mem_of_mem_take hmem)

theorem Proper.drop (hs : Proper segments) (n : Nat) : Proper (segments.drop n) :=
  fun s hmem => hs s (List.mem_of_mem_drop hmem)

theorem packageLength_lt (h : segments ≠ []) : packageLength segments < segments.length := by
  have hpos := List.length_pos_iff.2 h
  unfold packageLength
  cases hf : segments.findIdx? startsUppercase with
  | none =>
    rw [Option.getD_none]
    omega
  | some n => exact (List.findIdx?_eq_some_iff_getElem.1 hf).1

/-- No segment of the package starts with an upper case letter. -/
theorem startsUppercase_of_mem_package {s : Text}
    (h : s ∈ segments.take (packageLength segments)) : startsUppercase s = false := by
  unfold packageLength at h
  cases hf : segments.findIdx? startsUppercase with
  | none => exact List.findIdx?_eq_none_iff.1 hf s (List.mem_of_mem_take h)
  | some n =>
    rw [hf, Option.getD_some] at h
    obtain ⟨hlt, -, hbefore⟩ := List.findIdx?_eq_some_iff_getElem.1 hf
    obtain ⟨i, hi, hs⟩ := List.mem_take_iff_getElem.1 h
    rw [← hs]
    simpa using hbefore i (by omega)

theorem startsUppercase_of_nested {s next : Text} {more : List Text}
    (h : segments.drop (packageLength segments) = s :: next :: more) :
    startsUppercase s = true := by
  have hlen := congrArg List.length h
  simp only [List.length_drop, List.length_cons] at hlen
  cases hf : segments.findIdx? startsUppercase with
  | none =>
    -- all but the last segment would be the package
    rw [packageLength, hf, Option.getD_none] at hlen
    omega
  | some n =>
    obtain ⟨hlt, hupper, -⟩ := List.findIdx?_eq_some_iff_getElem.1 hf
    rw [packageLength, hf, Option.getD_some, List.drop_eq_getElem_cons hlt] at h
    rw [← (List.cons.inj h).1]
    exact hupper

/-- Behind a package comes a top-level class, however its name starts. -/
theorem ofSegments_concat (h : ∀ s ∈ segments, startsUppercase s = false) (last : Text) :
    ofSegments (segments ++ [last]) = ⟨join ['.'] segments, [last]⟩ := by
  have hnone : segments.findIdx? startsUppercase = none := List.findIdx?_eq_none_iff.2 h
  have hlen : packageLength (segments ++ [last]) = segments.length := by
    rw [packageLength, List.findIdx?_append, hnone]
    by_cases hlast : startsUppercase last = true <;> simp [List.findIdx?_cons, hlast]
  rw [ofSegments, hlen, List.take_left, List.drop_left]

theorem display_ofSegments (hs : Proper segments) :
    (ofSegments segments).display = join ['.'] segments := by
  by_cases hnil : segments = []
  · rw [hnil]
    rfl
  by_cases hpackage : segments.take (packageLength segments) = []
  · have hall : segments.drop (packageLength segments) = segments := by
      have happ := List.take_append_drop (packageLength segments) segments
      rwa [hpackage, List.nil_append] at happ
    simp [display, ofSegments, relativeName, hpackage, hall, Text.join]
  · have hdrop : segments.drop (packageLength segments) ≠ [] := by
      have hlt := packageLength_lt hnil
      simp only [ne_eq, List.drop_eq_nil_iff]
      omega
    have hne : (join ['.'] (segments.take (packageLength segments))).isEmpty = false := by
      rw [List.isEmpty_eq_false_iff, Ne, join_eq_nil_iff (hs.take _)]
      exact hpackage
    have happ : join ['.'] (segments.take (packageLength segments) ++
        segments.drop (packageLength segments)) = _ := join_append hpackage hdrop
    rw [List.take_append_drop] at happ
    rw [happ]
    simp [display, ofSegments, relativeName, hne]

end Segments

variable {c d : ClassName}

/-- Classes that are written the same in full are the same. -/
theorem IsRead.eq_of_display_eq (hc : c.IsRead) (hd : d.IsRead) (h : c.display = d.display) :
    c = d := by
  obtain ⟨segments, hs, rfl⟩ := isRead_iff.1 hc
  obtain ⟨others, ho, rfl⟩ := isRead_iff.1 hd
  rw [display_ofSegments hs, display_ofSegments ho] at h
  rw [join_injective hs ho h]

theorem IsRead.proper (hc : c.IsRead) : Proper c.simpleNames := by
  obtain ⟨segments, hs, rfl⟩ := isRead_iff.1 hc
  exact hs.drop _

theorem IsRead.simpleNames_eq (hc : c.IsRead) (hd : d.IsRead)
    (h : c.relativeName = d.relativeName) : c.simpleNames = d.simpleNames :=
  join_injective hc.proper hd.proper h

/-- Only a class of the default package is written in full like a class without its package. -/
theorem IsRead.package_eq_nil (hc : c.IsRead) (hd : d.IsRead) (h : c.relativeName = d.display) :
    d.package = [] := by
  obtain ⟨segments, hs, rfl⟩ := isRead_iff.1 hc
  obtain ⟨others, ho, rfl⟩ := isRead_iff.1 hd
  rw [display_ofSegments ho] at h
  have heq : segments.drop (packageLength segments) = others := join_injective (hs.drop _) ho h
  cases others with
  | nil => rfl
  | cons first rest =>
    cases hn : packageLength (first :: rest) with
    | zero => simp [ofSegments, hn, Text.join]
    | succ n =>
      -- the first segment would be part of a package and the outermost of several classes
      exfalso
      have hlower : startsUppercase first = false := by
        have hmem : first ∈ (first :: rest).take (packageLength (first :: rest)) := by
          rw [hn, List.take_succ_cons]
          exact List.mem_cons_self
        exact startsUppercase_of_mem_package hmem
      have hlt : packageLength (first :: rest) < (first :: rest).length := packageLength_lt (by simp)
      cases rest with
      | nil =>
        rw [hn] at hlt
        simp at hlt
      | cons next more =>
        rw [startsUppercase_of_nested heq] at hlower
        cases hlower

theorem IsRead.withSuffix (hc : c.IsRead) {suffix : Text} (hne : suffix ≠ []) (hdot : '.' ∉ suffix) :
    (c.withSuffix suffix).IsRead := by
  obtain ⟨segments, hs, rfl⟩ := isRead_iff.1 hc
  have hsimple : '.' ∉ (ofSegments segments).simpleName := by
    unfold simpleName
    cases hlast : (ofSegments segments).simpleNames.getLast? with
    | none => simp
    | some last => exact (hs.drop _ last (List.mem_of_getLast? hlast)).2
  refine isRead_iff.2 ⟨segments.take (packageLength segments) ++
    [(ofSegments segments).simpleName ++ suffix], ?_, ?_⟩
  · intro s hmem
    rcases List.mem_append.1 hmem with hmem | hmem
    · exact hs.take _ s hmem
    · rw [List.mem_singleton.1 hmem]
      exact ⟨by simp [hne], by simp [hsimple, hdot]⟩
  · rw [ofSegments_concat fun _ => startsUppercase_of_mem_package]
    rfl

end ClassName
end OpenGrammar
