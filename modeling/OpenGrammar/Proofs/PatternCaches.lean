import Mathlib.Data.Finset.Card
import Mathlib.Data.List.DropRight
import OpenGrammar.Regex.Parser

/-! Patterns that are kept. Whatever the engine, a cache answers as if each text were compiled
anew, faults included, and it holds exactly the patterns that were asked for since it was last
emptied, each once. -/
namespace OpenGrammar

open PatternEngine (Pattern Fault compile)

namespace CacheRequest

def text? : CacheRequest → Option Text
  | .plain pattern => some pattern
  | .anchored pattern => some (PatternEngine.anchored pattern)
  | .clear => none

/-- What a request gets when nothing is kept. -/
def fresh [PatternEngine] (request : CacheRequest) : Option (Except Fault Pattern) :=
  request.text?.map compile

/-- The texts that were asked for since the cache was last emptied, in order. -/
def textsSinceClear (requests : List CacheRequest) : List Text :=
  (requests.rtakeWhile (· != .clear)).filterMap text?

/-- Those of the texts that are patterns. -/
def patternsSinceClear [PatternEngine] (requests : List CacheRequest) : Finset Text :=
  ((textsSinceClear requests).filter fun text => (compile text).isOk).toFinset

@[simp] theorem textsSinceClear_concat_clear (requests : List CacheRequest) :
    textsSinceClear (requests ++ [.clear]) = [] := by
  simp [textsSinceClear]

theorem textsSinceClear_concat {request : CacheRequest} {text : Text}
    (h : request.text? = some text) (requests : List CacheRequest) :
    textsSinceClear (requests ++ [request]) = textsSinceClear requests ++ [text] := by
  have hne : request ≠ .clear := by
    rintro rfl
    cases h
  simp [textsSinceClear, hne, h]

end CacheRequest

namespace PatternCache

open CacheRequest

section Engine

variable {engine : PatternEngine} {cache : PatternCache} {texts : List Text} {text : Text}
  {request : CacheRequest}

/-- A cache that holds the patterns among some texts, each once, and nothing else. -/
structure Keeps (cache : PatternCache) (texts : List Text) : Prop where
  nodup : (cache.entries.map Prod.fst).Nodup
  get?_eq : ∀ text, cache.get? text = if text ∈ texts then (compile text).toOption else none

theorem keeps_empty : Keeps ({} : PatternCache) [] := ⟨List.nodup_nil, fun _ => rfl⟩

theorem get?_eq_none_iff : cache.get? text = none ↔ text ∉ cache.entries.map Prod.fst := by
  simp only [get?, List.lookup_eq_none_iff, List.mem_map, not_exists, not_and]
  constructor
  · intro h entry hentry heq
    simpa [heq] using h entry hentry
  · intro h entry hentry
    simpa using fun heq : text = entry.1 => h entry hentry heq.symm

theorem get?_cons (r : Pattern) (other : Text) :
    PatternCache.get? ⟨(text, r) :: cache.entries⟩ other =
      if other = text then some r else cache.get? other := by
  simp only [get?, List.lookup_cons]
  by_cases heq : other = text
  · simp [heq]
  · simp [heq, beq_eq_false_iff_ne.2 heq]

theorem Keeps.compile_of_get? {r : Pattern} (h : cache.Keeps texts) (hget : cache.get? text = some r) :
    text ∈ texts ∧ compile text = .ok r := by
  rw [h.get?_eq] at hget
  split at hget
  · rename_i hmem
    cases hc : compile text with
    | error e =>
      rw [hc] at hget
      cases hget
    | ok s =>
      rw [hc] at hget
      cases hget
      exact ⟨hmem, rfl⟩
  · cases hget

theorem Keeps.fetch_fst (h : cache.Keeps texts) (text : Text) :
    (cache.fetch text).1 = compile text := by
  rw [PatternCache.fetch]
  cases hget : cache.get? text with
  | some r => exact (h.compile_of_get? hget).2.symm
  | none => cases compile text <;> rfl

theorem Keeps.fetch_snd (h : cache.Keeps texts) (text : Text) :
    (cache.fetch text).2.Keeps (texts ++ [text]) := by
  have hmem : ∀ other, other ∈ texts ++ [text] ↔ other ∈ texts ∨ other = text := by simp
  rw [PatternCache.fetch]
  cases hget : cache.get? text with
  | some r =>
    refine ⟨h.nodup, fun other => ?_⟩
    have hsame : other ∈ texts ++ [text] ↔ other ∈ texts := by
      rw [hmem]
      exact or_iff_left_of_imp fun heq => heq ▸ (h.compile_of_get? hget).1
    simp only [h.get?_eq, hsame]
  | none =>
    cases hc : compile text with
    | error e =>
      refine ⟨h.nodup, fun other => ?_⟩
      rw [h.get?_eq]
      by_cases heq : other = text
      · simp [heq, hc, Except.toOption]
      · simp [heq]
    | ok r =>
      refine ⟨?_, fun other => ?_⟩
      · rw [List.map_cons, List.nodup_cons]
        exact ⟨get?_eq_none_iff.1 hget, h.nodup⟩
      · rw [get?_cons, h.get?_eq]
        by_cases heq : other = text
        · simp [heq, hc, Except.toOption]
        · simp [heq]

theorem Keeps.size_eq (h : cache.Keeps texts) :
    cache.size = (texts.filter fun text => (compile text).isOk).toFinset.card := by
  have hkeys : (cache.entries.map Prod.fst).toFinset =
      (texts.filter fun text => (compile text).isOk).toFinset := by
    ext text
    have hheld : text ∈ cache.entries.map Prod.fst ↔ (cache.get? text).isSome = true := by
      rw [Option.isSome_iff_ne_none, Ne, get?_eq_none_iff, not_not]
    rw [List.mem_toFinset, List.mem_toFinset, hheld, h.get?_eq, List.mem_filter]
    by_cases hmem : text ∈ texts
    · cases compile text <;> simp [hmem, Except.isOk, Except.toBool, Except.toOption]
    · simp [hmem]
  rw [← hkeys, List.toFinset_card_of_nodup h.nodup, List.length_map, size]

/-! Requests, one after the other -/

theorem perform_of_text? (h : request.text? = some text) :
    cache.perform request = (some (cache.fetch text).1, (cache.fetch text).2) := by
  cases request with
  | plain pattern => cases h; rfl
  | anchored pattern => cases h; rfl
  | clear => cases h

theorem Keeps.perform_fst (h : cache.Keeps texts) (request : CacheRequest) :
    (cache.perform request).1 = request.fresh := by
  cases htext : request.text? with
  | some text => rw [perform_of_text? htext, h.fetch_fst, fresh, htext, Option.map_some]
  | none =>
    cases request with
    | plain pattern => cases htext
    | anchored pattern => cases htext
    | clear => rfl

theorem Keeps.perform_snd {requests : List CacheRequest} (h : cache.Keeps (textsSinceClear requests))
    (request : CacheRequest) :
    (cache.perform request).2.Keeps (textsSinceClear (requests ++ [request])) := by
  cases htext : request.text? with
  | some text =>
    rw [perform_of_text? htext, textsSinceClear_concat htext]
    exact h.fetch_snd text
  | none =>
    cases request with
    | plain pattern => cases htext
    | anchored pattern => cases htext
    | clear =>
      rw [textsSinceClear_concat_clear]
      exact keeps_empty

theorem run_concat (cache : PatternCache) (requests : List CacheRequest) (request : CacheRequest) :
    cache.run (requests ++ [request]) =
      ((cache.run requests).1 ++ [((cache.run requests).2.perform request).1],
        ((cache.run requests).2.perform request).2) := by
  induction requests generalizing cache with
  | nil => rfl
  | cons first requests ih => simp only [List.cons_append, run, ih]

theorem keeps_run (requests : List CacheRequest) :
    (run ({} : PatternCache) requests).2.Keeps (textsSinceClear requests) := by
  induction requests using List.reverseRecOn with
  | nil => exact keeps_empty
  | append_singleton requests request ih =>
    rw [run_concat]
    exact ih.perform_snd request

theorem answers_run (requests : List CacheRequest) :
    (run ({} : PatternCache) requests).1 = requests.map fresh := by
  induction requests using List.reverseRecOn with
  | nil => rfl
  | append_singleton requests request ih =>
    rw [run_concat, ih, (keeps_run requests).perform_fst, List.map_append, List.map_singleton]

/-- A text that is no pattern leaves every cache as it is. -/
theorem perform_of_error {e : Fault} (htext : request.text? = some text)
    (h : compile text = .error e) : (cache.perform request).2 = cache := by
  rw [perform_of_text? htext, fetch]
  cases cache.get? text with
  | some r => rfl
  | none => rw [h]

/-- A cache cannot be told from compiling each text anew, but for its size: it counts the
different patterns that were asked for since it was last emptied. -/
theorem transparent_run (requests : List CacheRequest) :
    (run ({} : PatternCache) requests).1 = requests.map fresh ∧
      (run ({} : PatternCache) requests).2.size = (patternsSinceClear requests).card ∧
      ∀ (cache : PatternCache) request text e, request.text? = some text →
        compile text = .error e → (cache.perform request).2 = cache :=
  ⟨answers_run requests, (keeps_run requests).size_eq,
    fun _ _ _ _ htext h => perform_of_error htext h⟩

end Engine

def mixedRequests : List CacheRequest :=
  [.plain "b".toList, .clear, .plain "^(?:a)$".toList, .anchored "a".toList, .plain "[".toList]

theorem transparent_run_mixed :
    compile "[".toList = .error .malformed ∧ (patternsSinceClear mixedRequests).card = 1 ∧
      (run ({} : PatternCache) mixedRequests).2.size = 1 ∧
      (run ({} : PatternCache) mixedRequests).1.getLast? = some (some (.error .malformed)) ∧
      ((run ({} : PatternCache) mixedRequests).2.perform (.plain "[".toList)).2 =
        (run ({} : PatternCache) mixedRequests).2 := by
  have hbad : compile "[".toList = .error .malformed := by rfl
  have hcard : (patternsSinceClear mixedRequests).card = 1 := by decide +kernel
  obtain ⟨hanswers, hsize, hkept⟩ := transparent_run mixedRequests
  refine ⟨hbad, hcard, hsize.trans hcard, ?_, hkept _ (.plain "[".toList) "[".toList _ rfl hbad⟩
  rw [hanswers]
  rfl

end PatternCache
end OpenGrammar
