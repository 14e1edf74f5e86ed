import ApiContract.Handler.Analysis
import ApiContract.Proofs.Table
import Mathlib.Data.List.Dedup

namespace ApiContract.AnalysisCache

variable (a : Analyzer)

def getAll (cache : AnalysisCache) : List String → List (Except Failure Analysis) × AnalysisCache
  | [] => ([], cache)
  | name :: rest =>
    let (outcome, cache) := cache.get a name
    let (outcomes, cache) := getAll cache rest
    (outcome :: outcomes, cache)

theorem get_fresh (name : String) : (({} : AnalysisCache).get a name).1 = a.analyze name := rfl

/-- A cache after requests for these names: it has the outcome of each, and has made one analysis
for each of those that are different. -/
structure After (requested : List String) (cache : AnalysisCache) : Prop where
  outcome :
      ∀ name, cache.outcomes.get? name = if name ∈ requested then some (a.analyze name) else none
  size : cache.size = requested.dedup.length

variable {a}

theorem After.fresh : After a [] {} := ⟨fun _ => rfl, rfl⟩

theorem After.get {requested : List String} {cache : AnalysisCache} (h : After a requested cache)
    (name : String) :
    (cache.get a name).1 = a.analyze name ∧ After a (name :: requested) (cache.get a name).2 := by
  by_cases hm : name ∈ requested
  · have hknown : cache.outcomes.get? name = some (a.analyze name) := by rw [h.outcome, if_pos hm]
    rw [AnalysisCache.get, hknown]
    refine ⟨rfl, ?_, ?_⟩
    · intro other
      rw [h.outcome]
      by_cases ho : other = name
      · simp [ho, hm]
      · simp [ho]
    · rw [List.dedup_cons_of_mem hm, h.size]
  · have hnew : cache.outcomes.get? name = none := by rw [h.outcome, if_neg hm]
    rw [AnalysisCache.get, hnew]
    refine ⟨rfl, ?_, ?_⟩
    · intro other
      rw [Table.get?_insert, h.outcome]
      by_cases ho : other = name
      · simp [ho]
      · simp [ho]
    · rw [List.dedup_cons_of_notMem hm, List.length_cons, ← h.size]

theorem After.getAll {requested : List String} {cache : AnalysisCache} (h : After a requested cache)
    (names : List String) :
    (cache.getAll a names).1 = names.map a.analyze ∧
      After a (names.reverse ++ requested) (cache.getAll a names).2 := by
  induction names generalizing requested cache with
  | nil => exact ⟨rfl, h⟩
  | cons name rest ih =>
    obtain ⟨hfirst, hafter⟩ := h.get name
    obtain ⟨houtcomes, hrest⟩ := ih hafter
    rw [List.reverse_cons, List.append_assoc]
    exact ⟨congrArg₂ List.cons hfirst houtcomes, hrest⟩

variable (a)

/-- Each request of a run is answered as by a fresh cache, and in all there are as many analyses as
different names, those included whose analysis fails. -/
theorem getAll_transparent (names : List String) : (({} : AnalysisCache).getAll a names).1 =
      names.map (fun name => (({} : AnalysisCache).get a name).1) ∧
    (({} : AnalysisCache).getAll a names).2.size = names.dedup.length := by
  have hfresh : After a [] {} := .fresh
  obtain ⟨houtcomes, hafter⟩ := hfresh.getAll names
  constructor
  · rw [houtcomes]
    exact List.map_congr_left fun name _ => (get_fresh a name).symm
  · have hperm : names.reverse.dedup.Perm names.dedup := (List.reverse_perm names).dedup
    rw [hafter.size, List.append_nil, hperm.length_eq]

end ApiContract.AnalysisCache
