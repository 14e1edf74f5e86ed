import ApiContract.Proofs.MissingSources

namespace ApiContract

namespace Failure

def unused? : Failure → Option String
  | unusedOverride identity => some identity
  | _ => none

def unused (failures : List Failure) : List String := failures.filterMap unused?

theorem unused_append (failures more : List Failure) :
    unused (failures ++ more) = unused failures ++ unused more :=
  List.filterMap_append

theorem unused_eq_nil {failures : List Failure} (h : ∀ f ∈ failures, f.unused? = none) :
    unused failures = [] :=
  List.filterMap_eq_nil_iff.mpr h

end Failure

namespace Assembler

variable (a : Assembler)

theorem isSource_of_mem_handlerFailures (route : Route) {f : Failure}
    (h : f ∈ a.handlerFailures route) : f.IsSource := by
  unfold handlerFailures at h
  split at h
  · exact (a.failsWith_lookupHandler _).of_mem h
  · cases h

theorem failsWith_requestOutcome (e : Endpoint) :
    FailsWith Failure.IsSource (a.requestOutcome e) := by
  unfold requestOutcome
  split
  · exact .ok _
  · exact a.failsWith_lookupRules _
  split
  · exact a.failsWith_lookupRules _
  · exact .ok _

theorem mem_responseFailures {e : Endpoint} {f : Failure} (h : f ∈ responseFailures e) :
    f = .unresolvedExpression e.identity ∧ e.override.bind Override.response = none := by
  unfold responseFailures at h
  split at h
  · cases h
  next hnone =>
    split at h
    · exact ⟨List.mem_singleton.mp h, hnone⟩
    · cases h

theorem cases_of_mem_reports {routes : List Route} {f : Failure} (h : f ∈ a.reports routes) :
    f.IsSource ∨ ∃ e ∈ a.shown routes,
        f = .unresolvedExpression e.identity ∧ e.override.bind Override.response = none := by
  obtain h | h := List.mem_append.mp h
  · obtain ⟨route, -, hf⟩ := List.mem_flatMap.mp h
    exact .inl (a.isSource_of_mem_handlerFailures route hf)
  · obtain ⟨e, he, hf⟩ := List.mem_flatMap.mp h
    obtain hf | hf := List.mem_append.mp hf
    · exact .inr ⟨e, he, mem_responseFailures hf⟩
    · exact .inl ((a.failsWith_requestOutcome e).of_mem hf)

theorem unused?_of_mem_reports {routes : List Route} {f : Failure} (h : f ∈ a.reports routes) :
    f.unused? = none := by
  obtain ⟨name, reason, rfl⟩ | ⟨e, -, rfl, -⟩ := a.cases_of_mem_reports h
  · rfl
  · rfl

theorem unused_assemble (routes : List Route) :
    Failure.unused (a.assemble routes).2 = a.config.overrides.keys.filter fun identity =>
        !((a.considered routes).map Route.identity).contains identity := by
  have hreports : Failure.unused ((a.reports routes).foldl Failure.keep []) = [] := by
    refine Failure.unused_eq_nil fun f hf => ?_
    exact a.unused?_of_mem_reports ((Failure.mem_of_mem_keepAll hf).resolve_left List.not_mem_nil)
  have hdefinitions : Failure.unused (a.definitionsOf routes).failures = [] := by
    refine Failure.unused_eq_nil fun f hf => ?_
    obtain ⟨name, reason, rfl⟩ :=
      a.synthesizer.isExample_of_mem_failures _ (fun _ hf => absurd hf List.not_mem_nil) f hf
    rfl
  have hunused : ∀ names : List String, Failure.unused (names.map .unusedOverride) = names := by
    intro names
    rw [Failure.unused, List.filterMap_map]
    exact List.filterMap_some
  rw [assemble_eq, Failure.unused_append, Failure.unused_append, hreports, hdefinitions,
    List.append_nil, List.nil_append]
  exact hunused _

theorem exists_identity_endpoints (routes : List Route) (identity : String) :
    (∃ e ∈ (a.endpoints routes {}).1, e.identity = identity) ↔
      ∃ route ∈ a.considered routes, route.identity = identity ∧ route.verbs a.config ≠ [] := by
  rw [endpoints, (a.endpointsFrom_spec _ a.knows_fresh).1]
  constructor
  · rintro ⟨e, he, rfl⟩
    obtain ⟨route, hroute, he⟩ := List.mem_flatMap.mp he
    obtain ⟨-, hverb, hendpoint⟩ := Route.mem_endpoints he
    exact ⟨route, hroute, by rw [hendpoint]; rfl, List.ne_nil_of_mem hverb⟩
  · rintro ⟨route, hroute, rfl, hverbs⟩
    obtain ⟨verb, hverb⟩ := List.exists_mem_of_ne_nil _ hverbs
    refine ⟨route.endpoint a.config (a.handlerOf route) verb,
      List.mem_flatMap.mpr ⟨route, hroute, ?_⟩, rfl⟩
    exact List.mem_map.mpr ⟨verb, hverb, rfl⟩

/-- The overrides that are reported are those without an endpoint, each once and in order. But one
whose identity is that of a route without verbs is not reported. -/
theorem unused_overrides_reported (routes : List Route) (h : a.config.overrides.Sorted) :
    (Failure.unused (a.assemble routes).2).Pairwise (· < ·) ∧
      ∀ identity, identity ∈ Failure.unused (a.assemble routes).2 ↔
        identity ∈ a.config.overrides.keys ∧
          (∀ e ∈ (a.endpoints routes {}).1, e.identity ≠ identity) ∧
          ∀ route ∈ a.considered routes, route.verbs a.config = [] → route.identity ≠ identity := by
  rw [unused_assemble]
  refine ⟨(List.pairwise_map.mpr h).filter _, fun identity => ?_⟩
  have hasked : (!((a.considered routes).map Route.identity).contains identity) = true ↔
      ∀ route ∈ a.considered routes, route.identity ≠ identity := by
    simp
  rw [List.mem_filter, hasked]
  refine and_congr_right fun _ => ⟨fun hnone => ⟨?_, fun route hroute _ => hnone route hroute⟩, ?_⟩
  · intro e he heq
    obtain ⟨route, hroute, hidentity, -⟩ :=
      (a.exists_identity_endpoints routes identity).mp ⟨e, he, heq⟩
    exact hnone route hroute hidentity
  · rintro ⟨hendpoints, hsilent⟩ route hroute hidentity
    by_cases hverbs : route.verbs a.config = []
    · exact hsilent route hroute hverbs hidentity
    · obtain ⟨e, he, heq⟩ :=
        (a.exists_identity_endpoints routes identity).mpr ⟨route, hroute, hidentity, hverbs⟩
      exact hendpoints e he heq

def overriding : Assembler :=
  { ofTypeless with config.overrides := [("health", {}), ("status", {})] }

def toNothing (name method : String) : Route :=
  { uri := name, methods := [method], handler := none, name := some name }

theorem unused_override_of_status :
    (Failure.unused (overriding.assemble [toNothing "health" "GET"]).2).Pairwise (· < ·) ∧
      "status" ∈ Failure.unused (overriding.assemble [toNothing "health" "GET"]).2 := by
  obtain ⟨hsorted, hmem⟩ := overriding.unused_overrides_reported [toNothing "health" "GET"]
    (by unfold Table.Sorted; decide)
  exact ⟨hsorted, (hmem "status").mpr (by decide)⟩

/-- A route that registers no verb gives no endpoint, but what is said about it counts as used. -/
theorem not_unused_overrides_reported : ¬ ∀ (project : Project) (config : Config)
    (files : List ParsedFile) (routes : List Route) (identity : String),
    config.overrides.Sorted →
      (identity ∈ Failure.unused ((project.assembler config files).assemble routes).2 ↔
        identity ∈ config.overrides.keys ∧
          ∀ e ∈ ((project.assembler config files).endpoints routes {}).1,
            e.identity ≠ identity) := by
  intro h
  have hhead := h typeless { overrides := [("health", {})] } [] [toNothing "health" "HEAD"] "health"
    (by unfold Table.Sorted; decide)
  exact absurd (hhead.mpr (by decide)) (by decide)

end Assembler

end ApiContract
