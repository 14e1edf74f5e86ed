import ApiContract.Proofs.Assembled

namespace ApiContract

namespace Route

/-- A route that is not left out registers a verb by one of its methods, unless that is left out. -/
def Registers (config : Config) (route : Route) (uri : String) (verb : Verb) : Prop :=
  route.isIgnored config = false ∧ Uri.normalize route.uri = uri ∧
    ∃ method ∈ route.methods, config.ignoresMethod method = false ∧ Verb.parse? method = some verb

instance (config : Config) (route : Route) (uri : String) (verb : Verb) :
    Decidable (route.Registers config uri verb) := by
  unfold Registers
  infer_instance

theorem mem_verbs (config : Config) (route : Route) (verb : Verb) :
    verb ∈ route.verbs config ↔ ∃ method ∈ route.methods,
        config.ignoresMethod method = false ∧ Verb.parse? method = some verb := by
  simp [verbs, and_assoc]

def endpoint (config : Config) (route : Route) (handler : Handler) (verb : Verb) : Endpoint :=
  { uri := Uri.normalize route.uri
    verb
    identity := route.identity
    id := route.handler
    middleware := route.middleware
    tags := route.tags
    handler
    override := config.overrides.get? route.identity }

theorem mem_endpoints {config : Config} {route : Route} {handler : Handler} {e : Endpoint}
    (h : e ∈ route.endpoints config handler) :
    e.uri = Uri.normalize route.uri ∧ e.verb ∈ route.verbs config ∧
      e = route.endpoint config handler e.verb := by
  obtain ⟨verb, hm, rfl⟩ := List.mem_map.mp h
  exact ⟨rfl, hm, rfl⟩

theorem find?_endpoints (config : Config) (route : Route) (handler : Handler) (uri : String)
    (verb : Verb) :
    ((route.endpoints config handler).reverse.find? fun e => e.uri = uri ∧ e.verb = verb) =
        if Uri.normalize route.uri = uri ∧ verb ∈ route.verbs config then
          some (route.endpoint config handler verb)
        else none := by
  cases hfind : (route.endpoints config handler).reverse.find? fun e =>
    e.uri = uri ∧ e.verb = verb with
  | none =>
    refine (if_neg ?_).symm
    rintro ⟨hu, hm⟩
    have hin : route.endpoint config handler verb ∈ (route.endpoints config handler).reverse :=
      List.mem_reverse.mpr (List.mem_map.mpr ⟨verb, hm, rfl⟩)
    simpa [endpoint, hu] using List.find?_eq_none.mp hfind _ hin
  | some e =>
    obtain ⟨rfl, rfl⟩ : e.uri = uri ∧ e.verb = verb := by simpa using List.find?_some hfind
    obtain ⟨hu, hm, he⟩ := mem_endpoints (List.mem_reverse.mp (List.mem_of_find?_eq_some hfind))
    rw [if_pos ⟨hu.symm, hm⟩, ← he]

end Route

namespace Assembler

variable (a : Assembler)

/-- The endpoint that counts for a path and a verb is that of the last route that registers it. -/
theorem endpoint?_eq_last (routes : List Route) (uri : String) (verb : Verb) :
    endpoint? (a.grouping routes) uri verb =
      (routes.reverse.find? fun route => route.Registers a.config uri verb).map fun route =>
        route.endpoint a.config (a.handlerOf route) verb := by
  rw [endpoint?_grouping]
  induction routes with
  | nil => rfl
  | cons route rest ih =>
    have hsplit : a.endpointsOf (a.considered (route :: rest)) =
        (if route.isIgnored a.config then [] else route.endpoints a.config (a.handlerOf route)) ++
          a.endpointsOf (a.considered rest) := by
      by_cases hi : route.isIgnored a.config <;> simp [considered, endpointsOf, hi]
    rw [hsplit, List.reverse_append, List.find?_append, ih, List.reverse_cons, List.find?_append,
      Option.map_or]
    congr 1
    by_cases hi : route.isIgnored a.config = true
    · have hn : ¬ route.Registers a.config uri verb := fun h => by simp [h.1] at hi
      simp [hi, hn]
    · have hf : route.isIgnored a.config = false := by simpa using hi
      rw [if_neg hi, Route.find?_endpoints]
      by_cases hr : route.Registers a.config uri verb
      · rw [if_pos ⟨hr.2.1, (Route.mem_verbs _ _ _).mpr hr.2.2⟩]
        simp [hr]
      · rw [if_neg fun h => hr ⟨hf, h.1, (Route.mem_verbs _ _ _).mp h.2⟩]
        simp [hr]

theorem operation?_eq_last (routes : List Route) (uri : String) (verb : Verb) :
    (a.assemble routes).1.operation? uri verb =
      (routes.reverse.find? fun route => route.Registers a.config uri verb).map fun route =>
        a.operationOf (route.endpoint a.config (a.handlerOf route) verb) := by
  rw [operation?_assemble, endpoint?_eq_last, Option.map_map]
  rfl

/-- A document has an operation where a route registers one, and it is the one that the last such
route has in a document of its own. -/
theorem operation_of_last_route (routes : List Route) (uri : String) (verb : Verb) :
    ((∃ operation, (a.assemble routes).1.operation? uri verb = some operation) ↔
        ∃ route ∈ routes, route.Registers a.config uri verb) ∧
      (a.assemble routes).1.operation? uri verb =
        (routes.reverse.find? fun route => route.Registers a.config uri verb).bind fun last =>
          (a.assemble [last]).1.operation? uri verb := by
  refine ⟨?_, ?_⟩
  · rw [operation?_eq_last, ← Option.isSome_iff_exists, Option.isSome_map, List.find?_isSome]
    simp
  · rw [operation?_eq_last]
    cases hlast : routes.reverse.find? fun route => route.Registers a.config uri verb with
    | none => rfl
    | some last =>
      have hr : last.Registers a.config uri verb := by simpa using List.find?_some hlast
      rw [Option.bind_some, operation?_eq_last]
      simp [hr]

end Assembler

end ApiContract
