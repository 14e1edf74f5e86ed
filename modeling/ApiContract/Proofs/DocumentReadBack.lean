import ApiContract.Proofs.LastRoute
import ApiContract.Proofs.UnusedOverrides
import ApiContract.Proofs.WrittenConfigurations
import ApiContract.Proofs.WrittenDocuments

namespace ApiContract

theorem Response.mem_of_select {responses : List Response} {r : Response}
    (h : select responses = some r) : r ∈ responses := by
  induction responses generalizing r with
  | nil => cases h
  | cons first rest ih =>
    rw [select] at h
    split at h
    next =>
      cases h
      exact List.mem_cons_self
    next best hbest =>
      split at h <;> cases h
      · exact List.mem_cons_of_mem _ (ih hbest)
      · exact List.mem_cons_self

namespace Document.Parameter

variable (p : Json → Prop)

theorem orderly_path (name type : String) : (path name type).Orderly p := by
  constructor <;> simp [path]

theorem orderly_query (field : FieldRules) : (query field).Orderly p := by
  constructor
  · intro s hs
    obtain ⟨-, rfl⟩ : field.array = true ∧ Schema.ofType (itemsType field) = s := by
      simpa [query] using hs
    exact Schema.orderly_ofType p _
  · simp [query]

theorem orderly_property (field : FieldRules) : (property field).Orderly p := by
  constructor
  · simp [property]
  · simp [property]
  · simp [property]
  · intro s hs
    obtain ⟨-, rfl⟩ : field.array = true ∧ Schema.ofType (itemsType field) = s := by
      simpa [property] using hs
    exact Schema.orderly_ofType p _

theorem orderly_body (fields : List FieldRules) : (body fields).Orderly p := by
  constructor
  · simp [body]
  · intro s hs
    obtain rfl := Option.some.inj hs
    constructor
    · exact fun value hvalue => by cases hvalue
    · intro properties hproperties
      obtain rfl := Option.some.inj hproperties
      exact Table.sorted_ofList _
    · intro properties hproperties entry hentry
      obtain rfl := Option.some.inj hproperties
      obtain ⟨field, -, rfl⟩ := List.mem_map.mp (Table.mem_of_mem_ofList hentry)
      exact orderly_property p field
    · exact fun items hitems => by cases hitems

theorem orderly_ofRequest (verb : Verb) (fields : List FieldRules) :
    ∀ parameter ∈ ofRequest verb fields, parameter.Orderly p := by
  intro parameter hm
  unfold ofRequest at hm
  split at hm
  · cases hm
  split at hm
  · obtain rfl := List.mem_singleton.mp hm
    exact orderly_body p fields
  · obtain ⟨field, -, rfl⟩ := List.mem_map.mp hm
    exact orderly_query p field

end Document.Parameter

namespace Assembler

/-- Every configured value has each of its names once. -/
structure Settled (a : Assembler) : Prop where
  synthesizer : a.synthesizer.Settled
  overrides : ∀ entry ∈ a.config.overrides, ∀ value status,
    entry.2.response = some (.sample value status) → value.Settled

theorem settled_of_config {d : Datum} {config : Config} (h : Config.ofDatum? d = some config)
    (project : Project) (files : List ParsedFile) : (project.assembler config files).Settled := by
  have hconfig : config.Settled := Config.settled_of_ofDatum? h
  refine ⟨⟨fun entry hentry => ?_, hconfig.examples, hconfig.inputs⟩, ?_⟩
  · have hfixture := hconfig.fixtures entry hentry
    exact ⟨hfixture.attributes, hfixture.variants⟩
  · intro entry hentry value status hresponse
    exact ((hconfig.overrides entry hentry).response _ hresponse).1

variable {a : Assembler}

theorem all_referredShape {p : Json → Prop} (reference : String) :
    (a.referredShape reference).All p := by
  unfold referredShape
  split
  split <;> trivial

theorem all_responses_handlerOf (route : Route) :
    ∀ response ∈ (a.handlerOf route).responses, response.shape.All Handler.Evaluated := by
  unfold handlerOf
  split
  next id _ =>
    split
    next handler hlookup =>
      obtain ⟨analysis, hanalysis, hhandler⟩ := Analyzer.exists_of_bind_ok hlookup
      unfold handlerIn at hhandler
      split at hhandler
      next found hfound =>
        cases hhandler
        exact Analyzer.all_responses_of_analyze hanalysis hfound
      next => cases hhandler
    next => exact fun _ h => absurd h List.not_mem_nil
  next => exact fun _ h => absurd h List.not_mem_nil

theorem exists_route_of_mem_shown {routes : List Route} {e : Endpoint} (h : e ∈ a.shown routes) :
    ∃ route ∈ routes, e = route.endpoint a.config (a.handlerOf route) e.verb := by
  rw [mem_shown, endpoint?_eq_last] at h
  obtain ⟨route, hroute, he⟩ := Option.map_eq_some_iff.mp h
  exact ⟨route, List.mem_reverse.mp (List.mem_of_find?_eq_some hroute), he.symm⟩

/-- The values of the shapes that a document shows are settled. -/
theorem Settled.all_chosenShape (h : a.Settled) {routes : List Route} {e : Endpoint}
    (he : e ∈ a.shown routes) {shape : Shape} (hshape : a.chosenShape e = some shape) :
    shape.All Json.Settled := by
  obtain ⟨route, -, hroute⟩ := exists_route_of_mem_shown he
  obtain ⟨response, hresponse, rfl⟩ := Option.map_eq_some_iff.mp hshape
  unfold chosen at hresponse
  split at hresponse
  next override hoverride =>
    obtain rfl := Option.some.inj hresponse
    obtain ⟨whole, hwhole, hpart⟩ := Option.bind_eq_some_iff.mp hoverride
    cases override with
    | sample value status =>
      rw [hroute] at hwhole
      exact h.overrides _ (Table.mem_of_get? hwhole) value status hpart
    | reference name => exact all_referredShape name
  next =>
    have hhandler : e.handler = a.handlerOf route := congrArg Endpoint.handler hroute
    rw [hhandler] at hresponse
    exact (all_responses_handlerOf route _ (Response.mem_of_select hresponse)).imp fun _ hvalue =>
      hvalue.settled

theorem Settled.orderly_operationOf (h : a.Settled) {routes : List Route} {e : Endpoint}
    (he : e ∈ a.shown routes) : (a.operationOf e).Orderly Json.Settled := by
  refine ⟨?_, ?_, List.pairwise_singleton _ _, ?_⟩
  · intro requirement hm
    obtain rfl := List.mem_singleton.mp hm
    exact List.pairwise_singleton _ _
  · intro parameter hm
    obtain hm | hm := List.mem_append.mp hm
    · obtain ⟨name, -, rfl⟩ := List.mem_map.mp hm
      exact Document.Parameter.orderly_path _ _ _
    · exact Document.Parameter.orderly_ofRequest _ _ _ parameter hm
  · intro entry hm
    obtain rfl := List.mem_singleton.mp hm
    exact Synthesizer.orderly_build (fun found hfound => h.all_chosenShape he hfound) {}

theorem Settled.orderly_assemble (h : a.Settled) (routes : List Route) :
    (a.assemble routes).1.Orderly Json.Settled := by
  obtain ⟨hpaths, hdefinitions⟩ := a.sorted_assemble routes
  refine ⟨?_, hpaths, ?_, hdefinitions, ?_⟩
  · rw [assemble_eq]
    exact List.pairwise_singleton _ _
  · rintro ⟨uri, item⟩ hentry verb operation hoperation
    have hshown : (a.assemble routes).1.operation? uri verb = some operation := by
      rw [Document.operation?, hpaths.get?_of_mem hentry]
      exact hoperation
    obtain ⟨e, he, -, -, rfl⟩ := (a.operation?_eq_some routes uri verb operation).mp hshown
    exact h.orderly_operationOf he
  · rw [assemble_eq]
    refine h.synthesizer.orderly_buildAll (fun shape hm => ?_) fun _ hentry =>
      absurd hentry List.not_mem_nil
    obtain ⟨e, he, hshape⟩ := List.mem_map.mp hm
    exact h.all_chosenShape he hshape

/-- An assembled document is read as it was written, but for examples that are null. -/
theorem ofDatum?_assemble (a : Assembler) (h : a.Settled) (routes : List Route) :
    Document.ofDatum? (Datum.ofJson (a.assemble routes).1.toJson) =
      some (a.assemble routes).1.withoutNulls :=
  Document.ofDatum?_toJson (h.orderly_assemble routes)

def withoutContent : Assembler :=
  { ofTypeless with
      config.overrides := [("health", { response := some (.sample .null (some 204)) })] }

theorem settled_withoutContent : withoutContent.Settled := by
  have hnone : ∀ {α : Type} (x : α), x ∉ ([] : List α) := fun _ => List.not_mem_nil
  refine ⟨⟨fun entry hentry => absurd hentry (hnone _), fun entry hentry => absurd hentry (hnone _),
    fun entry hentry => absurd hentry (hnone _)⟩, fun entry hentry value status hvalue => ?_⟩
  obtain rfl := List.mem_singleton.mp hentry
  cases hvalue
  rfl

theorem ofDatum?_assemble_withoutContent :
    Document.ofDatum? (Datum.ofJson (withoutContent.assemble [toNothing "health" "GET"]).1.toJson) =
      some (withoutContent.assemble [toNothing "health" "GET"]).1.withoutNulls :=
  withoutContent.ofDatum?_assemble settled_withoutContent [toNothing "health" "GET"]

def showsExample (paths : Table Document.PathItem) : Bool :=
  paths.any fun item =>
    item.2.get.any fun o => o.responses.any fun response => response.2.schema.sample.isSome

/-- The example of a response without content is lost. -/
theorem not_ofDatum?_assemble : ¬ ∀ (a : Assembler) (routes : List Route), a.Settled →
    ∃ d, Document.ofDatum? (Datum.ofJson (a.assemble routes).1.toJson) = some d ∧
      d.paths = (a.assemble routes).1.paths ∧
      d.definitions = (a.assemble routes).1.definitions := by
  intro h
  obtain ⟨d, hread, hpaths, -⟩ := h withoutContent [toNothing "health" "GET"] settled_withoutContent
  rw [Document.ofDatum?_toJson (settled_withoutContent.orderly_assemble _)] at hread
  obtain rfl := Option.some.inj hread
  have hwritten :
      showsExample (withoutContent.assemble [toNothing "health" "GET"]).1.paths = true := by
    decide
  have hlost :
      showsExample (withoutContent.assemble [toNothing "health" "GET"]).1.withoutNulls.paths =
        false := by
    decide
  rw [hpaths, hwritten] at hlost
  cases hlost

end Assembler

end ApiContract
