import ApiContract.Route.Chain

namespace ApiContract.Route

open Source

def builderNames : List String := ["route", "nest", "merge", "layer", "route_layer"]

/-- A call that builds a router: it adds routes to it, or puts a layer on those it has. -/
structure BuilderCall where
  name : String
  inner : List Expr
  args : List Expr
  builds : name ∈ builderNames

def addLayers (names : List String) (route : Route) : Route :=
  { route with middleware := route.middleware ++ names }

theorem addLayers_nil : addLayers [] = id := by
  funext route
  rw [addLayers, List.append_nil]
  rfl

theorem addLayers_append (names more : List String) :
    addLayers (names ++ more) = addLayers more ∘ addLayers names := by
  funext route
  simp [addLayers]

def bare (route : Route) : Route := { route with middleware := [] }

theorem bare_addLayers (names : List String) : bare ∘ addLayers names = bare := rfl

namespace BuilderCall

def on (receiver : Expr) (call : BuilderCall) : Expr :=
  .method receiver call.name call.inner call.args

def layer? (call : BuilderCall) : Option String :=
  if isLayerMethod call.name then call.args.head?.map layerName else none

def added (c : ChainContext) (bindings : Bindings) (call : BuilderCall) : List Route :=
  if call.name = "route" then registered c.scope call.args
  else if call.name = "nest" then
    match call.args.head?.bind textOf? with
    | some start => (chainOfSecond c bindings call.args).map (nestUnder start)
    | none => []
  else if call.name = "merge" then chainOfFirst c bindings call.args
  else []

theorem chain_on (c : ChainContext) (bindings : Bindings) (receiver : Expr) (call : BuilderCall) :
    chain c bindings (call.on receiver) =
      (chain c bindings receiver).map (addLayers call.layer?.toList) ++ call.added c bindings := by
  obtain ⟨name, inner, args, hname⟩ := call
  rw [on, chain, layer?, added]
  dsimp only
  have hnames : name = "route" ∨ name = "nest" ∨ name = "merge" ∨ isLayerMethod name = true := by
    simpa [builderNames, isLayerMethod] using hname
  obtain rfl | rfl | rfl | hlayer := hnames
  · simp [isLayerMethod, addLayers_nil]
  · cases args.head?.bind textOf? <;> simp [isLayerMethod, addLayers_nil]
  · simp [isLayerMethod, addLayers_nil]
  · obtain ⟨hroute, hnest, hmerge⟩ : name ≠ "route" ∧ name ≠ "nest" ∧ name ≠ "merge" := by
      obtain rfl | rfl : name = "layer" ∨ name = "route_layer" := by
        simpa [isLayerMethod] using hlayer
      all_goals decide
    simp only [hroute, hnest, hmerge, hlayer, if_true, if_false, List.append_nil]
    cases args.head? with
    | none => simp [addLayers_nil]
    | some layer => rfl

end BuilderCall

def built (router : Expr) (calls : List BuilderCall) : Expr := calls.foldl BuilderCall.on router

def layersOf (calls : List BuilderCall) : List String := calls.filterMap BuilderCall.layer?

def addedBy (c : ChainContext) (bindings : Bindings) : List BuilderCall → List Route
  | [] => []
  | call :: calls =>
    (call.added c bindings).map (addLayers (layersOf calls)) ++ addedBy c bindings calls

theorem layersOf_cons (call : BuilderCall) (calls : List BuilderCall) :
    layersOf (call :: calls) = call.layer?.toList ++ layersOf calls := by
  rw [layersOf, List.filterMap_cons]
  cases call.layer? <;> rfl

/-- Calls put their layers on the routes before them, and add their routes behind these. -/
theorem chain_built (c : ChainContext) (bindings : Bindings) (router : Expr)
    (calls : List BuilderCall) : chain c bindings (built router calls) =
    (chain c bindings router).map (addLayers (layersOf calls)) ++ addedBy c bindings calls := by
  induction calls generalizing router with
  | nil => simp [built, layersOf, addedBy, addLayers_nil]
  | cons call calls ih =>
    calc
      chain c bindings (built router (call :: calls)) =
          chain c bindings (built (call.on router) calls) :=
        rfl
      _ = (chain c bindings (call.on router)).map (addLayers (layersOf calls)) ++
            addedBy c bindings calls :=
        ih _
      _ = (chain c bindings router).map (addLayers (layersOf (call :: calls))) ++
          addedBy c bindings (call :: calls) := by
        rw [call.chain_on, layersOf_cons, addLayers_append, addedBy, List.map_append, List.map_map,
          List.append_assoc]

theorem built_append (router : Expr) (calls more : List BuilderCall) :
    built router (calls ++ more) = built (built router calls) more :=
  List.foldl_append

def layering (layer : Expr) : BuilderCall := ⟨"layer", [], [layer], by decide⟩

theorem layersOf_layering (layer : Expr) (calls : List BuilderCall) :
    layersOf (layering layer :: calls) = layerName layer :: layersOf calls := rfl

theorem addedBy_layering (c : ChainContext) (bindings : Bindings) (layer : Expr)
    (calls : List BuilderCall) :
    addedBy c bindings (layering layer :: calls) = addedBy c bindings calls :=
  rfl

/-- A layer that is put between the calls that build a router is put on the routes of the calls
before it: it comes behind the layers that these have there already and before those of the later
calls. All else stays, and so do the routes of the later calls. -/
theorem chain_layered (c : ChainContext) (bindings : Bindings) (router layer : Expr)
    (before after : List BuilderCall) : chain c bindings (built router (before ++ after)) =
      (chain c bindings (built router before)).map (addLayers (layersOf after)) ++
        addedBy c bindings after ∧
    chain c bindings (built router (before ++ layering layer :: after)) = (chain c bindings
          (built router before)).map (addLayers (layerName layer :: layersOf after)) ++
        addedBy c bindings after ∧
    (chain c bindings (built router (before ++ layering layer :: after))).map bare =
      (chain c bindings (built router (before ++ after))).map bare := by
  have hwithout := chain_built c bindings (built router before) after
  have hwith := chain_built c bindings (built router before) (layering layer :: after)
  rw [layersOf_layering, addedBy_layering] at hwith
  refine ⟨by rw [built_append, hwithout], by rw [built_append, hwith], ?_⟩
  rw [built_append, built_append, hwithout, hwith, List.map_append, List.map_append, List.map_map,
    List.map_map, bare_addLayers, bare_addLayers]

end ApiContract.Route
