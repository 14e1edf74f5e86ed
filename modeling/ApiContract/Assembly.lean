import ApiContract.Endpoint.Parameters
import ApiContract.Handler.Analysis
import ApiContract.Schema.Synthesis
import ApiContract.Status

namespace ApiContract

structure Assembler where
  config : Config
  analyzer : Analyzer
  structs : Structs
  synthesizer : Synthesizer
  /-- Version that the surroundings give to the document. -/
  version : Option String := none

structure Progress where
  cache : AnalysisCache := {}
  definitions : Definitions := {}
  failures : List Failure := []

namespace Progress

def report (p : Progress) (f : Failure) : Progress := { p with failures := p.failures ++ [f] }

def lacks (p : Progress) (name : String) : Bool :=
  p.failures.any fun
    | .sourceUnavailable other _ => other == name
    | _ => false

/-- Reports a missing source, but each only once. -/
def reportSource (p : Progress) (f : Failure) : Progress :=
  match f with
  | .sourceUnavailable name _ => if p.lacks name then p else p.report f
  | _ => p.report f

end Progress

namespace Assembler

variable (a : Assembler)

def analysis (name : String) (p : Progress) : Except Failure Analysis × Progress :=
  let (outcome, cache) := p.cache.get a.analyzer name
  (outcome, { p with cache })

def handlerIn (id : HandlerId) (found : Analysis) : Except Failure Handler :=
  match found.handlers.get? id.routine with
  | some handler => .ok handler
  | none =>
    .error (.sourceUnavailable id.text
      ("handler routine not found (known: " ++ String.intercalate ", " found.handlers.keys ++ ")"))

/-- What is known of a handler; a missing source is reported and leaves nothing known. -/
def handler (id : HandlerId) (p : Progress) : Handler × Progress :=
  let (outcome, p) := a.analysis id.owner p
  match outcome.bind (handlerIn id) with
  | .ok handler => (handler, p)
  | .error f => ({ name := id.routine }, p.reportSource f)

def handlerOfRoute (route : Route) (p : Progress) : Handler × Progress :=
  match route.handler with
  | some id => a.handler id p
  | none => ({ name := Endpoint.inline }, p)

def considered (routes : List Route) : List Route :=
  routes.filter fun route => !route.isIgnored a.config

def endpointsFrom (routes : List Route) (p : Progress) : List Endpoint × Progress :=
  match routes with
  | [] => ([], p)
  | route :: rest =>
    let (handler, p) := a.handlerOfRoute route p
    let (more, p) := endpointsFrom rest p
    (route.endpoints a.config handler ++ more, p)

def endpoints (routes : List Route) (p : Progress) : List Endpoint × Progress :=
  a.endpointsFrom (a.considered routes) p

def collectionEnding : List Char := "::collection".toList

def referredShape (reference : String) : Shape :=
  let (name, collection) := match Text.suffix? collectionEnding reference.toList with
    | some name => (String.ofList name, true)
    | none => (reference, false)
  if a.analyzer.capabilities.has name .transformer then .wrapped name collection false .unresolved
  else .raw name collection false

def overridingResponse : ResponseOverride → Response
  | .reference name => ⟨200, a.referredShape name⟩
  | .sample value status => ⟨status.getD 200, .literal value⟩

/-- The response that an operation shows. One that is not understood is reported. -/
def response (e : Endpoint) (p : Progress) : Option Response × Progress :=
  match e.override.bind Override.response with
  | some override => (some (a.overridingResponse override), p)
  | none =>
    match Response.select e.handler.responses with
    | some ⟨status, .unresolved⟩ =>
      (some ⟨status, .unresolved⟩, p.report (.unresolvedExpression e.identity))
    | selected => (selected, p)

/-- The rule set that a routine returns: the first value known from its source. -/
def ruleSet? (handler : Handler) : Option Json :=
  handler.responses.findSome? fun
    | ⟨_, .literal value⟩ => some value
    | _ => none

def validatorRules (validator : String) (p : Progress) : List FieldRules × Progress :=
  let routine := a.config.handlers.rulesRoutine
  let (outcome, p) := a.analysis validator p
  match outcome with
  | .error f => ([], p.reportSource f)
  | .ok found =>
    match (found.handlers.get? routine).bind ruleSet? with
    | some rules => (Rules.interpret rules, p)
    | none =>
      ([], p.reportSource (.sourceUnavailable (validator ++ "::" ++ routine) "no literal rule set"))

/-- The rules of a request: those of an override, or else those of the handler's validator. -/
def requestRules (e : Endpoint) (p : Progress) : List FieldRules × Progress :=
  match e.override.bind Override.request with
  | some (.rules fields) => (Rules.interpret (.object fields), p)
  | some (.validator name) => a.validatorRules name p
  | none =>
    match e.handler.validator with
    | some name => a.validatorRules name p
    | none => ([], p)

def mediaType : String := "application/json"

def securityScheme : String := "Bearer"

def bearer : Document.SecurityScheme := ⟨"apiKey", "Authorization", "header"⟩

def operation (e : Endpoint) (p : Progress) : Document.Operation × Progress :=
  let (response, p) := a.response e p
  let (schema, definitions) := a.synthesizer.build (response.map Response.shape) p.definitions
  let (rules, p) := a.requestRules e { p with definitions }
  let status := (response.map Response.status).getD 200
  ({ summary := e.handler.summary
     description := e.handler.description
     security := [[(securityScheme, [])]]
     tags := e.tags
     id := e.identity
     consumes := [mediaType]
     produces := [mediaType]
     parameters :=
       e.pathParameters a.structs a.config.handlers.keyField ++
         Document.Parameter.ofRequest e.verb rules
     responses := [(Nat.repr status, ⟨Status.reason status, schema⟩)]
     middleware := e.middleware }, p)

/-- Endpoints by path and verb. Of several for the same two the last one counts. -/
def group (endpoints : List Endpoint) : Table (Table Endpoint) :=
  endpoints.foldl (fun groups e =>
    groups.insert e.uri (Table.insert ((groups.get? e.uri).getD []) e.verb.text e)) []

def pathItem (endpoints : Table Endpoint) (p : Progress) : Document.PathItem × Progress :=
  endpoints.foldl (fun (item, p) (_, e) =>
    let (operation, p) := a.operation e p
    (item.insert e.verb operation, p)) ({}, p)

def paths (groups : Table (Table Endpoint)) (p : Progress) : Table Document.PathItem × Progress :=
  groups.foldl (fun (paths, p) (uri, endpoints) =>
    let (item, p) := a.pathItem endpoints p
    (paths ++ [(uri, item)], p)) ([], p)

def unusedOverrides (routes : List Route) : List Failure :=
  let asked := (a.considered routes).map Route.identity
  (a.config.overrides.keys.filter fun identity => !asked.contains identity).map .unusedOverride

def tags (groups : Table (Table Endpoint)) : NameSet :=
  NameSet.ofList (groups.flatMap fun (_, endpoints) => endpoints.flatMap fun (_, e) => e.tags)

/-- The document, and all failures: those of endpoints and operations, unused overrides, and those
of shared schemas. -/
def assemble (routes : List Route) : Document × List Failure :=
  let (endpoints, p) := a.endpoints routes {}
  let groups := group endpoints
  let (paths, p) := a.paths groups p
  ({ swagger := "2.0"
     info :=
      { version := a.config.infoVersion a.version
        title := a.config.title
        description := a.config.description }
     securityDefinitions := [(securityScheme, bearer)]
     tags := tags groups
     paths
     definitions := p.definitions.table },
    p.failures ++ a.unusedOverrides routes ++ p.definitions.failures)

end Assembler

end ApiContract
