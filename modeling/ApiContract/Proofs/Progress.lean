import ApiContract.Assembly
import ApiContract.Proofs.Definitions

namespace ApiContract

/-- The failures of an assembly after one more report. A source is reported missing only once. -/
def Failure.keep (kept : List Failure) (f : Failure) : List Failure :=
  (Progress.reportSource { failures := kept } f).failures

def Failure.ofOutcome {α : Type} : Except Failure α → List Failure
  | .ok _ => []
  | .error f => [f]

namespace Progress

theorem reportSource_eq (p : Progress) (f : Failure) :
    p.reportSource f = { p with failures := Failure.keep p.failures f } := by
  cases f with
  | sourceUnavailable name reason =>
    have hlacks : Progress.lacks { failures := p.failures } name = p.lacks name := rfl
    by_cases h : p.lacks name = true <;> simp [Failure.keep, reportSource, hlacks, h, report]
  | unresolvedExpression | exampleUnavailable | unusedOverride => rfl

end Progress

namespace Assembler

variable (a : Assembler)

/-- All that is known of names is what their analysis tells. -/
def Knows (p : Progress) : Prop :=
  ∀ name outcome, p.cache.outcomes.get? name = some outcome → outcome = a.analyzer.analyze name

theorem knows_fresh : a.Knows {} := by
  intro name outcome h
  cases h

/-- A later progress, for which these schemas have been built and these failures reported. -/
structure Advances (p q : Progress) (shapes : List (Option Shape)) (reports : List Failure) :
    Prop where
  knows : a.Knows q
  definitions : q.definitions = a.synthesizer.buildAll shapes p.definitions
  failures : q.failures = reports.foldl Failure.keep p.failures

variable {a}

theorem Advances.refl {p : Progress} (h : a.Knows p) : a.Advances p p [] [] := ⟨h, rfl, rfl⟩

theorem Advances.trans {p q r : Progress} {shapes more : List (Option Shape)}
    {reports later : List Failure} (h : a.Advances p q shapes reports)
    (h' : a.Advances q r more later) : a.Advances p r (shapes ++ more) (reports ++ later) := by
  refine ⟨h'.knows, ?_, ?_⟩
  · rw [h'.definitions, h.definitions, Synthesizer.buildAll_append]
  · rw [h'.failures, h.failures, List.foldl_append]

theorem Advances.report {p q : Progress} {shapes : List (Option Shape)}
    (h : a.Advances p q shapes []) (f : Failure) : a.Advances p (q.reportSource f) shapes [f] := by
  rw [Progress.reportSource_eq]
  refine ⟨h.knows, h.definitions, ?_⟩
  simp only [List.foldl_cons, List.foldl_nil, h.failures]

theorem Advances.build {p : Progress} (h : a.Knows p) (shape : Option Shape) :
    a.Advances p { p with definitions := (a.synthesizer.build shape p.definitions).2 } [shape] [] :=
  ⟨h, rfl, rfl⟩

variable (a)

theorem analysis_spec (name : String) {p : Progress} (h : a.Knows p) :
    (a.analysis name p).1 = a.analyzer.analyze name ∧ a.Advances p (a.analysis name p).2 [] [] := by
  cases hget : p.cache.outcomes.get? name with
  | some outcome =>
    simp only [analysis, AnalysisCache.get, hget]
    exact ⟨h name outcome hget, h, rfl, rfl⟩
  | none =>
    simp only [analysis, AnalysisCache.get, hget]
    refine ⟨trivial, ?_, rfl, rfl⟩
    intro other outcome hother
    dsimp only at hother
    rw [Table.get?_insert] at hother
    split at hother
    next he => rw [he, ← Option.some.inj hother]
    next => exact h other outcome hother

def lookupHandler (id : HandlerId) : Except Failure Handler :=
  (a.analyzer.analyze id.owner).bind (handlerIn id)

def handlerOf (route : Route) : Handler :=
  match route.handler with
  | some id =>
    match a.lookupHandler id with
    | .ok handler => handler
    | .error _ => { name := id.routine }
  | none => { name := Endpoint.inline }

def handlerFailures (route : Route) : List Failure :=
  match route.handler with
  | some id => Failure.ofOutcome (a.lookupHandler id)
  | none => []

theorem handlerOfRoute_spec (route : Route) {p : Progress} (h : a.Knows p) :
    (a.handlerOfRoute route p).1 = a.handlerOf route ∧
      a.Advances p (a.handlerOfRoute route p).2 [] (a.handlerFailures route) := by
  cases hid : route.handler with
  | none =>
    simp only [handlerOfRoute, handlerOf, handlerFailures, hid]
    exact ⟨trivial, .refl h⟩
  | some id =>
    obtain ⟨hfound, hafter⟩ := a.analysis_spec id.owner h
    simp only [handlerOfRoute, handlerOf, handlerFailures, hid, handler, lookupHandler, hfound]
    cases (a.analyzer.analyze id.owner).bind (handlerIn id) with
    | ok handler => exact ⟨rfl, hafter⟩
    | error f => exact ⟨rfl, hafter.report f⟩

def endpointsOf (routes : List Route) : List Endpoint :=
  routes.flatMap fun route => route.endpoints a.config (a.handlerOf route)

theorem endpointsFrom_spec (routes : List Route) {p : Progress} (h : a.Knows p) :
    (a.endpointsFrom routes p).1 = a.endpointsOf routes ∧
      a.Advances p (a.endpointsFrom routes p).2 [] (routes.flatMap a.handlerFailures) := by
  induction routes generalizing p with
  | nil => exact ⟨rfl, .refl h⟩
  | cons route rest ih =>
    obtain ⟨hhandler, hfirst⟩ := a.handlerOfRoute_spec route h
    obtain ⟨hmore, hrest⟩ := ih hfirst.knows
    simp only [endpointsFrom, endpointsOf, List.flatMap_cons, hhandler, hmore]
    exact ⟨trivial, hfirst.trans hrest⟩

def chosen (e : Endpoint) : Option Response :=
  match e.override.bind Override.response with
  | some override => some (a.overridingResponse override)
  | none => Response.select e.handler.responses

def chosenShape (e : Endpoint) : Option Shape := (a.chosen e).map Response.shape

def chosenKey (e : Endpoint) : Option String := (a.chosenShape e).bind Shape.key?

def responseFailures (e : Endpoint) : List Failure :=
  match e.override.bind Override.response with
  | some _ => []
  | none =>
    match Response.select e.handler.responses with
    | some ⟨_, .unresolved⟩ => [.unresolvedExpression e.identity]
    | _ => []

theorem response_spec (e : Endpoint) {p : Progress} (h : a.Knows p) :
    (a.response e p).1 = a.chosen e ∧ a.Advances p (a.response e p).2 [] (responseFailures e) := by
  cases ho : e.override.bind Override.response with
  | some override =>
    simp only [response, chosen, responseFailures, ho]
    exact ⟨trivial, .refl h⟩
  | none =>
    simp only [response, chosen, responseFailures, ho]
    cases Response.select e.handler.responses with
    | none => exact ⟨rfl, .refl h⟩
    | some selected =>
      obtain ⟨status, shape⟩ := selected
      cases shape with
      | unresolved => exact ⟨rfl, (Advances.refl h).report (.unresolvedExpression e.identity)⟩
      | literal | wrapped | raw => exact ⟨rfl, .refl h⟩

def lookupRules (validator : String) : Except Failure (List FieldRules) :=
  (a.analyzer.analyze validator).bind fun found =>
    match (found.handlers.get? a.config.handlers.rulesRoutine).bind ruleSet? with
    | some rules => .ok (Rules.interpret rules)
    | none =>
      .error (.sourceUnavailable (validator ++ "::" ++ a.config.handlers.rulesRoutine)
        "no literal rule set")

def requestOutcome (e : Endpoint) : Except Failure (List FieldRules) :=
  match e.override.bind Override.request with
  | some (.rules fields) => .ok (Rules.interpret (.object fields))
  | some (.validator name) => a.lookupRules name
  | none =>
    match e.handler.validator with
    | some name => a.lookupRules name
    | none => .ok []

def rulesOf (e : Endpoint) : List FieldRules := (a.requestOutcome e).toOption.getD []

theorem validatorRules_spec (validator : String) {p : Progress} (h : a.Knows p) :
    (a.validatorRules validator p).1 = (a.lookupRules validator).toOption.getD [] ∧ a.Advances p
        (a.validatorRules validator p).2 [] (Failure.ofOutcome (a.lookupRules validator)) := by
  obtain ⟨hfound, hafter⟩ := a.analysis_spec validator h
  simp only [validatorRules, lookupRules, hfound]
  cases a.analyzer.analyze validator with
  | error f => exact ⟨rfl, hafter.report f⟩
  | ok found =>
    simp only [Except.bind]
    cases (found.handlers.get? a.config.handlers.rulesRoutine).bind ruleSet? with
    | some rules => exact ⟨rfl, hafter⟩
    | none =>
      exact ⟨rfl, hafter.report (.sourceUnavailable
          (validator ++ "::" ++ a.config.handlers.rulesRoutine) "no literal rule set")⟩

theorem requestRules_spec (e : Endpoint) {p : Progress} (h : a.Knows p) :
    (a.requestRules e p).1 = a.rulesOf e ∧
      a.Advances p (a.requestRules e p).2 [] (Failure.ofOutcome (a.requestOutcome e)) := by
  cases ho : e.override.bind Override.request with
  | some request =>
    simp only [requestRules, rulesOf, requestOutcome, ho]
    cases request with
    | rules fields => exact ⟨rfl, .refl h⟩
    | validator name => exact a.validatorRules_spec name h
  | none =>
    simp only [requestRules, rulesOf, requestOutcome, ho]
    cases e.handler.validator with
    | some name => exact a.validatorRules_spec name h
    | none => exact ⟨rfl, .refl h⟩

def operationOf (e : Endpoint) : Document.Operation :=
  let status := ((a.chosen e).map Response.status).getD 200
  { summary := e.handler.summary
    description := e.handler.description
    security := [[(securityScheme, [])]]
    tags := e.tags
    id := e.identity
    consumes := [mediaType]
    produces := [mediaType]
    parameters :=
      e.pathParameters a.structs a.config.handlers.keyField ++
        Document.Parameter.ofRequest e.verb (a.rulesOf e)
    responses :=
      [(Nat.repr status, ⟨Status.reason status, (a.synthesizer.build (a.chosenShape e) {}).1⟩)]
    middleware := e.middleware }

def operationFailures (e : Endpoint) : List Failure :=
  responseFailures e ++ Failure.ofOutcome (a.requestOutcome e)

theorem operation_spec (e : Endpoint) {p : Progress} (h : a.Knows p) :
    (a.operation e p).1 = a.operationOf e ∧
      a.Advances p (a.operation e p).2 [a.chosenShape e] (a.operationFailures e) := by
  obtain ⟨hchosen, hresponse⟩ := a.response_spec e h
  have hbuild := Advances.build hresponse.knows (a.chosenShape e)
  obtain ⟨hrules, hrequest⟩ := a.requestRules_spec e hbuild.knows
  have hshape : (a.chosen e).map Response.shape = a.chosenShape e := rfl
  simp only [operation, operationOf, hchosen, hshape, hrules]
  rw [Synthesizer.build_fst]
  have hall := (hresponse.trans hbuild).trans hrequest
  simp only [List.nil_append, List.append_nil] at hall
  exact ⟨rfl, hall⟩

end Assembler

end ApiContract
