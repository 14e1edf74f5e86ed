import ApiContract.Proofs.DocumentReadBack
import ApiContract.Proofs.ExchangedRoutines
import ApiContract.Generation

namespace ApiContract

open Source

namespace Document.Operation

/-- The parameters that come with the query or in the body. -/
def requested (operation : Operation) : List Parameter :=
  operation.parameters.filter fun p => p.place = "query" || p.place = "body"

end Document.Operation

theorem Document.Parameter.place_of_mem_ofRequest {verb : Verb} {fields : List FieldRules}
    {p : Parameter} (h : p ∈ ofRequest verb fields) : p.place = "query" ∨ p.place = "body" := by
  unfold ofRequest at h
  split at h
  · cases h
  split at h
  · obtain rfl := List.mem_singleton.mp h
    exact .inr rfl
  · obtain ⟨field, -, rfl⟩ := List.mem_map.mp h
    exact .inl rfl

namespace Assembler

variable (a : Assembler)

theorem requested_operationOf (e : Endpoint) :
    (a.operationOf e).requested = Document.Parameter.ofRequest e.verb (a.rulesOf e) := by
  have hpath : (e.pathParameters a.structs a.config.handlers.keyField).filter
      (fun p => p.place = "query" || p.place = "body") = [] := by
    rw [List.filter_eq_nil_iff]
    intro p hp
    obtain ⟨name, -, rfl⟩ := List.mem_map.mp hp
    simp [Document.Parameter.path]
  have hrequest : (Document.Parameter.ofRequest e.verb (a.rulesOf e)).filter
        (fun p => p.place = "query" || p.place = "body") =
      Document.Parameter.ofRequest e.verb (a.rulesOf e) := by
    rw [List.filter_eq_self]
    exact fun p hp => by simpa using Document.Parameter.place_of_mem_ofRequest hp
  rw [Document.Operation.requested, operationOf, List.filter_append, hpath, hrequest,
    List.nil_append]

theorem toOption_lookupRules (validator : String) : (a.lookupRules validator).toOption =
    (a.analyzer.tree.locate validator).toOption.bind fun found =>
      (((a.analyzer.handlersOf found).get? a.config.handlers.rulesRoutine).bind ruleSet?).map
        Rules.interpret := by
  rw [lookupRules, Analyzer.analyze_eq]
  cases a.analyzer.tree.locate validator with
  | error f => rfl
  | ok found =>
    simp only [Except.bind, Except.toOption, Option.bind_some]
    by_cases hempty : (a.analyzer.handlersOf found).isEmpty = true
    · rw [if_pos hempty, List.isEmpty_iff.mp hempty]
      rfl
    · rw [if_neg hempty]
      dsimp only
      cases ((a.analyzer.handlersOf found).get? a.config.handlers.rulesRoutine).bind ruleSet?
        <;> rfl

theorem not_unresolved_of_override (routes : List Route) {identity : String} {override : Override}
    (hoverride : a.config.overrides.get? identity = some override)
    (hresponse : override.response.isSome = true) :
    .unresolvedExpression identity ∉ (a.assemble routes).2 := by
  obtain ⟨response, hresponse⟩ := Option.isSome_iff_exists.mp hresponse
  rw [assemble_eq]
  intro hm
  obtain hm | hm := List.mem_append.mp hm
  · obtain hm | hm := List.mem_append.mp hm
    · obtain ⟨name, reason, hsource⟩ | ⟨e, he, hidentity, hnone⟩ :=
        a.cases_of_mem_reports ((Failure.mem_of_mem_keepAll hm).resolve_left List.not_mem_nil)
      · cases hsource
      · cases hidentity
        obtain ⟨route, -, hendpoint⟩ := exists_route_of_mem_shown he
        have hown : e.override = some override := by
          rw [← hoverride, hendpoint]
          rfl
        rw [hown, Option.bind_some, hresponse] at hnone
        cases hnone
    · obtain ⟨name, -, hname⟩ := List.mem_map.mp hm
      cases hname
  · obtain ⟨name, reason, hexample⟩ :=
      a.synthesizer.isExample_of_mem_failures _ (fun _ hf => absurd hf List.not_mem_nil) _ hm
    cases hexample

end Assembler

/-- The exchanged function is the rules routine of a validator that an override names. -/
def Revision.IsRules {tree tree' : FileTree} (x : Revision tree tree') (config : Config)
    (root : String) : Prop :=
  ∃ identity override validator found found', config.overrides.get? identity = some override ∧
    override.request = some (.validator validator) ∧
    SourceTree.locate ⟨tree, root⟩ validator = .ok found ∧
    SourceTree.locate ⟨tree', root⟩ validator = .ok found' ∧ found.target = x.target ∧
    Exchanges x.f x.f' x.target found.scope.items found'.scope.items ∧
    ∃ g ∈ x.f.toList ++ x.f'.toList, g.name = config.handlers.rulesRoutine

namespace Assembler

variable {a : Assembler} {tree tree' : FileTree} {root : String}

def onTree (a : Assembler) (tree : SourceTree) : Assembler :=
  { a with analyzer := { a.analyzer with tree } }

/-- The rules of a validator stay, if its rules routine is not the function that is exchanged. -/
theorem lookupRules_onTree (x : Revision tree tree') (htree : a.analyzer.tree = ⟨tree, root⟩)
    {validator : String}
    (hother : ∀ found found', SourceTree.locate ⟨tree, root⟩ validator = .ok found →
        SourceTree.locate ⟨tree', root⟩ validator = .ok found' → found.target = x.target →
        Exchanges x.f x.f' x.target found.scope.items found'.scope.items →
        ∀ g ∈ x.f.toList ++ x.f'.toList, g.name ≠ a.config.handlers.rulesRoutine) :
    ((a.onTree ⟨tree', root⟩).lookupRules validator).toOption =
      (a.lookupRules validator).toOption := by
  have hlocate := x.locate root validator
  rw [toOption_lookupRules, toOption_lookupRules, htree]
  change (SourceTree.locate ⟨tree', root⟩ validator).toOption.bind _ = _
  generalize hfound : SourceTree.locate ⟨tree, root⟩ validator = outcome at hlocate
  generalize hfound' : SourceTree.locate ⟨tree', root⟩ validator = outcome' at hlocate
  cases hlocate with
  | error => rfl
  | @ok found found' h =>
    have hhandlers :
        ((a.onTree ⟨tree', root⟩).analyzer.handlersOf found').get? a.config.handlers.rulesRoutine =
          (a.analyzer.handlersOf found).get? a.config.handlers.rulesRoutine :=
      Analyzer.get?_handlersOf_agree rfl rfl h (hother found found' hfound hfound')
    simp only [Except.toOption, Option.bind_some]
    exact congrArg (fun handler => (Option.bind handler ruleSet?).map Rules.interpret) hhandlers

theorem rulesOf_onTree (x : Revision tree tree') (htree : a.analyzer.tree = ⟨tree, root⟩)
    (hrules : ¬ x.IsRules a.config root) {identity : String} {override : Override}
    (hoverride : a.config.overrides.get? identity = some override)
    (hrequest : override.request.isSome = true) {e e' : Endpoint} (he : e.override = some override)
    (he' : e'.override = some override) : (a.onTree ⟨tree', root⟩).rulesOf e' = a.rulesOf e := by
  obtain ⟨request, hrequest⟩ := Option.isSome_iff_exists.mp hrequest
  cases request with
  | rules fields => simp only [rulesOf, requestOutcome, he, he', Option.bind_some, hrequest]
  | validator validator =>
    simp only [rulesOf, requestOutcome, he, he', Option.bind_some, hrequest]
    rw [lookupRules_onTree x htree]
    intro found found' hfound hfound' htarget hexchanges g hg hname
    exact hrules ⟨identity, override, validator, found, found', hoverride, hrequest, hfound,
      hfound', htarget, hexchanges, g, hg, hname⟩

theorem responses_onTree (tree : SourceTree) {override : Override}
    (hresponse : override.response.isSome = true) {e e' : Endpoint}
    (he : e.override = some override) (he' : e'.override = some override) :
    ((a.onTree tree).operationOf e').responses = (a.operationOf e).responses := by
  obtain ⟨response, hresponse⟩ := Option.isSome_iff_exists.mp hresponse
  have hchosen : (a.onTree tree).chosen e' = a.chosen e := by
    simp only [chosen, he, he', Option.bind_some, hresponse]
    rfl
  simp only [operationOf, chosenShape, hchosen]
  rfl

/-- Two documents have operations in the same places, of the same identities. What an override says
of an operation is in both of them alike. -/
structure Overridden (config : Config) (result result' : Document × List Failure) : Prop where
  id : ∀ uri verb, (result'.1.operation? uri verb).map Document.Operation.id =
    (result.1.operation? uri verb).map Document.Operation.id
  response : ∀ uri verb operation operation' override,
      result.1.operation? uri verb = some operation →
        result'.1.operation? uri verb = some operation' →
        config.overrides.get? operation.id = some override → override.response.isSome = true →
        operation'.responses = operation.responses ∧ .unresolvedExpression operation.id ∉ result.2 ∧
          .unresolvedExpression operation.id ∉ result'.2
  request : ∀ uri verb operation operation' override,
      result.1.operation? uri verb = some operation →
        result'.1.operation? uri verb = some operation' →
        config.overrides.get? operation.id = some override → override.request.isSome = true →
        operation'.requested = operation.requested

theorem map_id_operation? (a : Assembler) (routes : List Route) (uri : String) (verb : Verb) :
    ((a.assemble routes).1.operation? uri verb).map Document.Operation.id =
      (routes.reverse.find? fun route => route.Registers a.config uri verb).map Route.identity := by
  rw [operation?_eq_last, Option.map_map]
  rfl

theorem overridden_onTree (x : Revision tree tree') (htree : a.analyzer.tree = ⟨tree, root⟩)
    (hrules : ¬ x.IsRules a.config root) (routes : List Route) :
    Overridden a.config (a.assemble routes) ((a.onTree ⟨tree', root⟩).assemble routes) := by
  have hpair :
      ∀ uri verb operation operation', (a.assemble routes).1.operation? uri verb = some operation →
        ((a.onTree ⟨tree', root⟩).assemble routes).1.operation? uri verb = some operation' →
        ∃ e e' : Endpoint,
          operation = a.operationOf e ∧ operation' = (a.onTree ⟨tree', root⟩).operationOf e' ∧
            e.verb = e'.verb ∧ e.override = a.config.overrides.get? e.identity ∧
            e'.override = a.config.overrides.get? e.identity := by
    intro uri verb operation operation' hoperation hoperation'
    rw [operation?_eq_last] at hoperation hoperation'
    obtain ⟨route, hroute, rfl⟩ := Option.map_eq_some_iff.mp hoperation
    obtain ⟨route', hroute', rfl⟩ := Option.map_eq_some_iff.mp hoperation'
    have hsame : route' = route := Option.some.inj (hroute'.symm.trans hroute)
    refine ⟨route.endpoint a.config (a.handlerOf route) verb,
      route'.endpoint a.config ((a.onTree ⟨tree', root⟩).handlerOf route') verb, rfl, rfl, rfl,
      rfl, ?_⟩
    rw [hsame]
    rfl
  refine ⟨?_, ?_, ?_⟩
  · intro uri verb
    rw [map_id_operation?, map_id_operation?]
    rfl
  · intro uri verb operation operation' override hoperation hoperation' hoverride hresponse
    refine ⟨?_, a.not_unresolved_of_override routes hoverride hresponse,
      (a.onTree ⟨tree', root⟩).not_unresolved_of_override routes hoverride hresponse⟩
    obtain ⟨e, e', rfl, rfl, -, he, he'⟩ :=
      hpair uri verb operation operation' hoperation hoperation'
    exact responses_onTree _ hresponse (he.trans hoverride) (he'.trans hoverride)
  · intro uri verb operation operation' override hoperation hoperation' hoverride hrequest
    obtain ⟨e, e', rfl, rfl, hverb, he, he'⟩ :=
      hpair uri verb operation operation' hoperation hoperation'
    rw [requested_operationOf, requested_operationOf, hverb,
      rulesOf_onTree x htree hrules hoverride hrequest (he.trans hoverride) (he'.trans hoverride)]

/-- When one function of the sources is exchanged, which is not the rules routine of a validator
that an override names, the documents have the same operations. Where an override gives a response,
the responses of the operation stay and it is not reported as unresolved; where it gives a request,
what is asked for in the query and in the body stays. -/
theorem overrides_replace_inference (project : Project) (config : Config)
    (x : Revision project.tree tree') (hrules : ¬ x.IsRules config (project.sourceDir config))
    {files : List ParsedFile} (hfiles : project.sources config = .ok files) :
    ∃ files', Project.sources { project with tree := tree' } config = .ok files' ∧
      ∀ routes, Overridden config ((project.assembler config files).assemble routes)
        ((Project.assembler { project with tree := tree' } config files').assemble routes) := by
  have hsources := x.sources_files (project.sourceDir config)
  change Corresponds _ (project.sources config)
    (Project.sources { project with tree := tree' } config) at hsources
  rw [hfiles] at hsources
  generalize hfiles' : Project.sources { project with tree := tree' } config = outcome at hsources
  cases hsources with
  | @ok _ files' h =>
    have hassembler : Project.assembler { project with tree := tree' } config files' =
        (project.assembler config files).onTree ⟨tree', project.sourceDir config⟩ := by
      simp only [Project.assembler, onTree, CapabilityIndex.build_eq h, Structs.ofFiles_eq h]
      rfl
    refine ⟨files', rfl, fun routes => ?_⟩
    rw [hassembler]
    exact overridden_onTree (a := project.assembler config files) x rfl hrules routes

def besideValidator (text : String) : FileTree :=
  .directory [("src", .directory [
      ("check.rs", .file (some
        "struct Check; impl Check \x7b fn rules() \x7b json!([[\"name\", \"required\"]]) \x7d \x7d")),
      ("lib.rs", .file (some text))])]

def showing : Project := { tree := besideValidator "fn show() { later() }", directory := "" }

def contract : Override :=
  { request := some (.validator "crate::check::Check"),
    response := some (.reference "crate::User") }

def contracted : Config := { overrides := [("crate::show", contract)] }

def isShow : File → Bool
  | ⟨[.function f]⟩ => f.name = "show"
  | _ => false

theorem exists_revision_of_isShow {text text' : String} (h : (File.parse? text).any isShow = true)
    (h' : (File.parse? text').any (fun file => file.items.isEmpty) = true) :
    ∃ x : Revision (besideValidator text) (besideValidator text'),
      ∀ g ∈ x.f.toList ++ x.f'.toList, g.name = "show" := by
  obtain ⟨⟨items⟩, hparsed, hitems⟩ := (Option.any_eq_true _ _).mp h
  obtain ⟨⟨items'⟩, hparsed', hitems'⟩ := (Option.any_eq_true _ _).mp h'
  obtain rfl : items' = [] := List.isEmpty_iff.mp hitems'
  unfold isShow at hitems
  split at hitems
  next f heq =>
    cases heq
    have htexts : FileTree.AgreeBut text text' (besideValidator text) (besideValidator text') :=
      .directory (.directory .file "lib.rs" [_] []) "src" [] []
    refine ⟨⟨_, _, _, _, some f, none, .module, htexts, hparsed, hparsed', .here (.function [] [])⟩,
      fun g hg => ?_⟩
    obtain rfl := List.mem_singleton.mp hg
    exact of_decide_eq_true hitems
  next => cases hitems

theorem exists_revision_showing : ∃ x : Revision showing.tree (besideValidator ""),
    ∀ g ∈ x.f.toList ++ x.f'.toList, g.name = "show" :=
  exists_revision_of_isShow (by decide +kernel) (by decide +kernel)

/-- The handler is taken away; the rules of the validator and the overriding response stay. -/
theorem overrides_replace_missing :
    ∃ files files' operation operation', showing.sources contracted = .ok files ∧
      Project.sources { showing with tree := besideValidator "" } contracted = .ok files' ∧
      ((showing.assembler contracted files).assemble [toFunction "u" "show"]).1.operation?
          "/u" .get =
        some operation ∧
      ((Project.assembler { showing with tree := besideValidator "" } contracted files').assemble
          [toFunction "u" "show"]).1.operation? "/u" .get =
        some operation' ∧
      operation.requested.map Document.Parameter.name = ["name"] ∧
      operation'.responses = operation.responses ∧ operation'.requested = operation.requested := by
  obtain ⟨x, hname⟩ := exists_revision_showing
  have hrules : ¬ x.IsRules contracted (showing.sourceDir contracted) := by
    rintro ⟨-, -, -, -, -, -, -, -, -, -, -, g, hg, hrules⟩
    exact absurd ((hname g hg).symm.trans hrules) (by decide)
  have hasked : (showing.sources contracted).toOption.any (fun files =>
      (((showing.assembler contracted files).assemble [toFunction "u" "show"]).1.operation?
        "/u" .get).any fun operation =>
        operation.id = "crate::show" ∧ operation.requested.map Document.Parameter.name =
          ["name"]) = true := by
    decide +kernel
  obtain ⟨files, hfiles, hasked⟩ := SourceTree.exists_ok_of_any hasked
  obtain ⟨operation, hoperation, hasked⟩ := (Option.any_eq_true _ _).mp hasked
  obtain ⟨hidentity, hnames⟩ := of_decide_eq_true hasked
  obtain ⟨files', hfiles', hall⟩ := overrides_replace_inference showing contracted x hrules hfiles
  obtain ⟨hid, hresponse, hrequest⟩ := hall [toFunction "u" "show"]
  have hplace := hid "/u" .get
  rw [hoperation] at hplace
  obtain ⟨operation', hoperation', -⟩ := Option.map_eq_some_iff.mp hplace
  have hoverride : contracted.overrides.get? operation.id = some contract := hidentity ▸ rfl
  exact ⟨files, files', operation, operation', hfiles, hfiles', hoperation, hoperation', hnames,
    (hresponse "/u" .get operation operation' contract hoperation hoperation' hoverride rfl).1,
    hrequest "/u" .get operation operation' contract hoperation hoperation' hoverride rfl⟩

end Assembler

end ApiContract
