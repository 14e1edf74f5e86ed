import Mathlib.Data.List.Nodup
import ApiContract.Proofs.DefinitionRuns
import ApiContract.Proofs.RouteOrder
import ApiContract.Proofs.Scopes

namespace ApiContract

/-- If the outcome is a failure, the failure has the property. -/
def FailsWith {α : Type} (p : Failure → Prop) (outcome : Except Failure α) : Prop :=
  ∀ f, outcome = .error f → p f

def Failure.IsSource (f : Failure) : Prop := ∃ name reason, f = .sourceUnavailable name reason

namespace FailsWith

variable {α β : Type} {p : Failure → Prop}

theorem ok (x : α) : FailsWith p (.ok x) := by
  intro f h
  cases h

theorem error {f : Failure} (h : p f) : FailsWith p (.error f : Except Failure α) := by
  intro g hg
  cases hg
  exact h

theorem bind {outcome : Except Failure α} {next : α → Except Failure β} (h : FailsWith p outcome)
    (hnext : ∀ x, FailsWith p (next x)) : FailsWith p (outcome.bind next) := by
  cases outcome with
  | error f => exact .error (h f rfl)
  | ok x => exact hnext x

theorem map {outcome : Except Failure α} (h : FailsWith p outcome) (g : α → β) :
    FailsWith p (outcome.map g) := by
  cases outcome with
  | error f => exact .error (h f rfl)
  | ok x => exact .ok (g x)

theorem of_mem {outcome : Except Failure α} (h : FailsWith p outcome) {f : Failure}
    (hf : f ∈ Failure.ofOutcome outcome) : p f := by
  cases outcome with
  | ok => cases hf
  | error g =>
    obtain rfl := List.mem_singleton.mp hf
    exact h f rfl

theorem missing (name reason : String) :
    FailsWith Failure.IsSource (.error (.sourceUnavailable name reason) : Except Failure α) :=
  .error ⟨name, reason, rfl⟩

end FailsWith

namespace SourceTree

variable (tree : SourceTree)

theorem failsWith_descend (name : String) (scope : Scope) (steps : List String) :
    FailsWith Failure.IsSource (descend name scope steps) := by
  induction steps generalizing scope with
  | nil => exact .ok scope
  | cons step rest ih =>
    rw [descend]
    split
    · exact ih _
    · exact .missing name _

theorem failsWith_of_scopeInFile? {name : String} {modules : List String} {count : Nat}
    {outcome : Except Failure Scope} (h : tree.scopeInFile? name modules count = some outcome) :
    FailsWith Failure.IsSource outcome := by
  obtain ⟨path, -, rfl⟩ := Option.map_eq_some_iff.mp h
  split
  · exact .missing name _
  · exact failsWith_descend name _ _

theorem failsWith_scopeFrom (name : String) (modules : List String) (count : Nat) :
    FailsWith Failure.IsSource (tree.scopeFrom name modules count) := by
  induction count with
  | zero =>
    rw [scopeFrom]
    cases h : tree.scopeInFile? name modules 0 with
    | none => exact .missing name _
    | some outcome => exact tree.failsWith_of_scopeInFile? h
  | succ count ih =>
    rw [scopeFrom]
    cases h : tree.scopeInFile? name modules (count + 1) with
    | none => exact ih
    | some outcome => exact tree.failsWith_of_scopeInFile? h

theorem failsWith_locateModule (name : String) (modules : List String) :
    FailsWith Failure.IsSource (tree.locateModule name modules) :=
  .bind (tree.failsWith_scopeFrom name modules _) fun _ => .ok _

theorem failsWith_locateWithin (name : String) (imports : Nat) :
    FailsWith Failure.IsSource (tree.locateWithin name imports) := by
  induction imports generalizing name with
  | zero => exact .missing name _
  | succ imports ih =>
    rw [locateWithin_succ]
    split
    · exact tree.failsWith_locateModule name _
    split
    · exact tree.failsWith_locateModule name _
    refine .bind (tree.failsWith_scopeFrom name _ _) fun scope => ?_
    split
    · exact .ok _
    dsimp only
    split
    · split
      · exact .missing name _
      · exact ih _
    · exact .missing name _

end SourceTree

theorem Analyzer.failsWith_analyze (analyzer : Analyzer) (name : String) :
    FailsWith Failure.IsSource (analyzer.analyze name) := by
  refine .bind (analyzer.tree.failsWith_locateWithin name _) fun found => ?_
  dsimp only
  split
  · exact .missing name _
  · exact .ok _

namespace Assembler

variable (a : Assembler)

theorem failsWith_lookupHandler (id : HandlerId) :
    FailsWith Failure.IsSource (a.lookupHandler id) := by
  refine .bind (a.analyzer.failsWith_analyze id.owner) fun found => ?_
  rw [handlerIn]
  split
  · exact .ok _
  · exact .missing id.text _

theorem failsWith_lookupRules (validator : String) :
    FailsWith Failure.IsSource (a.lookupRules validator) := by
  refine .bind (a.analyzer.failsWith_analyze validator) fun found => ?_
  split
  · exact .ok _
  · exact .missing _ _

end Assembler

def Failure.IsExample (f : Failure) : Prop := ∃ name reason, f = .exampleUnavailable name reason

theorem FailsWith.unshown {α : Type} (name reason : String) :
    FailsWith Failure.IsExample (.error (.exampleUnavailable name reason) : Except Failure α) :=
  .error ⟨name, reason, rfl⟩

theorem Fixtures.failsWith_instances (fixtures : Fixtures) (stored : Bool) (type : String)
    (count : Nat) : FailsWith Failure.IsExample (fixtures.instances stored type count) := by
  unfold instances
  split
  · exact .ok _
  · exact .unshown type _

theorem Transformers.failsWith_render (t : Transformers) (name : String) (batch : Batch) :
    FailsWith Failure.IsExample (t.render name batch) := by
  unfold render
  split
  · exact .unshown name _
  dsimp only
  split
  · exact .ok _
  split
  · exact .ok _
  split
  · exact .ok _
  · exact .unshown name _

namespace Synthesizer

variable (s : Synthesizer)

theorem failsWith_transformerSchema (transformer : String) (collection paginated : Bool)
    (source : Shape) :
    FailsWith Failure.IsExample (s.transformerSchema transformer collection paginated source) := by
  have hbatch : FailsWith Failure.IsExample (s.batch? transformer collection paginated source) := by
    unfold batch?
    split
    · exact (s.fixtures.failsWith_instances s.stored _ _).map _
    · exact .ok _
    · exact .unshown transformer _
  exact hbatch.bind fun batch =>
    (s.transformers.failsWith_render transformer batch).bind fun _ => .ok _

theorem isExample_of_mem_failures (shapes : List (Option Shape)) {ds : Definitions}
    (h : ∀ f ∈ ds.failures, f.IsExample) : ∀ f ∈ (s.buildAll shapes ds).failures, f.IsExample := by
  induction shapes generalizing ds with
  | nil => exact h
  | cons shape rest ih =>
    refine ih fun f hf => ?_
    obtain hf | ⟨transformer, collection, paginated, source, hschema⟩ :=
      (s.step_build shape ds).mem_failures hf
    · exact h f hf
    · exact s.failsWith_transformerSchema transformer collection paginated source f hschema

end Synthesizer

/-- The validator whose rules an operation asks for: that of an override of the request, or else
that of the handler. -/
def Endpoint.validator? (e : Endpoint) : Option String :=
  match e.override.bind Override.request with
  | some (.rules _) => none
  | some (.validator name) => some name
  | none => e.handler.validator

namespace Assembler

variable (a : Assembler)

theorem requestOutcome_of_validator {e : Endpoint} {validator : String}
    (h : e.validator? = some validator) : a.requestOutcome e = a.lookupRules validator := by
  rw [Endpoint.validator?] at h
  rw [requestOutcome]
  cases hrequest : e.override.bind Override.request with
  | none =>
    simp only [hrequest] at h
    simp only [h]
  | some request =>
    simp only [hrequest] at h
    cases request with
    | rules fields => cases h
    | validator name =>
      obtain rfl := Option.some.inj h
      rfl

theorem mem_reports_of_handler {routes : List Route} {route : Route} (hm : route ∈ routes)
    (hconsidered : route.isIgnored a.config = false) {id : HandlerId}
    (hid : route.handler = some id) {f : Failure} (hf : a.lookupHandler id = .error f) :
    f ∈ a.reports routes := by
  refine List.mem_append_left _ (List.mem_flatMap.mpr ⟨route, ?_, ?_⟩)
  · exact List.mem_filter.mpr ⟨hm, by simp [hconsidered]⟩
  · simp [handlerFailures, hid, hf, Failure.ofOutcome]

theorem mem_reports_of_validator {routes : List Route} {e : Endpoint} (hm : e ∈ a.shown routes)
    {validator : String} (hvalidator : e.validator? = some validator) {f : Failure}
    (hf : a.lookupRules validator = .error f) : f ∈ a.reports routes := by
  refine List.mem_append_right _ (List.mem_flatMap.mpr ⟨e, hm, ?_⟩)
  simp [operationFailures, a.requestOutcome_of_validator hvalidator, hf, Failure.ofOutcome]

theorem sources_assemble (routes : List Route) : Failure.sources (a.assemble routes).2 =
    Failure.sources ((a.reports routes).foldl Failure.keep []) := by
  have hunused : Failure.sources (a.unusedOverrides routes) = [] := by
    simp [Failure.sources, unusedOverrides, Failure.source?]
  have hdefinitions : Failure.sources (a.definitionsOf routes).failures = [] := by
    rw [Failure.sources, List.filterMap_eq_nil_iff]
    intro f hf
    obtain ⟨name, reason, rfl⟩ :=
      a.synthesizer.isExample_of_mem_failures _ (fun _ hf => absurd hf List.not_mem_nil) f hf
    rfl
  have happend : ∀ xs ys : List Failure,
      Failure.sources (xs ++ ys) = Failure.sources xs ++ Failure.sources ys :=
    fun xs ys => List.filterMap_append
  rw [assemble_eq, happend, happend, hunused, hdefinitions, List.append_nil, List.append_nil]

theorem nodup_sources_assemble (routes : List Route) :
    (Failure.sources (a.assemble routes).2).Nodup := by
  rw [sources_assemble]
  exact Failure.nodup_sources_keepAll _ List.nodup_nil

theorem count_sources_assemble {routes : List Route} {name reason : String}
    (h : .sourceUnavailable name reason ∈ a.reports routes) :
    (Failure.sources (a.assemble routes).2).count name = 1 := by
  refine List.count_eq_one_of_mem (a.nodup_sources_assemble routes) ?_
  rw [sources_assemble, Failure.mem_sources_keepAll]
  exact .inr (List.mem_filterMap.mpr ⟨_, h, rfl⟩)

/-- A report misses no source twice, and it misses once the source of each handler that cannot be
found and of each validator whose rules cannot be read. -/
theorem missing_sources_once (routes : List Route) : (Failure.sources (a.assemble routes).2).Nodup ∧
    (∀ route ∈ routes, route.isIgnored a.config = false → ∀ id f, route.handler = some id →
        a.lookupHandler id = .error f → ∃ name reason, f = .sourceUnavailable name reason ∧
          (Failure.sources (a.assemble routes).2).count name = 1) ∧
    ∀ e ∈ a.shown routes, ∀ validator f, e.validator? = some validator →
      a.lookupRules validator = .error f → ∃ name reason, f = .sourceUnavailable name reason ∧
        (Failure.sources (a.assemble routes).2).count name = 1 := by
  refine ⟨a.nodup_sources_assemble routes, ?_, ?_⟩
  · intro route hm hconsidered id f hid hf
    obtain ⟨name, reason, rfl⟩ := a.failsWith_lookupHandler id f hf
    exact ⟨name, reason, rfl,
      a.count_sources_assemble (a.mem_reports_of_handler hm hconsidered hid hf)⟩
  · intro e hm validator f hvalidator hf
    obtain ⟨name, reason, rfl⟩ := a.failsWith_lookupRules validator f hf
    exact ⟨name, reason, rfl,
      a.count_sources_assemble (a.mem_reports_of_validator hm hvalidator hf)⟩

/-- Two routes to routines of one missing type, of which the first takes its rules from that type
too. -/
theorem missing_source_shared :
    let sharing := { ofTypeless with
        config.overrides := [("crate::T::show", { request := some (.validator "crate::T") })] }
    (Failure.sources
        (sharing.assemble [toRoutine "t" "crate::T", toRoutine "u" "crate::T"]).2).count
        "crate::T" =
      1 := by
  intro sharing
  obtain ⟨-, hhandlers, -⟩ :=
    sharing.missing_sources_once [toRoutine "t" "crate::T", toRoutine "u" "crate::T"]
  have hmissing : Failure.ofOutcome (sharing.lookupHandler ⟨"crate::T", "show"⟩) =
      [.sourceUnavailable "crate::T" "`T` is not defined in src/lib.rs"] := evaluated_typeless.1
  cases houtcome : sharing.lookupHandler ⟨"crate::T", "show"⟩ with
  | ok handler => cases houtcome ▸ hmissing
  | error f =>
    obtain ⟨name, reason, rfl, hcount⟩ :=
      hhandlers _ List.mem_cons_self (by decide) _ _ rfl houtcome
    rw [houtcome] at hmissing
    cases hmissing
    exact hcount

end Assembler

end ApiContract
