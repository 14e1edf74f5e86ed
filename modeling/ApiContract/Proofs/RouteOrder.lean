import ApiContract.Generation
import ApiContract.Proofs.LastRoute
import ApiContract.Proofs.Report
import ApiContract.Proofs.SharedDefinitions

namespace ApiContract

/-- A property that no two places of a list share picks the same element from every arrangement. -/
theorem find?_eq_of_perm {α : Type} {p : α → Bool} {xs ys : List α} (h : xs.Perm ys)
    (hunique : xs.Pairwise fun x y => ¬ (p x = true ∧ p y = true)) : xs.find? p = ys.find? p := by
  have hperm : (xs.filter p).Perm (ys.filter p) := h.filter p
  have hfilter : (xs.filter p).Pairwise fun _ _ => False := by
    refine List.Pairwise.imp_of_mem ?_ (hunique.sublist List.filter_sublist)
    intro x y hx hy hxy
    exact hxy ⟨(List.mem_filter.mp hx).2, (List.mem_filter.mp hy).2⟩
  rw [← List.head?_filter, ← List.head?_filter]
  match hxs : xs.filter p with
  | [] =>
    rw [hxs, List.nil_perm] at hperm
    rw [hperm]
  | [x] =>
    rw [hxs, List.singleton_perm] at hperm
    rw [hperm]
  | x :: y :: rest =>
    rw [hxs] at hfilter
    exact (List.rel_of_pairwise_cons hfilter List.mem_cons_self).elim

namespace Assembler

variable (a : Assembler)

/-- No two places of a list of routes register the same path and verb. -/
def Disjoint (routes : List Route) : Prop :=
  routes.Pairwise fun route other =>
    ∀ uri verb, ¬ (route.Registers a.config uri verb ∧ other.Registers a.config uri verb)

theorem grouping_eq_of_perm {routes routes' : List Route} (h : routes.Perm routes')
    (hd : a.Disjoint routes) : a.grouping routes = a.grouping routes' := by
  apply Grouped.ext (a.grouped routes) (a.grouped routes')
  intro uri verb
  rw [endpoint?_eq_last, endpoint?_eq_last]
  have hreverse : routes.reverse.Perm routes'.reverse :=
    (List.reverse_perm routes).trans (h.trans (List.reverse_perm routes').symm)
  refine congrArg _ (find?_eq_of_perm hreverse (List.pairwise_reverse.mpr (hd.imp ?_)))
  intro route other hne hboth
  exact hne uri verb (by simpa [and_comm] using hboth)

theorem reports_perm {routes routes' : List Route} (h : routes.Perm routes')
    (hd : a.Disjoint routes) : (a.reports routes).Perm (a.reports routes') := by
  rw [reports, reports, shown, shown, a.grouping_eq_of_perm h hd]
  exact ((h.filter _).flatMap_right _).append_right _

theorem unusedOverrides_eq_of_perm {routes routes' : List Route} (h : routes.Perm routes') :
    a.unusedOverrides routes = a.unusedOverrides routes' := by
  have hasked : ∀ identity, ((a.considered routes).map Route.identity).contains identity =
      ((a.considered routes').map Route.identity).contains identity :=
    fun identity => ((h.filter _).map Route.identity).contains_eq
  simp only [unusedOverrides, hasked]

theorem Disjoint.of_nodup {routes : List Route}
    (h : (routes.map fun route => Uri.normalize route.uri).Nodup) : a.Disjoint routes := by
  apply (List.pairwise_map.mp h).imp
  rintro route other hne uri verb ⟨⟨-, hu, -⟩, -, hu', -⟩
  exact hne (hu.trans hu'.symm)

/-- The same routes in another order give the same document, definitions included. The failures come
in another order, and where several reasons are met for one missing source, they may give another of
these reasons. -/
theorem assemble_eq_of_perm {routes routes' : List Route} (h : routes.Perm routes')
    (hd : a.Disjoint routes) : (a.assemble routes).1 = (a.assemble routes').1 ∧
    ((a.assemble routes).2.map Failure.withoutReason).Perm
      ((a.assemble routes').2.map Failure.withoutReason) ∧
    (Failure.Consistent (a.reports routes) →
      (a.assemble routes).2.Perm (a.assemble routes').2) := by
  have hgrouping := a.grouping_eq_of_perm h hd
  have hreports := a.reports_perm h hd
  have hdefinitions : a.definitionsOf routes = a.definitionsOf routes' := by
    rw [definitionsOf, definitionsOf, shown, shown, hgrouping]
  rw [assemble_eq, assemble_eq, hgrouping, hdefinitions, a.unusedOverrides_eq_of_perm h]
  refine ⟨rfl, ?_, ?_⟩
  · simp only [List.map_append]
    exact ((Failure.keepAll_perm hreports).append_right _).append_right _
  · intro hc
    exact ((Failure.keepAll_perm_of_consistent hreports hc).append_right _).append_right _

def typeless : Project :=
  { tree := .directory [("src", .directory [("lib.rs", .file (some "fn f(){}"))])]
    directory := "" }

def ofTypeless : Assembler := typeless.assembler {} ((typeless.sources {}).toOption.getD [])

def toRoutine (uri type : String) : Route :=
  { uri, methods := ["GET"], handler := some ⟨type, "show"⟩ }

def toFunction (uri name : String) : Route :=
  { uri, methods := ["GET"], handler := some ⟨"crate", name⟩ }

-- the text is read in one evaluation: the missing type, and its routine beside a function of its
-- name in both orders
theorem evaluated_typeless :
    Failure.ofOutcome (ofTypeless.lookupHandler ⟨"crate::T", "show"⟩) =
        [.sourceUnavailable "crate::T" "`T` is not defined in src/lib.rs"] ∧
      (ofTypeless.assemble [toRoutine "a" "crate::T", toFunction "b" "T"]).2 =
        [.sourceUnavailable "crate::T" "`T` is not defined in src/lib.rs"] ∧
      (ofTypeless.assemble [toFunction "b" "T", toRoutine "a" "crate::T"]).2 =
        [.sourceUnavailable "crate::T" "handler routine not found (known: f)"] := by
  decide +kernel

/-- The shared definition is that of the collection also where the page comes first. -/
theorem assemble_reversed :
    (ofPaging.assemble mixedRoutes).1 = (ofPaging.assemble mixedRoutes.reverse).1 ∧
      (ofPaging.assemble mixedRoutes).2.Perm (ofPaging.assemble mixedRoutes.reverse).2 ∧
      ∃ definition, (ofPaging.assemble mixedRoutes.reverse).1.definitions.get?
        "crate::R::collection" = some definition ∧ isPage (some definition) = false := by
  have hd : ofPaging.Disjoint mixedRoutes := Disjoint.of_nodup _ (by decide)
  have hc : Failure.Consistent (ofPaging.reports mixedRoutes) := by
    rw [reports_mixed]
    intro name reason other hm hm'
    simp only [List.mem_singleton, Failure.sourceUnavailable.injEq] at hm hm'
    exact hm.2.trans hm'.2.symm
  obtain ⟨hdocument, -, hfailures⟩ :=
    ofPaging.assemble_eq_of_perm (List.reverse_perm mixedRoutes).symm hd
  exact ⟨hdocument, hfailures hc, definition_of_mixed⟩

/-- The reason that is given for a missing source may depend on the order of the routes. -/
theorem not_failures_perm : ¬ ∀ (project : Project) (config : Config) (files : List ParsedFile)
    (routes routes' : List Route),
    routes.Perm routes' → (project.assembler config files).Disjoint routes →
      ((project.assembler config files).assemble routes).1 =
          ((project.assembler config files).assemble routes').1 ∧
        ((project.assembler config files).assemble routes).2.Perm
          ((project.assembler config files).assemble routes').2 := by
  intro h
  have hd : ofTypeless.Disjoint [toRoutine "a" "crate::T", toFunction "b" "T"] :=
    Disjoint.of_nodup _ (by decide)
  have hperm : (ofTypeless.assemble [toRoutine "a" "crate::T", toFunction "b" "T"]).2.Perm
      (ofTypeless.assemble [toFunction "b" "T", toRoutine "a" "crate::T"]).2 :=
    (h typeless {} _ _ _ (List.Perm.swap _ _ _) hd).2
  obtain ⟨-, hfirst, hsecond⟩ := evaluated_typeless
  rw [hfirst, hsecond] at hperm
  exact absurd hperm (by decide)

end Assembler

end ApiContract
