import ApiContract.Proofs.Grouping
import ApiContract.Proofs.Progress

namespace ApiContract

def Document.operation? (d : Document) (uri : String) (verb : Verb) : Option Document.Operation :=
  (d.paths.get? uri).bind fun item => item.operation? verb

namespace Assembler

variable (a : Assembler)

def itemOf (endpoints : Table Endpoint) : Document.PathItem :=
  endpoints.foldl (fun item entry => item.insert entry.2.verb (a.operationOf entry.2)) {}

theorem pathItem_spec (endpoints : Table Endpoint) {p : Progress} (h : a.Knows p) :
    (a.pathItem endpoints p).1 = a.itemOf endpoints ∧
      a.Advances p (a.pathItem endpoints p).2 ((endpoints.map Prod.snd).map a.chosenShape)
        ((endpoints.map Prod.snd).flatMap a.operationFailures) := by
  have hfold : ∀ (item : Document.PathItem) (p : Progress), a.Knows p →
      let r := endpoints.foldl (fun found entry =>
        (found.1.insert entry.2.verb (a.operation entry.2 found.2).1,
          (a.operation entry.2 found.2).2)) (item, p)
      r.1 = endpoints.foldl
            (fun item entry => item.insert entry.2.verb (a.operationOf entry.2)) item ∧
        a.Advances p r.2 ((endpoints.map Prod.snd).map a.chosenShape)
          ((endpoints.map Prod.snd).flatMap a.operationFailures) := by
    induction endpoints with
    | nil => exact fun item p h => ⟨rfl, .refl h⟩
    | cons entry rest ih =>
      intro item p h
      obtain ⟨hfirst, hafter⟩ := a.operation_spec entry.2 h
      obtain ⟨hitem, hrest⟩ := ih (item.insert entry.2.verb (a.operationOf entry.2)) _ hafter.knows
      simp only [List.foldl_cons, hfirst]
      exact ⟨hitem, hafter.trans hrest⟩
  exact hfold {} p h

theorem paths_spec (groups : Table (Table Endpoint)) {p : Progress} (h : a.Knows p) :
    (a.paths groups p).1 = groups.map (fun entry => (entry.1, a.itemOf entry.2)) ∧
      a.Advances p (a.paths groups p).2 ((inOrder groups).map a.chosenShape)
        ((inOrder groups).flatMap a.operationFailures) := by
  have hfold : ∀ (paths : Table Document.PathItem) (p : Progress), a.Knows p →
      let r := groups.foldl (fun found entry =>
        (found.1 ++ [(entry.1, (a.pathItem entry.2 found.2).1)],
          (a.pathItem entry.2 found.2).2)) (paths, p)
      r.1 = paths ++ groups.map (fun entry => (entry.1, a.itemOf entry.2)) ∧ a.Advances p r.2
          ((inOrder groups).map a.chosenShape) ((inOrder groups).flatMap a.operationFailures) := by
    induction groups with
    | nil => exact fun paths p h => ⟨(List.append_nil paths).symm, .refl h⟩
    | cons entry rest ih =>
      intro paths p h
      obtain ⟨hfirst, hafter⟩ := a.pathItem_spec entry.2 h
      obtain ⟨hpaths, hrest⟩ := ih (paths ++ [(entry.1, a.itemOf entry.2)]) _ hafter.knows
      have horder : inOrder (entry :: rest) = entry.2.map Prod.snd ++ inOrder rest := rfl
      simp only [List.foldl_cons, hfirst, horder, List.map_append, List.flatMap_append]
      exact ⟨by rw [hpaths]; simp, hafter.trans hrest⟩
  exact hfold [] p h

def grouping (routes : List Route) : Table (Table Endpoint) :=
  group (a.endpointsOf (a.considered routes))

/-- The endpoints that the document of these routes shows, in its order. -/
def shown (routes : List Route) : List Endpoint := inOrder (a.grouping routes)

theorem grouped (routes : List Route) : Grouped (a.grouping routes) := Grouped.group _

/-- All failures of routes and operations, before those that repeat a missing source are left
out. -/
def reports (routes : List Route) : List Failure :=
  (a.considered routes).flatMap a.handlerFailures ++ (a.shown routes).flatMap a.operationFailures

def definitionsOf (routes : List Route) : Definitions :=
  a.synthesizer.buildAll ((a.shown routes).map a.chosenShape) {}

theorem assemble_eq (routes : List Route) :
    a.assemble routes =
      ({ swagger := "2.0"
         info :=
          { version := a.config.infoVersion a.version
            title := a.config.title
            description := a.config.description }
         securityDefinitions := [(securityScheme, bearer)]
         tags := tags (a.grouping routes)
         paths := (a.grouping routes).map fun entry => (entry.1, a.itemOf entry.2)
         definitions := (a.definitionsOf routes).table },
        (a.reports routes).foldl Failure.keep [] ++ a.unusedOverrides routes ++
          (a.definitionsOf routes).failures) := by
  obtain ⟨hendpoints, hfirst⟩ := a.endpointsFrom_spec (a.considered routes) a.knows_fresh
  obtain ⟨hpaths, hrest⟩ := a.paths_spec (a.grouping routes) hfirst.knows
  have hall := hfirst.trans hrest
  have hgroup : group (a.endpointsOf (a.considered routes)) = a.grouping routes := rfl
  simp only [assemble, endpoints, hendpoints, hgroup, hpaths, hall.definitions, hall.failures]
  rfl

theorem sorted_assemble (routes : List Route) :
    (a.assemble routes).1.paths.Sorted ∧ (a.assemble routes).1.definitions.Sorted := by
  rw [assemble_eq]
  constructor
  · exact List.pairwise_map.mpr (a.grouped routes).sorted
  · exact a.synthesizer.sorted_buildAll _ Table.Sorted.nil

theorem operation?_foldl (entries : Table Endpoint) (item : Document.PathItem)
    (hsorted : entries.Sorted) (hown : ∀ key e, (key, e) ∈ entries → key = e.verb.text)
    (verb : Verb) : (entries.foldl
      (fun item entry => item.insert entry.2.verb (a.operationOf entry.2)) item).operation? verb =
    ((entries.get? verb.text).map a.operationOf).or (item.operation? verb) := by
  induction entries generalizing item with
  | nil => rfl
  | cons entry rest ih =>
    have hkey : entry.1 = entry.2.verb.text := hown _ _ List.mem_cons_self
    have hrest := ih (item.insert entry.2.verb (a.operationOf entry.2))
      (List.pairwise_cons.mp hsorted).2 fun key e hin => hown key e (List.mem_cons_of_mem _ hin)
    rw [List.foldl_cons, hrest, Document.PathItem.operation?_insert, Table.get?_cons]
    by_cases hv : verb = entry.2.verb
    · have hnone : Table.get? rest verb.text = none := by rw [hv, ← hkey, hsorted.get?_rest]
      rw [if_pos hv, if_pos (by rw [hkey, hv]), hnone]
      rfl
    · rw [if_neg hv, if_neg fun he => hv (Verb.text_injective (he.trans hkey))]

theorem operation?_itemOf (routes : List Route) (uri : String) {endpoints : Table Endpoint}
    (hm : (uri, endpoints) ∈ a.grouping routes) (verb : Verb) :
    (a.itemOf endpoints).operation? verb = (endpoints.get? verb.text).map a.operationOf := by
  have hgrouped := a.grouped routes
  apply (a.operation?_foldl endpoints {} (hgrouped.sorted_inside uri endpoints hm) ?_ verb).trans
  · cases verb <;> exact Option.or_none
  · exact fun key e hin => (hgrouped.own uri endpoints hm key e hin).2

theorem operation?_assemble (routes : List Route) (uri : String) (verb : Verb) :
    (a.assemble routes).1.operation? uri verb =
      (endpoint? (a.grouping routes) uri verb).map a.operationOf := by
  rw [assemble_eq, Document.operation?, endpoint?]
  dsimp only
  rw [Table.get?_map fun _ endpoints => a.itemOf endpoints]
  cases hg : (a.grouping routes).get? uri with
  | none => rfl
  | some endpoints => exact a.operation?_itemOf routes uri (Table.mem_of_get? hg) verb

/-- The last endpoint that routes register for a path and a verb is the one that their document
shows. -/
theorem endpoint?_grouping (routes : List Route) (uri : String) (verb : Verb) :
    endpoint? (a.grouping routes) uri verb =
      (a.endpointsOf (a.considered routes)).reverse.find? fun e => e.uri = uri ∧ e.verb = verb :=
  endpoint?_group _ uri verb

theorem mem_shown (routes : List Route) (e : Endpoint) :
    e ∈ a.shown routes ↔ endpoint? (a.grouping routes) e.uri e.verb = some e :=
  (a.grouped routes).mem_inOrder e

theorem responses_operationOf (e : Endpoint) : ∃ status response,
    (a.operationOf e).responses = [(status, response)] ∧
      response.schema = (a.synthesizer.build (a.chosenShape e) {}).1 :=
  ⟨_, _, rfl, rfl⟩

theorem operation?_eq_some (routes : List Route) (uri : String) (verb : Verb)
    (operation : Document.Operation) : (a.assemble routes).1.operation? uri verb = some operation ↔
    ∃ e, e ∈ a.shown routes ∧ e.uri = uri ∧ e.verb = verb ∧ operation = a.operationOf e := by
  rw [operation?_assemble, Option.map_eq_some_iff]
  constructor
  · rintro ⟨e, he, rfl⟩
    obtain ⟨rfl, rfl, -⟩ := ((a.grouped routes).mem_iff uri verb e).mp he
    exact ⟨e, (a.mem_shown routes e).mpr he, rfl, rfl, rfl⟩
  · rintro ⟨e, he, rfl, rfl, rfl⟩
    exact ⟨e, (a.mem_shown routes e).mp he, rfl⟩

end Assembler

end ApiContract
