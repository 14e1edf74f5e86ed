import ApiContract.Proofs.ReturnLayers
import ApiContract.Proofs.ShapeInvariants
import ApiContract.Schema.Synthesis

namespace ApiContract

namespace Shape

def isCollection : Shape → Bool
  | wrapped _ collection _ _ => collection
  | raw _ collection _ => collection
  | _ => false

def source? : Shape → Option Shape
  | wrapped _ _ _ source => some source
  | _ => none

/-- A shape, what its transformer is given, what the transformer of that is given, and so on. -/
def layers : Shape → List Shape
  | wrapped transformer collection paginated source =>
    wrapped transformer collection paginated source :: source.layers
  | shape => [shape]

theorem mem_layers_self (shape : Shape) : shape ∈ shape.layers := by
  cases shape <;> exact List.mem_cons_self

/-- In all layers, a page is a collection or is made from a page, and what is made from a page is
one. -/
def Paged : Shape → Prop
  | wrapped _ collection paginated source =>
    source.Paged ∧ (source.isPaginated = true → paginated = true) ∧
      (paginated = true → collection = true ∨ source.isPaginated = true)
  | raw _ collection paginated => paginated = true → collection = true
  | literal _ => True
  | unresolved => True

namespace Paged

variable {shape layer : Shape}

theorem paginate (h : shape.Paged) : shape.paginate.Paged := by
  cases shape with
  | literal | unresolved => trivial
  | raw => exact fun _ => rfl
  | wrapped => exact ⟨h.1, fun _ => rfl, fun _ => .inl rfl⟩

theorem of_mem_layers (h : shape.Paged) (hlayer : layer ∈ shape.layers) : layer.Paged := by
  induction shape with
  | literal | unresolved | raw =>
    obtain rfl := List.mem_singleton.mp hlayer
    exact h
  | wrapped transformer collection paginated source ih =>
    obtain rfl | hsource := List.mem_cons.mp hlayer
    · exact h
    · exact ih h.1 hsource

theorem of_source (h : shape.Paged) {source : Shape} (hsource : shape.source? = some source)
    (hpage : source.isPaginated = true) : shape.isPaginated = true := by
  cases shape with
  | literal | unresolved | raw => cases hsource
  | wrapped =>
    obtain rfl := Option.some.inj hsource
    exact h.2.1 hpage

theorem collection_or_source (h : shape.Paged) (hpage : shape.isPaginated = true) :
    shape.isCollection = true ∨
      ∃ source, shape.source? = some source ∧ source.isPaginated = true := by
  cases shape with
  | literal | unresolved => cases hpage
  | raw => exact .inl (h hpage)
  | wrapped _ _ _ source => exact (h.2.2 hpage).imp id fun hsource => ⟨source, rfl, hsource⟩

theorem paginated_of_single {transformer : String} {paginated : Bool} {source : Shape}
    (h : (wrapped transformer false paginated source).Paged)
    (hsource : source.isPaginated = false) : paginated = false := by
  refine Bool.eq_false_iff.mpr fun hpage => ?_
  rcases h.2.2 hpage with hcollection | hpages
  · cases hcollection
  · exact Bool.false_ne_true (hsource.symm.trans hpages)

/-- Every page goes back to a collection. -/
theorem exists_collection (h : shape.Paged) (hpage : shape.isPaginated = true) :
    ∃ layer ∈ shape.layers, layer.isPaginated = true ∧ layer.isCollection = true := by
  induction shape with
  | literal | unresolved => cases hpage
  | raw => exact ⟨_, mem_layers_self _, hpage, h hpage⟩
  | wrapped transformer collection paginated source ih =>
    obtain hcollection | hsource := h.2.2 hpage
    · exact ⟨_, mem_layers_self _, hpage, hcollection⟩
    · obtain ⟨layer, hlayer, hlayers⟩ := ih h.1 hsource
      exact ⟨layer, List.mem_cons_of_mem _ hlayer, hlayers⟩

end Paged

end Shape

namespace Handler

open Source

/-- Whatever takes a page of a domain object also takes a collection of it. -/
def Conventions.PagesAreCollections (conventions : Conventions) : Prop :=
  ∀ name, conventions.isPaginator name = true → conventions.isCollection name = true

theorem pagesAreCollections_default : Conventions.PagesAreCollections {} := by
  have hall :
      ∀ name ∈ ({} : Conventions).paginators, ({} : Conventions).isCollection name = true := by
    decide
  exact fun name hname => hall name (List.contains_iff_mem.mp hname)

theorem paged_constructed {v : Evaluator} (h : v.context.conventions.PagesAreCollections)
    (scope : Expr) (found : Construction) {source : Shape} (hsource : source.Paged) :
    (v.constructed scope found source).Paged := by
  unfold Evaluator.constructed
  dsimp only
  split
  · exact ⟨hsource, id, .inr⟩
  split
  · intro hpage
    obtain ⟨name, hname, hpaginator⟩ := List.any_eq_true.mp hpage
    exact List.any_eq_true.mpr ⟨name, hname, h name hpaginator⟩
  · nofun

theorem invariant_paged {c : Context} (h : c.conventions.PagesAreCollections) :
    Invariant c Shape.Paged where
  value _ _ _ _ _ := trivial
  ofType _ := nofun
  unresolved := trivial
  paginate _ hshape := hshape.paginate
  constructed _ _ scope found _ hsource := paged_constructed h scope found hsource

/-- With the conventions as they are by default, every layer of a shape in a response that is a page
is a collection or made from a page, and one that is made from a page is a page. In the end every
page is made from one that is a collection. The definition of one resource that is not made from a
page shows no page. -/
theorem pages_of_responses {c : Context} (hdefault : c.conventions = {}) (f : Function)
    {response : Response} (hresponse : response ∈ (ofFunction c f).responses) {shape : Shape}
    (hshape : shape ∈ response.shape.layers) : (shape.isPaginated = true →
      shape.isCollection = true ∨
        ∃ source, shape.source? = some source ∧ source.isPaginated = true) ∧
    (∀ source, shape.source? = some source → source.isPaginated = true → shape.isPaginated = true) ∧
    (shape.isPaginated = true →
      ∃ layer ∈ shape.layers, layer.isPaginated = true ∧ layer.isCollection = true) ∧
    ∀ {F R : Type} [ExampleSource F] [Renderer R] (s : Synthesizer F R) (ds : Definitions)
      (transformer : String) (paginated : Bool) (source : Shape),
      shape = .wrapped transformer false paginated source → source.isPaginated = false →
        s.build (some shape) ds = (.toDefinition (Schema.key transformer false),
            Synthesizer.define (Schema.key transformer false) transformer
              (s.transformerSchema transformer false false source) ds) := by
  have hpages : c.conventions.PagesAreCollections := hdefault ▸ pagesAreCollections_default
  have hpaged : shape.Paged :=
    ((invariant_paged hpages).responses f response hresponse).of_mem_layers hshape
  refine ⟨hpaged.collection_or_source, fun source => hpaged.of_source, hpaged.exists_collection, ?_⟩
  rintro F R _ _ s ds transformer paginated source rfl hsource
  rw [hpaged.paginated_of_single hsource]
  rfl

def presentingPage : Function :=
  .mk [] "index" [] [] [.expr (.call (.path (pathTo ["UserResource", "new"]) [])
    [.call (.path (pathTo ["User", "paginate"]) []) []]) false]

def isPagedResource (shape : Shape) : Bool := shape.isPaginated && !shape.isCollection

theorem exists_pagedResource : ∃ response ∈ (ofFunction presenter.context presentingPage).responses,
    response.shape.isPaginated = true ∧ response.shape.isCollection = false := by
  have hany : (ofFunction presenter.context presentingPage).responses.any
        (fun response => isPagedResource response.shape) =
      true := by
    decide +kernel
  obtain ⟨response, hresponse, hshape⟩ := List.any_eq_true.mp hany
  rw [isPagedResource, Bool.and_eq_true, Bool.not_eq_true'] at hshape
  exact ⟨response, hresponse, hshape⟩

theorem pages_of_presentingPage : ∃ response ∈
    (ofFunction presenter.context presentingPage).responses,
    response.shape.isPaginated = true ∧
      ∃ source, response.shape.source? = some source ∧ source.isPaginated = true ∧
        ∃ layer ∈ response.shape.layers, layer.isPaginated = true ∧ layer.isCollection = true := by
  obtain ⟨response, hresponse, hpage, hcollection⟩ := exists_pagedResource
  obtain ⟨hmade, -, hlayers, -⟩ := pages_of_responses (c := presenter.context) rfl presentingPage
    hresponse (Shape.mem_layers_self _)
  obtain hself | ⟨source, hsource, hsourcePage⟩ := hmade hpage
  · rw [hcollection] at hself
    cases hself
  · exact ⟨response, hresponse, hpage, source, hsource, hsourcePage, hlayers hpage⟩

/-- A page need not be a collection: one resource may be made from a page. -/
theorem not_collection_of_page :
    ¬ ∀ (c : Context) (f : Function), c.conventions = {} → ∀ response ∈ (ofFunction c f).responses,
      ∀ shape ∈ response.shape.layers, shape.isPaginated = true → shape.isCollection = true := by
  intro h
  obtain ⟨response, hresponse, hpage, hcollection⟩ := exists_pagedResource
  have hself := h presenter.context presentingPage rfl response hresponse response.shape
    (Shape.mem_layers_self _) hpage
  rw [hcollection] at hself
  cases hself

end Handler

end ApiContract
