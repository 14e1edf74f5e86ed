import ApiContract.Proofs.GuardedBodies
import ApiContract.Proofs.OverriddenOperations
import ApiContract.Proofs.SharedDefinitions

namespace ApiContract

open Source

def Source.Function.withBody (f : Function) (body : List Stmt) : Function :=
  .mk f.attributes f.name f.params f.inner body

namespace Analyzer

def routine? (found : Located) (name : String) : Option Function :=
  ((routines found).filter fun g => g.name = name).getLast?

/-- One function in both places, or the two that are exchanged. -/
def Swapped (f f' g g' : Function) : Prop := g' = g ∨ g = f ∧ g' = f'

variable {f f' : Function} {target : Target} {items items' : List Item} {found found' : Located}

theorem forall₂_swapped_refl (gs : List Function) : List.Forall₂ (Swapped f f') gs gs :=
  List.forall₂_same.mpr fun _ _ => .inl rfl

theorem Swapped.name_eq (hname : f'.name = f.name) {g g' : Function} (h : Swapped f f' g g') :
    g'.name = g.name := by
  obtain rfl | ⟨rfl, rfl⟩ := h
  · rfl
  · exact hname

theorem forall₂_declared (h : AgreeBut (some f) (some f') target items items') (owner : Target) :
    List.Forall₂ (Swapped f f') (items.flatMap (declared owner))
      (items'.flatMap (declared owner)) := by
  cases h with
  | same => exact forall₂_swapped_refl _
  | inside h own before after =>
    have hcontent : ∀ content, declared owner (.module own content) = [] := by
      intro content
      cases owner <;> rfl
    rw [List.flatMap_append, List.flatMap_cons, hcontent, List.flatMap_append,
      List.flatMap_cons, hcontent]
    exact forall₂_swapped_refl _
  | here h =>
    by_cases howner : owner = target
    · obtain ⟨before, after, hfs, hfs'⟩ := declared_of_exchanges h
      subst howner
      rw [hfs, hfs']
      exact List.rel_append (forall₂_swapped_refl before)
        (.cons (.inr ⟨rfl, rfl⟩) (forall₂_swapped_refl after))
    · rw [declared_of_exchanges_of_ne h howner]
      exact forall₂_swapped_refl _

theorem forall₂_keepFirst (hname : f'.name = f.name) {kept kept' : List Function}
    (h : List.Forall₂ (Swapped f f') kept kept') {g g' : Function} (hg : Swapped f f' g g') :
    List.Forall₂ (Swapped f f') (keepFirst kept g) (keepFirst kept' g') := by
  have hany : kept'.any (fun k => k.name == g'.name) = kept.any fun k => k.name == g.name := by
    rw [hg.name_eq hname]
    induction h with
    | nil => rfl
    | cons hk _ ih => rw [List.any_cons, List.any_cons, ih, hk.name_eq hname]
  rw [keepFirst, keepFirst, hany]
  split
  · exact h
  · exact List.rel_append h (.cons hg .nil)

theorem forall₂_routines (hname : f'.name = f.name)
    (h : Located.Agree (some f) (some f') target found found') :
    List.Forall₂ (Swapped f f') (routines found) (routines found') := by
  have hdeclared := forall₂_declared h.scope.items found.target
  rw [routines, routines, h.target_eq]
  cases htarget : found.target with
  | module =>
    rw [htarget] at hdeclared
    dsimp only
    rwa [functions_eq, functions_eq]
  | type type =>
    rw [htarget] at hdeclared
    dsimp only
    rw [methods_eq, methods_eq]
    exact List.rel_foldl (P := List.Forall₂ (Swapped f f')) (R := Swapped f f')
      (fun _ _ hkept _ _ hg => forall₂_keepFirst hname hkept hg) .nil hdeclared

theorem rel_routine? (hname : f'.name = f.name)
    (h : Located.Agree (some f) (some f') target found found') (name : String) :
    Option.Rel (Swapped f f') (routine? found name) (routine? found' name) := by
  have hfilter :=
    List.rel_filter (p := fun g => decide (g.name = name)) (q := fun g => decide (g.name = name))
      (fun g g' (hg : Swapped f f' g g') => by simp [hg.name_eq hname]) (forall₂_routines hname h)
  have hreverse := List.rel_reverse hfilter
  rw [routine?, routine?, ← List.head?_reverse, ← List.head?_reverse]
  generalize (List.filter _ (routines found)).reverse = gs at hreverse
  generalize (List.filter _ (routines found')).reverse = gs' at hreverse
  cases hreverse with
  | nil => exact .none
  | cons hg _ => exact .some hg

end Analyzer

namespace Handler

/-- In this context a function records a success, and takes on guards that answer with none. -/
structure KeepsSuccess (c : Context) (f : Function) (body : List Stmt) : Prop where
  guards : Relation.ReflTransGen (TakesGuard c (parametersOf c f.params)) f.body body
  success : ∃ r ∈ (ofFunction c f).responses, r.Succeeds

theorem KeepsSuccess.select_eq {c : Context} {f : Function} {body : List Stmt}
    (h : KeepsSuccess c f body) : Response.select (ofFunction c (f.withBody body)).responses =
    Response.select (ofFunction c f).responses :=
  select_of_takesGuards h.guards h.success

end Handler

namespace Analyzer

def responsesIn (a : Analyzer) (found : Located) (name : String) : List Response :=
  ((routine? found name).map (Handler.ofFunction (a.contextOf found))).elim [] Handler.responses

theorem select_responsesIn {a a' : Analyzer} (hcapabilities : a'.capabilities = a.capabilities)
    (hconventions : a'.conventions = a.conventions) {f : Function} {body : List Stmt}
    {target : Target} {found found' : Located}
    (h : Located.Agree (some f) (some (f.withBody body)) target found found') {name : String}
    (hkeeps : routine? found name = some f → Handler.KeepsSuccess (a.contextOf found) f body) :
    Response.select (a'.responsesIn found' name) = Response.select (a.responsesIn found name) := by
  have hname : (f.withBody body).name = f.name := rfl
  have hroutine := rel_routine? hname h name
  rw [responsesIn, responsesIn, ofFunction_agree hcapabilities hconventions h]
  generalize routine? found name = g at hroutine hkeeps
  generalize routine? found' name = g' at hroutine
  cases hroutine with
  | none => rfl
  | some hswapped =>
    obtain rfl | ⟨rfl, rfl⟩ := hswapped
    · rfl
    · exact (hkeeps rfl).select_eq

end Analyzer

namespace Assembler

variable {a : Assembler} {tree tree' : FileTree} {root : String} {f : Function} {body : List Stmt}

theorem responses_lookupHandler (a : Assembler) (id : HandlerId) :
    (a.lookupHandler id).toOption.elim [] Handler.responses = (a.analyzer.tree.locate
        id.owner).toOption.elim [] fun found => a.analyzer.responsesIn found id.routine := by
  have hget : ∀ found, a.analyzer.responsesIn found id.routine =
      ((a.analyzer.handlersOf found).get? id.routine).elim [] Handler.responses := fun found => by
    rw [Analyzer.get?_handlersOf]
    rfl
  simp only [hget]
  rw [lookupHandler, Analyzer.analyze_eq]
  cases a.analyzer.tree.locate id.owner with
  | error => rfl
  | ok found =>
    simp only [Except.bind, Except.toOption, Option.elim_some]
    by_cases hempty : (a.analyzer.handlersOf found).isEmpty = true
    · rw [if_pos hempty, List.isEmpty_iff.mp hempty]
      rfl
    · rw [if_neg hempty]
      dsimp only [handlerIn]
      cases (a.analyzer.handlersOf found).get? id.routine <;> rfl

theorem responses_handlerOf (a : Assembler) (route : Route) : (a.handlerOf route).responses =
    route.handler.elim [] fun id =>
      (a.analyzer.tree.locate id.owner).toOption.elim [] fun found =>
        a.analyzer.responsesIn found id.routine := by
  simp only [← responses_lookupHandler]
  rw [handlerOf]
  cases route.handler with
  | none => rfl
  | some id =>
    rw [Option.elim_some]
    dsimp only
    cases a.lookupHandler id <;> rfl

/-- What a document shows of a handler stays, when a function takes on guards: either it is another
function, or a success is recorded. -/
theorem select_handlerOf_onTree (x : Revision tree tree') (hf : x.f = some f)
    (hf' : x.f' = some (f.withBody body)) (htree : a.analyzer.tree = ⟨tree, root⟩) (route : Route)
    (h : ∀ id found, route.handler = some id → SourceTree.locate ⟨tree, root⟩ id.owner = .ok found →
        Analyzer.routine? found id.routine = some f →
        Handler.KeepsSuccess (a.analyzer.contextOf found) f body) :
    Response.select ((a.onTree ⟨tree', root⟩).handlerOf route).responses =
      Response.select (a.handlerOf route).responses := by
  rw [responses_handlerOf, responses_handlerOf, htree]
  cases hid : route.handler with
  | none => rw [Option.elim_none, Option.elim_none]
  | some id =>
    rw [Option.elim_some, Option.elim_some]
    change Response.select ((SourceTree.locate ⟨tree', root⟩ id.owner).toOption.elim [] _) = _
    have hlocate := x.locate root id.owner
    generalize hfound : SourceTree.locate ⟨tree, root⟩ id.owner = outcome at hlocate
    generalize SourceTree.locate ⟨tree', root⟩ id.owner = outcome' at hlocate
    cases hlocate with
    | error => rfl
    | @ok found found' hagree =>
      rw [hf, hf'] at hagree
      exact Analyzer.select_responsesIn rfl rfl hagree (h id found hid hfound)

theorem exists_assembler_onTree (project : Project) (config : Config)
    (x : Revision project.tree tree') {files : List ParsedFile}
    (hfiles : project.sources config = .ok files) :
    ∃ files', Project.sources { project with tree := tree' } config = .ok files' ∧
      Project.assembler { project with tree := tree' } config files' =
        (project.assembler config files).onTree ⟨tree', project.sourceDir config⟩ := by
  have hsources := x.sources_files (project.sourceDir config)
  change Corresponds _ (project.sources config)
    (Project.sources { project with tree := tree' } config) at hsources
  rw [hfiles] at hsources
  generalize hfiles' : Project.sources { project with tree := tree' } config = outcome at hsources
  cases hsources with
  | @ok _ files' h =>
    refine ⟨files', rfl, ?_⟩
    simp only [Project.assembler, onTree, CapabilityIndex.build_eq h, Structs.ofFiles_eq h]
    rfl

/-- The operation for a path and a verb is handled by a function, which is located here. -/
def HandledBy (a : Assembler) (routes : List Route) (uri : String) (verb : Verb) (found : Located)
    (f : Function) : Prop :=
  ∃ route id, (routes.reverse.find? fun route => route.Registers a.config uri verb) = some route ∧
    route.handler = some id ∧ a.analyzer.tree.locate id.owner = .ok found ∧
    Analyzer.routine? found id.routine = some f

def chosenAt (a : Assembler) (routes : List Route) (uri : String) (verb : Verb) :
    Option (Option Response) :=
  (endpoint? (a.grouping routes) uri verb).map a.chosen

variable {routes : List Route} {uri : String} {verb : Verb}

theorem chosen_onTree (tree : SourceTree) (route : Route) (verb : Verb)
    (hselect : Response.select ((a.onTree tree).handlerOf route).responses =
        Response.select (a.handlerOf route).responses) :
    (a.onTree tree).chosen (route.endpoint a.config ((a.onTree tree).handlerOf route) verb) =
      a.chosen (route.endpoint a.config (a.handlerOf route) verb) := by
  rw [chosen, chosen, Route.endpoint, Route.endpoint]
  dsimp only
  rw [hselect]
  rfl

theorem chosenAt_onTree (x : Revision tree tree') (hf : x.f = some f)
    (hf' : x.f' = some (f.withBody body)) (htree : a.analyzer.tree = ⟨tree, root⟩)
    (h : ∀ found, a.HandledBy routes uri verb found f →
        Handler.KeepsSuccess (a.analyzer.contextOf found) f body) :
    (a.onTree ⟨tree', root⟩).chosenAt routes uri verb = a.chosenAt routes uri verb := by
  have hconfig : (a.onTree ⟨tree', root⟩).config = a.config := rfl
  rw [chosenAt, chosenAt, endpoint?_eq_last, endpoint?_eq_last, Option.map_map,
    Option.map_map, hconfig]
  cases hroute : routes.reverse.find? fun route => route.Registers a.config uri verb with
  | none => rw [Option.map_none, Option.map_none]
  | some route =>
    have hselect := select_handlerOf_onTree x hf hf' htree route fun id found hid hfound hroutine =>
      h found ⟨route, id, hroute, hid, by rw [htree]; exact hfound, hroutine⟩
    rw [Option.map_some, Option.map_some, Function.comp_apply, Function.comp_apply]
    rw [chosen_onTree _ route verb hselect]

def answerOf (a : Assembler) (chosen : Option Response) : Table Document.Response :=
  let status := (chosen.map Response.status).getD 200
  [(Nat.repr status,
    ⟨Status.reason status, (a.synthesizer.build (chosen.map Response.shape) {}).1⟩)]

theorem answerOf_onTree (a : Assembler) (tree : SourceTree) :
    (a.onTree tree).answerOf = a.answerOf := by
  have hsynthesizer : (a.onTree tree).synthesizer = a.synthesizer := rfl
  funext chosen
  rw [answerOf, answerOf, hsynthesizer]

theorem responses_operation? (a : Assembler) (routes : List Route) (uri : String) (verb : Verb) :
    ((a.assemble routes).1.operation? uri verb).map Document.Operation.responses =
      (a.chosenAt routes uri verb).map a.answerOf := by
  have hanswer : Document.Operation.responses ∘ a.operationOf = a.answerOf ∘ a.chosen := by
    funext e
    rw [Function.comp_apply, Function.comp_apply, operationOf, answerOf, chosenShape]
  rw [operation?_assemble, chosenAt, Option.map_map, Option.map_map, hanswer]

/-- The paths and verbs for which a document has operations, in its order. -/
def slots (a : Assembler) (routes : List Route) : List (String × Verb) :=
  (a.shown routes).map fun e => (e.uri, e.verb)

theorem mem_slots :
    (uri, verb) ∈ a.slots routes ↔ ∃ e, endpoint? (a.grouping routes) uri verb = some e := by
  rw [slots, List.mem_map]
  constructor
  · rintro ⟨e, he, heq⟩
    obtain ⟨rfl, rfl⟩ := Prod.mk.inj heq
    exact ⟨e, (a.mem_shown routes e).mp he⟩
  · rintro ⟨e, he⟩
    obtain ⟨rfl, rfl, -⟩ := ((a.grouped routes).mem_iff uri verb e).mp he
    exact ⟨e, (a.mem_shown routes e).mpr he, rfl⟩

def SlotBefore (slot other : String × Verb) : Prop :=
  slot.1 < other.1 ∨ slot.1 = other.1 ∧ slot.2.text < other.2.text

theorem SlotBefore.asymm {slot other : String × Verb} (h : SlotBefore slot other) :
    ¬ SlotBefore other slot := by
  rintro (h' | ⟨heq', h'⟩)
  · obtain h | ⟨heq, -⟩ := h
    · exact String.lt_asymm h h'
    · exact String.lt_irrefl _ (heq ▸ h')
  · obtain h | ⟨-, h⟩ := h
    · exact String.lt_irrefl _ (heq' ▸ h)
    · exact String.lt_asymm h h'

theorem pairwise_slots (a : Assembler) (routes : List Route) :
    (a.slots routes).Pairwise SlotBefore :=
  List.pairwise_map.mpr (a.grouped routes).pairwise_inOrder

theorem slots_onTree (a : Assembler) (tree : SourceTree) (routes : List Route) :
    (a.onTree tree).slots routes = a.slots routes := by
  have hmem : ∀ slot, slot ∈ (a.onTree tree).slots routes ↔ slot ∈ a.slots routes := by
    rintro ⟨uri, verb⟩
    simp only [mem_slots, endpoint?_eq_last, Option.map_eq_some_iff]
    change (∃ e route,
        (routes.reverse.find? fun route => route.Registers a.config uri verb) = some route ∧ _) ↔
      _
    constructor <;> rintro ⟨_, route, hroute, rfl⟩ <;> exact ⟨_, route, hroute, rfl⟩
  have hnodup : ∀ a : Assembler, (a.slots routes).Nodup := fun a =>
    (a.pairwise_slots routes).imp fun h heq => by
      subst heq
      exact h.asymm h
  refine List.Perm.eq_of_pairwise (fun _ _ _ _ h h' => absurd h' h.asymm)
    ((a.onTree tree).pairwise_slots routes) (a.pairwise_slots routes) ?_
  exact (List.perm_ext_iff_of_nodup (hnodup _) (hnodup _)).mpr hmem

theorem definitionsOf_eq (a : Assembler) (routes : List Route) : a.definitionsOf routes =
    a.synthesizer.buildAll ((a.slots routes).map fun slot =>
      ((a.chosenAt routes slot.1 slot.2).bind id).map Response.shape) {} := by
  rw [definitionsOf, slots, List.map_map]
  refine congrArg (a.synthesizer.buildAll · {}) (List.map_congr_left fun e he => ?_)
  rw [Function.comp_apply, chosenAt, (a.mem_shown routes e).mp he]
  rfl

theorem definitionsOf_onTree (x : Revision tree tree') (hf : x.f = some f)
    (hf' : x.f' = some (f.withBody body)) (htree : a.analyzer.tree = ⟨tree, root⟩)
    (h : ∀ uri verb found, a.HandledBy routes uri verb found f →
        Handler.KeepsSuccess (a.analyzer.contextOf found) f body) :
    (a.onTree ⟨tree', root⟩).definitionsOf routes = a.definitionsOf routes := by
  rw [definitionsOf_eq, definitionsOf_eq, slots_onTree]
  refine congrArg (a.synthesizer.buildAll · {}) (List.map_congr_left fun slot _ => ?_)
  rw [chosenAt_onTree x hf hf' htree (h slot.1 slot.2)]

/-- The document shows of a handler the earliest of its responses in the best class, and one more
response is shown in its place only if it is of a better class, or of the same class and stands
before it. So where a handler records a success, the operation keeps its response when the handler
takes on guards that answer with none; and so do the definitions, where this holds of all
operations. -/
theorem guards_displace_nothing (project : Project) (config : Config)
    (x : Revision project.tree tree') (hf : x.f = some f) (hf' : x.f' = some (f.withBody body))
    {files : List ParsedFile} (hfiles : project.sources config = .ok files) :
    (∀ rs r, Response.select rs = some r ↔ ∃ place, Response.IsChosen rs place r) ∧
      (∀ rs place best, Response.IsChosen rs place best →
        ∀ k ≤ rs.length, ∀ r, Response.select (rs.insertIdx k r) =
          some (if Response.Displaces r best k place then r else best)) ∧
      ∃ files', Project.sources { project with tree := tree' } config = .ok files' ∧ ∀ routes,
        let a := project.assembler config files
        let a' := Project.assembler { project with tree := tree' } config files'
        (∀ uri verb, (∀ found, a.HandledBy routes uri verb found f →
            Handler.KeepsSuccess (a.analyzer.contextOf found) f body) →
          ((a'.assemble routes).1.operation? uri verb).map Document.Operation.responses =
            ((a.assemble routes).1.operation? uri verb).map Document.Operation.responses) ∧
          ((∀ uri verb found, a.HandledBy routes uri verb found f →
              Handler.KeepsSuccess (a.analyzer.contextOf found) f body) →
            (a'.assemble routes).1.definitions = (a.assemble routes).1.definitions) := by
  refine ⟨fun _ _ =>
    Response.select_eq_some_iff, fun _ _ _ hbest k hk r => hbest.select_insertIdx hk r, ?_⟩
  obtain ⟨files', hfiles', hassembler⟩ := exists_assembler_onTree project config x hfiles
  refine ⟨files', hfiles', fun routes => ?_⟩
  dsimp only
  rw [hassembler]
  refine ⟨fun uri verb h => ?_, fun h => ?_⟩
  · rw [responses_operation?, responses_operation?, chosenAt_onTree x hf hf' rfl h, answerOf_onTree]
  · rw [assemble_eq, assemble_eq, definitionsOf_onTree x hf hf' rfl h]

def statusNamed (name : String) : Expr :=
  .path (.mk false [.mk "StatusCode" .none, .mk name .none]) []

def clearing : Function := .mk [] "clear" [] [] [.expr (statusNamed "NO_CONTENT") false]

def clearingFound : List Stmt :=
  [Handler.guardOf (.call (.path (.ofIdent "lost") []) []) (statusNamed "NOT_FOUND") false,
    .expr (statusNamed "NO_CONTENT") false]

theorem keepsSuccess_clearing (c : Handler.Context) :
    Handler.KeepsSuccess c clearing clearingFound where
  guards := by
    have hresponse :
        (Handler.Scan.after c [] []).response (statusNamed "NOT_FOUND") = ⟨404, .literal .null⟩ :=
      rfl
    have hstatus :
        ¬ ((Handler.Scan.after c [] []).response (statusNamed "NOT_FOUND")).Succeeds := by
      rw [hresponse, Response.Succeeds]
      decide
    exact .single (.intro [] (List.cons_ne_nil _ _) false rfl rfl hstatus)
  success := ⟨⟨204, .literal .null⟩, List.mem_singleton_self _, by decide, by decide⟩

def isClearing : File → Bool
  | ⟨[.function (.mk [] "clear" [] []
      [.expr (.path (.mk false [.mk "StatusCode" .none, .mk "NO_CONTENT" .none]) []) false])]⟩ =>
    true
  | _ => false

def isClearingFound : File → Bool
  | ⟨[.function (.mk [] "clear" [] [] [.expr
        (.branch (.call (.path (.mk false [.mk "lost" .none]) []) []) [.expr
          (.ret (some (.path (.mk false [.mk "StatusCode" .none, .mk "NOT_FOUND" .none]) []))) true]
          none) false,
      .expr (.path (.mk false [.mk "StatusCode" .none, .mk "NO_CONTENT" .none]) []) false])]⟩ =>
    true
  | _ => false

theorem eq_of_isClearing {file : File} (h : isClearing file = true) :
    file = ⟨[.function clearing]⟩ := by
  unfold isClearing at h
  split at h
  · rfl
  · cases h

theorem eq_of_isClearingFound {file : File} (h : isClearingFound file = true) :
    file = ⟨[.function (clearing.withBody clearingFound)]⟩ := by
  unfold isClearingFound at h
  split at h
  · rfl
  · cases h

def rootedIn (text : String) : Project :=
  { tree := .directory [("src", .directory [("lib.rs", .file (some text))])], directory := "" }

def clearingText : String := "fn clear() { StatusCode::NO_CONTENT }"

def clearingFoundText : String :=
  "fn clear() { if lost() { return StatusCode::NOT_FOUND; } StatusCode::NO_CONTENT }"

theorem exists_revision_clearing :
    ∃ x : Revision (rootedIn clearingText).tree (rootedIn clearingFoundText).tree,
      x.f = some clearing ∧ x.f' = some (clearing.withBody clearingFound) := by
  have hread : (File.parse? clearingText).any isClearing = true := by decide +kernel
  have hread' : (File.parse? clearingFoundText).any isClearingFound = true := by decide +kernel
  obtain ⟨file, hparsed, hfile⟩ := (Option.any_eq_true _ _).mp hread
  obtain ⟨file', hparsed', hfile'⟩ := (Option.any_eq_true _ _).mp hread'
  obtain rfl := eq_of_isClearing hfile
  obtain rfl := eq_of_isClearingFound hfile'
  have htexts : FileTree.AgreeBut clearingText clearingFoundText (rootedIn clearingText).tree
      (rootedIn clearingFoundText).tree := .directory (.directory .file "lib.rs" [] []) "src" [] []
  exact ⟨⟨_, _, _, _, some clearing, some (clearing.withBody clearingFound), .module, htexts,
      hparsed, hparsed', .here (.function [] [])⟩,
    rfl, rfl⟩

/-- The handler answers with 204 before and after. -/
theorem guard_displaces_nothing : ∃ files files', (rootedIn clearingText).sources {} = .ok files ∧
    (rootedIn clearingFoundText).sources {} = .ok files' ∧
    (∀ c, Handler.KeepsSuccess c clearing clearingFound) ∧ ∃ operation operation',
      (((rootedIn clearingText).assembler {} files).assemble [toFunction "u" "clear"]).1.operation?
            "/u" .get =
          some operation ∧
        (((rootedIn clearingFoundText).assembler {} files').assemble
            [toFunction "u" "clear"]).1.operation? "/u" .get =
          some operation' ∧
        operation.responses.keys = ["204"] ∧ operation'.responses = operation.responses := by
  obtain ⟨x, hf, hf'⟩ := exists_revision_clearing
  have hasked : ((rootedIn clearingText).sources {}).toOption.any (fun files =>
      ((((rootedIn clearingText).assembler {} files).assemble [toFunction "u" "clear"]).1.operation?
        "/u" .get).any
        fun operation => operation.responses.keys = ["204"]) = true := by
    decide +kernel
  obtain ⟨files, hfiles, hasked⟩ := SourceTree.exists_ok_of_any hasked
  obtain ⟨operation, hoperation, hkeys⟩ := (Option.any_eq_true _ _).mp hasked
  obtain ⟨-, -, files', hfiles', hall⟩ :=
    guards_displace_nothing (rootedIn clearingText) {} x hf hf' hfiles
  have hresponses :=
    (hall [toFunction "u" "clear"]).1 "/u" .get fun found _ => keepsSuccess_clearing _
  rw [hoperation] at hresponses
  obtain ⟨operation', hoperation', hsame⟩ := Option.map_eq_some_iff.mp hresponses
  exact ⟨files, files', hfiles, hfiles', keepsSuccess_clearing, operation, operation', hoperation,
    hoperation', of_decide_eq_true hkeys, hsame⟩

end Assembler

end ApiContract
