import ApiContract.Proofs.AlikeContexts
import ApiContract.Proofs.ExchangedFiles
import ApiContract.Proofs.IndexedFunctions

namespace ApiContract

open Source

/-- What is located in the same place of two trees. -/
structure Located.Agree (f f' : Option Function) (target : Target) (found found' : Located) :
    Prop where
  scope : Scope.Agree f f' target found.scope found'.scope
  target_eq : found'.target = found.target
  canonical_eq : found'.canonical = found.canonical

theorem SourceTree.moduleFile?_eq_of_agree {text text' : String} {tree tree' : FileTree}
    (h : FileTree.AgreeBut text text' tree tree') (root : String) :
    moduleFile? ⟨tree, root⟩ = moduleFile? ⟨tree', root⟩ := by
  funext modules
  unfold moduleFile?
  dsimp only
  rw [h.isFile_eq]

namespace Revision

variable {tree tree' : FileTree} (x : Revision tree tree') (root : String)

theorem descend {scope scope' : Scope} (h : Scope.Agree x.f x.f' x.target scope scope')
    (name : String) (steps : List String) : Corresponds (Scope.Agree x.f x.f' x.target)
    (SourceTree.descend name scope steps) (SourceTree.descend name scope' steps) := by
  induction steps generalizing scope scope' with
  | nil => exact .ok h
  | cons step steps ih =>
    have hinner := h.inner? step
    rw [SourceTree.descend, SourceTree.descend]
    generalize scope.inner? step = inner at hinner
    generalize scope'.inner? step = inner' at hinner
    cases hinner with
    | none => exact .error _
    | some h => exact ih h

theorem scopeInFile? (name : String) (modules : List String) (count : Nat) :
    Option.Rel (Corresponds (Scope.Agree x.f x.f' x.target)) (SourceTree.scopeInFile? ⟨tree, root⟩
      name modules count) (SourceTree.scopeInFile? ⟨tree', root⟩ name modules count) := by
  rw [SourceTree.scopeInFile?, SourceTree.scopeInFile?, SourceTree.moduleFile?_eq_of_agree x.files]
  cases SourceTree.moduleFile? ⟨tree', root⟩ (modules.take count) with
  | none => exact .none
  | some path =>
    have hread := x.read path root
    refine .some ?_
    dsimp only
    generalize ParsedFile.read tree path root = file at hread
    generalize ParsedFile.read tree' path root = file' at hread
    cases hread with
    | error e => exact .error _
    | ok h =>
      rw [h.eq]
      exact x.descend (Scope.agree_ofItems h.items _ _) name _

theorem scopeFrom (name : String) (modules : List String) (count : Nat) :
    Corresponds (Scope.Agree x.f x.f' x.target) (SourceTree.scopeFrom ⟨tree, root⟩ name
      modules count) (SourceTree.scopeFrom ⟨tree', root⟩ name modules count) := by
  induction count with
  | zero => exact .getD (x.scopeInFile? root name modules 0) (.error _)
  | succ count ih => exact .getD (x.scopeInFile? root name modules (count + 1)) ih

theorem locateModule (name : String) (modules : List String) :
    Corresponds (Located.Agree x.f x.f' x.target) (SourceTree.locateModule ⟨tree, root⟩
      name modules) (SourceTree.locateModule ⟨tree', root⟩ name modules) := by
  refine (x.scopeFrom root name modules modules.length).bind fun scope scope' h => .ok ⟨h, rfl, ?_⟩
  rw [h.eq]
  rfl

theorem locateWithin (name : String) (imports : Nat) :
    Corresponds (Located.Agree x.f x.f' x.target) (SourceTree.locateWithin ⟨tree, root⟩
      name imports) (SourceTree.locateWithin ⟨tree', root⟩ name imports) := by
  induction imports generalizing name with
  | zero => exact .error _
  | succ imports ih =>
    rw [SourceTree.locateWithin_succ, SourceTree.locateWithin_succ]
    split
    · exact x.locateModule root name []
    split
    · exact x.locateModule root name _
    refine (x.scopeFrom root name _ _).bind fun scope scope' h => ?_
    have hmodule : scope'.moduleName = scope.moduleName := by
      rw [h.eq]
      rfl
    have hpath : scope'.path = scope.path := by rw [h.eq]
    rw [h.defines_eq, h.alias?_eq, hmodule, hpath]
    split
    · exact .ok ⟨h, rfl, rfl⟩
    dsimp only
    split
    · split
      · exact .error _
      · exact ih _
    · exact .error _

theorem locate (name : String) :
    Corresponds (Located.Agree x.f x.f' x.target) (SourceTree.locate ⟨tree, root⟩ name)
      (SourceTree.locate ⟨tree', root⟩ name) :=
  x.locateWithin root name (SourceTree.importLimit + 1)

end Revision

namespace Analyzer

def declared : Target → Item → List Function
  | .module, .function f => [f]
  | .type type, .implementation _ self _ members =>
    if Scope.ownerName? self = some type then functionsOf members else []
  | _, _ => []

def keepFirst (kept : List Function) (f : Function) : List Function :=
  if kept.any (fun k => k.name == f.name) then kept else kept ++ [f]

theorem functions_eq (scope : Scope) :
    functions scope = scope.items.flatMap (declared .module) := by
  rw [functions, List.filterMap_eq_flatMap_toList]
  congr 1
  funext item
  cases item <;> rfl

theorem methods_eq (scope : Scope) (type : String) :
    methods scope type = (scope.items.flatMap (declared (.type type))).foldl keepFirst [] := by
  rw [methods]
  congr 2
  funext item
  cases item <;> rfl

theorem filter_keepFirst (kept : List Function) (f : Function) (name : String) :
    (keepFirst kept f).filter (fun k => k.name = name) = if f.name = name then keepFirst
        (kept.filter fun k => k.name = name) f else kept.filter fun k => k.name = name := by
  by_cases hname : f.name = name
  · have hany : ((kept.filter fun k => k.name = name).any fun k => k.name == f.name) =
        kept.any fun k => k.name == f.name := by
      rw [List.any_filter, hname]
      congr 1
      funext k
      by_cases hk : k.name = name <;> simp [hk]
    rw [if_pos hname, keepFirst, keepFirst, hany]
    split
    · rfl
    · simp [hname]
  · rw [if_neg hname, keepFirst]
    split
    · rfl
    · simp [hname]

/-- Which function of a name is kept does not depend on those of other names. -/
theorem filter_foldl_keepFirst (fs kept : List Function) (name : String) :
    (fs.foldl keepFirst kept).filter (fun f => f.name = name) =
      (fs.filter fun f => f.name = name).foldl keepFirst (kept.filter fun f => f.name = name) := by
  induction fs generalizing kept with
  | nil => rfl
  | cons f fs ih =>
    rw [List.foldl_cons, ih, filter_keepFirst]
    by_cases hname : f.name = name
    · rw [if_pos hname, List.filter_cons_of_pos (by simpa using hname), List.foldl_cons]
    · rw [if_neg hname, List.filter_cons_of_neg (by simpa using hname)]

variable {f f' : Option Function} {target : Target} {items items' : List Item}

theorem declared_of_exchanges (h : Exchanges f f' target items items') :
    ∃ before after, items.flatMap (declared target) = before ++ (f.toList ++ after) ∧
      items'.flatMap (declared target) = before ++ (f'.toList ++ after) := by
  cases h with
  | function before after =>
    have hfunction : ∀ f : Option Function,
        (f.map Item.function).toList.flatMap (declared .module) = f.toList := by
      intro f
      cases f <;> rfl
    refine ⟨before.flatMap (declared .module), after.flatMap (declared .module), ?_, ?_⟩
    · rw [List.flatMap_append, List.flatMap_append, hfunction]
    · rw [List.flatMap_append, List.flatMap_append, hfunction]
  | @method type owner howner before after trait inner earlier later =>
    have hblock : ∀ f : Option Function, declared (.type owner)
          (.implementation trait type inner (earlier ++ ((f.map .function).toList ++ later))) =
        functionsOf earlier ++ (f.toList ++ functionsOf later) := by
      intro f
      rw [declared, if_pos howner, functionsOf, List.filterMap_append, List.filterMap_append]
      cases f <;> rfl
    refine ⟨before.flatMap (declared (.type owner)) ++ functionsOf earlier,
      functionsOf later ++ after.flatMap (declared (.type owner)), ?_, ?_⟩
    · rw [List.flatMap_append, List.flatMap_cons, hblock]
      simp only [List.append_assoc]
    · rw [List.flatMap_append, List.flatMap_cons, hblock]
      simp only [List.append_assoc]

theorem declared_of_exchanges_of_ne (h : Exchanges f f' target items items') {other : Target}
    (hne : other ≠ target) : items.flatMap (declared other) = items'.flatMap (declared other) := by
  cases h with
  | function before after =>
    have hfunction :
        ∀ f : Option Function, (f.map Item.function).toList.flatMap (declared other) = [] := by
      intro f
      cases f <;> cases other <;> first | rfl | exact absurd rfl hne
    rw [List.flatMap_append, List.flatMap_append, hfunction, List.flatMap_append,
      List.flatMap_append, hfunction]
  | @method type owner howner before after trait inner earlier later =>
    have hblock : ∀ members, declared other (.implementation trait type inner members) = [] := by
      intro members
      cases other with
      | module => rfl
      | type name =>
        exact if_neg fun heq => hne (congrArg Target.type (Option.some.inj (heq.symm.trans howner)))
    rw [List.flatMap_append, List.flatMap_cons, hblock, List.flatMap_append,
      List.flatMap_cons, hblock]

/-- Only functions of the names that the exchanged function has may differ, and only those of its
owner. -/
theorem filter_declared (h : AgreeBut f f' target items items') (owner : Target) {name : String}
    (hother : owner = target → Exchanges f f' target items items' →
        ∀ g ∈ f.toList ++ f'.toList, g.name ≠ name) :
    (items.flatMap (declared owner)).filter (fun g => g.name = name) =
      (items'.flatMap (declared owner)).filter fun g => g.name = name := by
  cases h with
  | same => rfl
  | inside h own before after =>
    have hcontent : ∀ content, declared owner (.module own content) = [] := by
      intro content
      cases owner <;> rfl
    rw [List.flatMap_append, List.flatMap_cons, hcontent, List.flatMap_append,
      List.flatMap_cons, hcontent]
  | here h =>
    by_cases howner : owner = target
    · have hnone : ∀ g : Option Function, g.toList ⊆ f.toList ++ f'.toList →
          g.toList.filter (fun g => g.name = name) = [] := by
        intro g hg
        rw [List.filter_eq_nil_iff]
        exact fun k hk => by simpa using hother howner h k (hg hk)
      obtain ⟨before, after, hfs, hfs'⟩ := declared_of_exchanges h
      subst howner
      rw [hfs, hfs', List.filter_append, List.filter_append, List.filter_append, List.filter_append,
        hnone f (List.subset_append_left _ _), hnone f' (List.subset_append_right _ _)]
    · rw [declared_of_exchanges_of_ne h howner]

variable {found found' : Located}

theorem filter_routines (h : Located.Agree f f' target found found') {name : String}
    (hother : found.target = target → Exchanges f f' target found.scope.items found'.scope.items →
        ∀ g ∈ f.toList ++ f'.toList, g.name ≠ name) :
    (routines found).filter (fun g => g.name = name) =
      (routines found').filter fun g => g.name = name := by
  have hdeclared := filter_declared h.scope.items found.target hother
  rw [routines, routines, h.target_eq]
  cases htarget : found.target with
  | module =>
    rw [htarget] at hdeclared
    dsimp only
    rw [functions_eq, functions_eq, hdeclared]
  | type type =>
    rw [htarget] at hdeclared
    dsimp only
    rw [methods_eq, methods_eq, filter_foldl_keepFirst, filter_foldl_keepFirst, hdeclared]

theorem contextOf_agree {a a' : Analyzer} (hcapabilities : a'.capabilities = a.capabilities)
    (hconventions : a'.conventions = a.conventions) (h : Located.Agree f f' target found found') :
    a'.contextOf found' = (a.contextOf found).withItems found'.scope.items := by
  rw [contextOf, contextOf, hcapabilities, hconventions, h.target_eq, h.canonical_eq]
  simp only [Handler.Context.withItems, ← h.scope.eq]

theorem ofFunction_agree {a a' : Analyzer} (hcapabilities : a'.capabilities = a.capabilities)
    (hconventions : a'.conventions = a.conventions) (h : Located.Agree f f' target found found') :
    Handler.ofFunction (a'.contextOf found') = Handler.ofFunction (a.contextOf found) := by
  funext g
  rw [contextOf_agree hcapabilities hconventions h, Handler.ofFunction_withItems]

theorem get?_handlersOf (a : Analyzer) (found : Located) (name : String) :
    (a.handlersOf found).get? name = (((routines found).filter fun g => g.name = name).getLast?).map
        (Handler.ofFunction (a.contextOf found)) := by
  rw [handlersOf, Table.get?_ofList_reverse, ← List.map_reverse, Table.get?_map_entries,
    ← List.head?_reverse, ← List.filter_reverse, List.head?_filter]

/-- What is known of a routine is the same in both trees, unless its name is one of the exchanged
function. -/
theorem get?_handlersOf_agree {a a' : Analyzer} (hcapabilities : a'.capabilities = a.capabilities)
    (hconventions : a'.conventions = a.conventions) (h : Located.Agree f f' target found found')
    {name : String}
    (hother : found.target = target → Exchanges f f' target found.scope.items found'.scope.items →
        ∀ g ∈ f.toList ++ f'.toList, g.name ≠ name) :
    (a'.handlersOf found').get? name = (a.handlersOf found).get? name := by
  rw [get?_handlersOf, get?_handlersOf, filter_routines h hother,
    ofFunction_agree hcapabilities hconventions h]

end Analyzer

end ApiContract
