import ApiContract.Proofs.Replacement
import ApiContract.Proofs.RespelledValues
import ApiContract.Proofs.ReturnLayers

namespace ApiContract.Handler

open Source

/-- A call of a path, apart from what is given first. -/
structure Frame where
  path : Path
  inner : List Expr
  rest : List Expr

namespace Frame

def callee (f : Frame) : Expr := .path f.path f.inner

def around (f : Frame) (e : Expr) : Expr := .call f.callee (e :: f.rest)

def stack (fs : List Frame) (e : Expr) : Expr := fs.foldr around e

def Converts (f : Frame) : Prop :=
  f.rest = [] ∧ ∃ owner ∈ "String" :: mapTypes, fromOwner? f.callee = some owner

theorem value?_around {f : Frame} (h : ¬ f.Converts) (c : Context) (env : Environment) (e : Expr) :
    value? c env (f.around e) = none := by
  obtain ⟨path, inner, rest⟩ := f
  cases rest with
  | cons second rest => rfl
  | nil =>
    rw [around, value?]
    cases howner : fromOwner? (callee ⟨path, inner, []⟩) with
    | none => rfl
    | some owner =>
      have hmem : owner ∉ "String" :: mapTypes := fun hmem => h ⟨rfl, owner, hmem, howner⟩
      rw [List.mem_cons, not_or] at hmem
      dsimp only
      rw [if_neg hmem.1, if_neg (by simpa using hmem.2)]

theorem peel_around (f : Frame) :
    (∀ e, peel (f.around e) = peel e) ∨ ∀ e, peel (f.around e) = f.around e := by
  obtain ⟨path, inner, rest⟩ := f
  cases rest with
  | cons second rest => exact .inr fun _ => rfl
  | nil =>
    by_cases h : isTransparentCall (.path path inner) = true
    · exact .inl fun e => by rw [around, callee, peel, if_pos h]
    · exact .inr fun e => by rw [around, callee, peel, if_neg h]

end Frame

namespace Wrapper

def name? : Wrapper → Option String
  | paren | reference | await | attempt => none
  | call path _ _ => path.last?.map Segment.name
  | method name _ _ _ _ => some name

def parts : Wrapper → List Expr
  | paren | reference | await | attempt => []
  | call path inner _ => [.path path inner]
  | method _ inner args _ _ => inner ++ args

end Wrapper

namespace Evaluator

variable (v : Evaluator)

def Transforms (f : Frame) : Prop :=
  ∃ written function,
    calledType? f.path.names = some (written, function) ∧ Name.short written ∉ foreignTypes ∧
      v.context.has (v.context.resolve written) .transformer = true

def Responds (f : Frame) : Prop :=
  (f.path.last?.map Segment.name).any v.context.conventions.isResponder = true

/-- A call that, whatever it is given, constructs nothing of a classified type. -/
def Silent (f : Frame) : Prop :=
  ∀ x ∈ (Expr.call f.callee []).nodes isImmediate,
    ∀ found, constructionAt? v.context x = some found → v.context.isClassified found.type = false

/-- A wrapper that has nothing to read in itself: it and its parts call nothing that gathers, and
its parts construct nothing. -/
structure Quiet (w : Wrapper) : Prop where
  name : ∀ name ∈ w.name?, v.context.conventions.gathers name = false
  calls : ∀ x ∈ nodesOfAll (fun x => !isClosure x) w.parts, gathering? v.context x = none
  constructions : ∀ x ∈ nodesOfAll isImmediate w.parts, constructionAt? v.context x = none

/-- Wrappers that nested calls do not read: there is nothing to read in them, or the innermost call
is of a transformer, and the others construct nothing else. -/
def Unread (fs : List Frame) (ws : List Wrapper) : Prop :=
  (∀ w ∈ ws, v.Quiet w) ∨
    (∀ f ∈ fs, v.Transforms f ∨ v.Silent f) ∧ ∀ f ∈ fs.getLast?, v.Transforms f

variable {v}

theorem constructionAt?_around (f : Frame) (e : Expr) :
    constructionAt? v.context (f.around e) = (constructionAt? v.context (.call f.callee [])).map
        fun found => { found with first := some e } := by
  rw [constructionAt?, constructionAt?, Frame.around, Frame.callee, written?, written?]
  cases calledType? f.path.names with
  | none => rfl
  | some found =>
    simp only [Option.map_some]
    split
    · rfl
    · split <;> rfl

theorem firstConstruction?_around (f : Frame) (e : Expr) :
    firstConstruction? v.context (f.around e) = (constructionAt? v.context (f.around e)).or
        ((firstConstruction? v.context f.callee).or ((firstConstruction? v.context e).or
          ((nodesOfAll isImmediate f.rest).findSome? (constructionAt? v.context)))) := by
  have hnodes : (f.around e).nodes isImmediate = f.around e ::
        (f.callee.nodes isImmediate ++ (e.nodes isImmediate ++ nodesOfAll isImmediate f.rest)) :=
    rfl
  rw [firstConstruction?, hnodes, List.findSome?_cons, List.findSome?_append, List.findSome?_append]
  cases constructionAt? v.context (f.around e) <;> rfl

variable (v)

/-- Constructions that are told apart by nothing but the way in which what they are given is
written. -/
structure Agree (found found' : Construction) : Prop where
  type : found.type = found'.type
  function : found.function = found'.function
  first : found.first.map v.evaluate = found'.first.map v.evaluate

def read (scope : Expr) (found : Construction) : Shape :=
  v.constructed scope found ((found.first.map v.evaluate).getD .unresolved)

/-- A construction whose shape does not depend on the expression that it stands in. -/
def Fixed (found : Construction) : Prop :=
  v.context.has found.type .transformer = true ∨ v.context.has found.type .domainObject = false

variable {v}

theorem Agree.refl (found : Construction) : v.Agree found found := ⟨rfl, rfl, rfl⟩

theorem Agree.read_eq_of_fixed {found found' : Construction} (h : v.Agree found found')
    (hfixed : v.Fixed found) (scope scope' : Expr) : v.read scope found = v.read scope' found' := by
  rw [read, read, ← h.first, constructed, constructed, ← h.type, ← h.function]
  rcases hfixed with htransformer | hdomain
  · simp only [htransformer, if_true]
  · simp only [hdomain, if_neg Bool.false_ne_true]

def GatherAlike (v : Evaluator) (e e' : Expr) : Prop :=
  ∀ has : String → Bool, (∀ name, has name = true → v.context.conventions.gathers name = true) →
    (calledNames e).any has = (calledNames e').any has

theorem Agree.read_eq_of_gatherAlike {found found' : Construction} (h : v.Agree found found')
    {scope scope' : Expr} (hscope : GatherAlike v scope scope') :
    v.read scope found = v.read scope' found' := by
  have hcollection :=
    hscope v.context.conventions.isCollection fun name hname => by simp [Conventions.gathers, hname]
  have hpage :=
    hscope v.context.conventions.isPaginator fun name hname => by simp [Conventions.gathers, hname]
  simp only [read, ← h.first, constructed, ← h.type, ← h.function, hcollection, hpage]

theorem isClassified_eq_false {c : Context} {type : String} (h : c.isClassified type = false)
    (capability : Capability) : c.has type capability = false := by
  rw [Context.isClassified, Classifier.classify, Option.isSome_eq_false_iff,
    Option.isNone_iff_eq_none, List.find?_eq_none] at h
  simpa [Context.has] using h capability (by cases capability <;> decide)

theorem evaluate_congr_peel {e e' : Expr} (h : peel e = peel e') :
    v.evaluate e = v.evaluate e' := by
  rw [evaluate_eq, evaluate_eq v e', h]

theorem evaluate_of_value {e : Expr} {value : Json} (h : v.value? (peel e) = some value) :
    v.evaluate e = .literal value := by
  rw [evaluate_eq, h]

theorem evaluate_of_chain {e : Expr} {shape : Shape} (h : v.value? (peel e) = none)
    (hchain : v.chainShape? (peel e) = some shape) : v.evaluate e = shape := by
  rw [evaluate_eq, h, hchain]

theorem evaluate_of_first {e : Expr} (h : v.value? (peel e) = none)
    (hchain : v.chainShape? (peel e) = none) : v.evaluate e =
    ((firstConstruction? v.context (peel e)).map (v.read (peel e))).getD .unresolved := by
  rw [evaluate_eq, h, hchain]
  cases firstConstruction? v.context (peel e) <;> rfl

theorem evaluate_around {f : Frame} (hconverts : ¬ f.Converts) {e : Expr}
    (hpeel : peel (f.around e) = f.around e) : v.evaluate (f.around e) =
    ((firstConstruction? v.context (f.around e)).map (v.read (f.around e))).getD .unresolved := by
  have hvalue : v.value? (f.around e) = none :=
    Frame.value?_around hconverts v.context v.environment e
  have hchain : v.chainShape? (f.around e) = none := rfl
  rw [evaluate_of_first (by rw [hpeel, hvalue]) (by rw [hpeel, hchain]), hpeel]

theorem evaluate_around_congr {f : Frame} (hconverts : ¬ f.Converts) {e e' : Expr}
    (h : v.evaluate e = v.evaluate e')
    (hread : (firstConstruction? v.context (f.around e)).map (v.read (f.around e)) =
        (firstConstruction? v.context (f.around e')).map (v.read (f.around e'))) :
    v.evaluate (f.around e) = v.evaluate (f.around e') := by
  rcases f.peel_around with hpeel | hpeel
  · rw [evaluate_congr_peel (hpeel e), h, evaluate_congr_peel (hpeel e').symm]
  · rw [evaluate_around hconverts (hpeel e), evaluate_around hconverts (hpeel e'), hread]

theorem agree_constructionAt?_around (f : Frame) {e e' : Expr} (h : v.evaluate e = v.evaluate e') :
    Option.Rel v.Agree (constructionAt? v.context (f.around e))
      (constructionAt? v.context (f.around e')) := by
  rw [constructionAt?_around, constructionAt?_around]
  cases constructionAt? v.context (.call f.callee []) with
  | none => exact .none
  | some found => exact .some ⟨rfl, rfl, congrArg some h⟩

theorem rel_or {α β : Type} {r : α → β → Prop} {x y : Option α} {x' y' : Option β}
    (hx : Option.Rel r x x') (hy : Option.Rel r y y') : Option.Rel r (x.or y) (x'.or y') := by
  cases hx with
  | none => exact hy
  | some h => exact .some h

theorem agree_refl (o : Option Construction) : Option.Rel v.Agree o o := by
  cases o with
  | none => exact .none
  | some found => exact .some (.refl found)

variable (v)

/-- Expressions that are read alike wherever they stand. -/
structure ReadAlike (e e' : Expr) : Prop where
  evaluate : v.evaluate e = v.evaluate e'
  first : Option.Rel v.Agree (firstConstruction? v.context e) (firstConstruction? v.context e')
  gather : GatherAlike v e e'

variable {v}

theorem nodes_around (into : Expr → Bool) (f : Frame) (e : Expr) (h : into (f.around e) = true) :
    (f.around e).nodes into =
      f.around e :: (f.callee.nodes into ++ (e.nodes into ++ nodesOfAll into f.rest)) := by
  rw [Frame.around, Expr.nodes, Expr.enter, nodesOfAll]
  exact congrArg _ (if_pos h)

theorem ReadAlike.around {f : Frame} (hconverts : ¬ f.Converts) {e e' : Expr}
    (h : v.ReadAlike e e') : v.ReadAlike (f.around e) (f.around e') := by
  have hfirst : Option.Rel v.Agree (firstConstruction? v.context (f.around e))
      (firstConstruction? v.context (f.around e')) := by
    rw [firstConstruction?_around, firstConstruction?_around]
    exact rel_or (agree_constructionAt?_around f h.evaluate)
      (rel_or (agree_refl _) (rel_or h.first (agree_refl _)))
  have hgather : GatherAlike v (f.around e) (f.around e') := by
    intro has hhas
    have hinside := h.gather has hhas
    rw [any_calledNames, any_calledNames] at hinside ⊢
    rw [nodes_around _ f e rfl, nodes_around _ f e' rfl]
    simp only [List.any_cons, List.any_append, hinside]
    rfl
  refine ⟨evaluate_around_congr hconverts h.evaluate ?_, hfirst, hgather⟩
  rcases none_or_of_rel hfirst with ⟨hnone, hnone'⟩ | ⟨found, found', hsome, hsome', hagree⟩
  · rw [hnone, hnone']
    rfl
  · rw [hsome, hsome']
    exact congrArg some (hagree.read_eq_of_gatherAlike hgather)

theorem ReadAlike.stack {fs : List Frame} (hconverts : ∀ f ∈ fs, ¬ f.Converts) {e e' : Expr}
    (h : v.ReadAlike e e') : v.ReadAlike (Frame.stack fs e) (Frame.stack fs e') := by
  induction fs with
  | nil => exact h
  | cons f fs ih =>
    exact (ih fun g hg => hconverts g (List.mem_cons_of_mem _ hg)).around
      (hconverts f List.mem_cons_self)

theorem foreign_transparent {path : Path} (h : path.names ∈ transparentPaths) {written : String}
    {function : Option String} (hcalled : calledType? path.names = some (written, function)) :
    Name.short written ∈ foreignTypes := by
  have hall : ∀ names ∈ transparentPaths,
      ∀ found ∈ calledType? names, Name.short found.1 ∈ foreignTypes := by
    decide
  exact hall path.names h _ hcalled

theorem constructionAt?_wrapper (w : Wrapper) (e : Expr) :
    constructionAt? v.context (w.around e) = none := by
  cases w with
  | paren | reference | await | attempt | method => rfl
  | call path inner hpath =>
    rw [constructionAt?, Wrapper.around, written?]
    cases hcalled : calledType? path.names with
    | none => rfl
    | some found =>
      have hforeign := foreign_transparent hpath hcalled
      simp [hforeign]

theorem called?_wrapper (w : Wrapper) (e : Expr) : called? (w.around e) = w.name? := by
  cases w <;> rfl

theorem nodes_wrapper (into : Expr → Bool) (w : Wrapper) (e : Expr) (h : into (w.around e) = true) :
    ∃ before after, nodesOfAll into w.parts = before ++ after ∧
      (w.around e).nodes into = w.around e :: (before ++ e.nodes into ++ after) := by
  cases w with
  | paren | reference | await | attempt =>
    refine ⟨[], [], rfl, ?_⟩
    rw [Wrapper.around, Expr.nodes, Expr.enter, List.nil_append, List.append_nil]
    exact congrArg _ (if_pos h)
  | call path inner hpath =>
    refine ⟨nodesOfAll into [.path path inner], [], (List.append_nil _).symm, ?_⟩
    rw [Wrapper.around, Expr.nodes, Expr.enter, nodesOfAll, nodesOfAll, nodesOfAll, nodesOfAll,
      List.append_nil, List.append_nil, List.append_nil]
    exact congrArg _ (if_pos h)
  | method name inner args hname hargs =>
    refine ⟨[], nodesOfAll into (inner ++ args), rfl, ?_⟩
    rw [Wrapper.around, Expr.nodes, Expr.enter, Route.nodesOfAll_append, List.nil_append,
      List.append_assoc]
    exact congrArg _ (if_pos h)

theorem Quiet.firstConstruction? {w : Wrapper} (h : v.Quiet w) (e : Expr) :
    firstConstruction? v.context (w.around e) = firstConstruction? v.context e := by
  have hinto : isImmediate (w.around e) = true := by cases w <;> rfl
  obtain ⟨before, after, hparts, hnodes⟩ := nodes_wrapper isImmediate w e hinto
  have hbefore : before.findSome? (constructionAt? v.context) = none :=
    List.findSome?_eq_none_iff.mpr fun x hx =>
      h.constructions x (hparts ▸ List.mem_append_left _ hx)
  have hafter : after.findSome? (constructionAt? v.context) = none :=
    List.findSome?_eq_none_iff.mpr fun x hx =>
      h.constructions x (hparts ▸ List.mem_append_right _ hx)
  rw [Handler.firstConstruction?, hnodes, List.findSome?_cons, constructionAt?_wrapper,
    List.findSome?_append, List.findSome?_append, hbefore, hafter, Option.none_or, Option.or_none,
    Handler.firstConstruction?]

theorem Quiet.gather {w : Wrapper} (h : v.Quiet w) (e : Expr) : GatherAlike v (w.around e) e := by
  intro has hhas
  have hinto : (!isClosure (w.around e)) = true := by cases w <;> rfl
  obtain ⟨before, after, hparts, hnodes⟩ := nodes_wrapper (fun x => !isClosure x) w e hinto
  have hnone : ∀ x ∈ before ++ after, (called? x).any has = false := by
    intro x hx
    have hquiet := Option.filter_eq_none_iff.mp (h.calls x (hparts ▸ hx))
    cases hcalled : called? x with
    | none => rfl
    | some name =>
      exact Bool.eq_false_iff.mpr fun hname => hquiet name hcalled (hhas name hname)
  have hself : (called? (w.around e)).any has = false := by
    rw [called?_wrapper]
    cases hname : w.name? with
    | none => rfl
    | some name =>
      refine Bool.eq_false_iff.mpr fun htrue => ?_
      exact Bool.false_ne_true ((h.name name hname).symm.trans (hhas name htrue))
  have hbefore : (before.any fun x => (called? x).any has) = false :=
    List.any_eq_false.mpr fun x hx => Bool.eq_false_iff.mp (hnone x (List.mem_append_left _ hx))
  have hafter : (after.any fun x => (called? x).any has) = false :=
    List.any_eq_false.mpr fun x hx => Bool.eq_false_iff.mp (hnone x (List.mem_append_right _ hx))
  rw [any_calledNames, any_calledNames, hnodes, List.any_cons, List.any_append, List.any_append,
    hself, hbefore, hafter, Bool.false_or, Bool.false_or, Bool.or_false]

theorem readAlike_of_quiet {ws : List Wrapper} (h : ∀ w ∈ ws, v.Quiet w) (e : Expr) :
    v.ReadAlike (Wrapper.stack ws e) e := by
  refine ⟨evaluate_congr_peel (Wrapper.peel_stack ws e), ?_, ?_⟩
  · have hfirst :
        firstConstruction? v.context (Wrapper.stack ws e) = firstConstruction? v.context e := by
      induction ws with
      | nil => rfl
      | cons w ws ih =>
        exact ((h w List.mem_cons_self).firstConstruction? _).trans
          (ih fun u hu => h u (List.mem_cons_of_mem _ hu))
    rw [hfirst]
    exact agree_refl _
  · intro has hhas
    induction ws with
    | nil => rfl
    | cons w ws ih =>
      exact ((h w List.mem_cons_self).gather _ has hhas).trans
        (ih fun u hu => h u (List.mem_cons_of_mem _ hu))

theorem transforms_iff {f : Frame} : v.Transforms f ↔
    ∃ found, constructionAt? v.context (.call f.callee []) = some found ∧
      v.context.has found.type .transformer = true := by
  rw [constructionAt?, Frame.callee, written?]
  constructor
  · rintro ⟨written, function, hcalled, hforeign, htransformer⟩
    have hclassified : v.context.isClassified (v.context.resolve written) = true := by
      refine (Bool.not_eq_false _).mp fun hnone => ?_
      rw [isClassified_eq_false hnone] at htransformer
      cases htransformer
    refine ⟨⟨v.context.resolve written, function, none⟩, ?_, htransformer⟩
    rw [hcalled]
    simp [hforeign, hclassified]
  · rintro ⟨found, hfound, htransformer⟩
    cases hcalled : calledType? f.path.names with
    | none => simp [hcalled] at hfound
    | some called =>
      obtain ⟨written, function⟩ := called
      simp only [hcalled, Option.map_some] at hfound
      split at hfound
      · cases hfound
      next hforeign =>
        split at hfound
        · cases hfound
          exact ⟨written, function, hcalled, by simpa using hforeign, htransformer⟩
        · cases hfound

/-- Expressions in which the same is found first, whose shape does not depend on where it stands. -/
structure FixedAlike (v : Evaluator) (e e' : Expr) : Prop where
  evaluate : v.evaluate e = v.evaluate e'
  first : ∃ found found', firstConstruction? v.context e = some found ∧
      firstConstruction? v.context e' = some found' ∧ v.Agree found found' ∧ v.Fixed found

theorem fixed_of_first {f : Frame} {e e' : Expr} (hconverts : ¬ f.Converts)
    (h : v.evaluate e = v.evaluate e')
    (hfirst : ∃ found found', firstConstruction? v.context (f.around e) = some found ∧
        firstConstruction? v.context (f.around e') = some found' ∧ v.Agree found found' ∧
        v.Fixed found) : FixedAlike v (f.around e) (f.around e') := by
  refine ⟨evaluate_around_congr hconverts h ?_, hfirst⟩
  obtain ⟨found, found', hsome, hsome', hagree, hfixed⟩ := hfirst
  rw [hsome, hsome']
  exact congrArg some (hagree.read_eq_of_fixed hfixed _ _)

theorem FixedAlike.of_transforms {f : Frame} (htransforms : v.Transforms f)
    (hconverts : ¬ f.Converts) {e e' : Expr} (h : v.evaluate e = v.evaluate e') :
    FixedAlike v (f.around e) (f.around e') := by
  obtain ⟨found, hfound, htransformer⟩ := transforms_iff.mp htransforms
  refine fixed_of_first hconverts h ⟨{ found with first := some e },
    { found with first := some e' }, ?_, ?_, ⟨rfl, rfl, congrArg some h⟩, .inl htransformer⟩
  · rw [firstConstruction?_around, constructionAt?_around, hfound]
    rfl
  · rw [firstConstruction?_around, constructionAt?_around, hfound]
    rfl

/-- A silent call either constructs something without capabilities, which has the shape of its name,
or leaves what is found first to what it is given. -/
theorem FixedAlike.of_silent {f : Frame} (hsilent : v.Silent f) (hconverts : ¬ f.Converts)
    {e e' : Expr} (h : FixedAlike v e e') : FixedAlike v (f.around e) (f.around e') := by
  have hnodes : (Expr.call f.callee []).nodes isImmediate =
      .call f.callee [] :: f.callee.nodes isImmediate := by
    rw [Expr.nodes, Expr.enter, nodesOfAll, List.append_nil]
    rfl
  refine fixed_of_first hconverts h.evaluate ?_
  rw [firstConstruction?_around, firstConstruction?_around, constructionAt?_around,
    constructionAt?_around]
  cases hself : constructionAt? v.context (.call f.callee []) with
  | some found =>
    have hclassified := hsilent _ (hnodes ▸ List.mem_cons_self) found hself
    exact ⟨_, _, rfl, rfl, ⟨rfl, rfl, congrArg some h.evaluate⟩,
      .inr (isClassified_eq_false hclassified _)⟩
  | none =>
    cases hcallee : firstConstruction? v.context f.callee with
    | some found =>
      obtain ⟨x, hx, hfound⟩ := List.exists_of_findSome?_eq_some hcallee
      have hclassified := hsilent x (hnodes ▸ List.mem_cons_of_mem _ hx) found hfound
      exact ⟨found, found, rfl, rfl, .refl found, .inr (isClassified_eq_false hclassified _)⟩
    | none =>
      obtain ⟨found, found', hsome, hsome', hagree, hfixed⟩ := h.first
      exact ⟨found, found', by rw [hsome]; rfl, by rw [hsome']; rfl, hagree, hfixed⟩

theorem FixedAlike.stack {fs : List Frame} (hconverts : ∀ f ∈ fs, ¬ f.Converts)
    (hall : ∀ f ∈ fs, v.Transforms f ∨ v.Silent f) (hlast : ∀ f ∈ fs.getLast?, v.Transforms f)
    (hfs : fs ≠ []) {e e' : Expr} (h : v.evaluate e = v.evaluate e') :
    FixedAlike v (Frame.stack fs e) (Frame.stack fs e') := by
  induction fs with
  | nil => exact absurd rfl hfs
  | cons f fs ih =>
    have hself := hconverts f List.mem_cons_self
    cases fs with
    | nil => exact .of_transforms (hlast f rfl) hself h
    | cons g fs =>
      have hinside := ih (fun k hk => hconverts k (List.mem_cons_of_mem _ hk))
        (fun k hk => hall k (List.mem_cons_of_mem _ hk))
        (fun k hk => hlast k (by rwa [List.getLast?_cons_cons])) (List.cons_ne_nil g fs)
      -- a transformer hides everything inside it, so that a silent call needs one further inside
      rcases hall f List.mem_cons_self with htransforms | hsilent
      · exact .of_transforms htransforms hself hinside.evaluate
      · exact .of_silent hsilent hself hinside

/-- The shape of nested calls does not depend on wrappers that they do not read. -/
theorem evaluate_stack {fs : List Frame} (hconverts : ∀ f ∈ fs, ¬ f.Converts) {ws : List Wrapper}
    (h : v.Unread fs ws) (e : Expr) :
    v.evaluate (Frame.stack fs (Wrapper.stack ws e)) = v.evaluate (Frame.stack fs e) := by
  have hpeel : v.evaluate (Wrapper.stack ws e) = v.evaluate e :=
    evaluate_congr_peel (Wrapper.peel_stack ws e)
  rcases h with hquiet | ⟨hall, hlast⟩
  · exact ((readAlike_of_quiet hquiet e).stack hconverts).evaluate
  · by_cases hfs : fs = []
    · rw [hfs]
      exact hpeel
    · exact (FixedAlike.stack hconverts hall hlast hfs hpeel).evaluate

theorem status?_stack (ws : List Wrapper) (e : Expr) :
    v.status? (Wrapper.stack ws e) = v.status? e := by
  induction ws with
  | nil => rfl
  | cons w ws ih => exact (v.status?_around w _).trans ih

theorem status?_frame {f : Frame} {e e' : Expr} (h : v.status? e = v.status? e') :
    v.status? (f.around e) = v.status? (f.around e') := by
  obtain ⟨path, inner, rest⟩ := f
  cases rest with
  | cons second rest => rfl
  | nil => rw [Frame.around, Frame.around, status?, status?, h]

theorem status?_frames (fs : List Frame) {e e' : Expr} (h : v.status? e = v.status? e') :
    v.status? (Frame.stack fs e) = v.status? (Frame.stack fs e') := by
  induction fs with
  | nil => exact h
  | cons f fs ih => exact status?_frame ih

theorem bareStatus?_around {f : Frame} {e e' : Expr} (h : v.status? e = v.status? e') :
    v.bareStatus? (f.around e) = v.bareStatus? (f.around e') := by
  have hstatus := status?_frame (f := f) h
  rw [Frame.around, Frame.around] at *
  rw [bareStatus?, bareStatus?, hstatus]

theorem transformed?_around (f : Frame) {e e' : Expr} (h : v.evaluate e = v.evaluate e') :
    v.transformed? (f.around e) = v.transformed? (f.around e') := by
  have hroot : ∀ x, chainRoot (f.around x) = f.around x := fun _ => rfl
  rw [transformed?, transformed?, hroot, hroot]
  rcases none_or_of_rel (agree_constructionAt?_around f h) with
      ⟨hnone, hnone'⟩ | ⟨found, found', hsome, hsome', hagree⟩
  · rw [hnone, hnone']
  · rw [hsome, hsome']
    dsimp only
    rw [← hagree.type]
    split
    next htransformer => exact congrArg some (hagree.read_eq_of_fixed (.inl htransformer) _ _)
    next => rfl

theorem Transforms.transformed?_isSome {f : Frame} (h : v.Transforms f) (e : Expr) :
    (v.transformed? (f.around e)).isSome = true := by
  obtain ⟨found, hfound, htransformer⟩ := transforms_iff.mp h
  have hroot : chainRoot (f.around e) = f.around e := rfl
  rw [transformed?, hroot, constructionAt?_around, hfound, Option.map_some]
  dsimp only
  rw [if_pos htransformer]
  rfl

theorem Responds.responder? {f : Frame} (h : v.Responds f) (e : Expr) :
    v.responder? (f.around e) = some (e, f.rest) := by
  have hself : v.responded? (f.around e) = some (e, f.rest) := if_pos h
  rw [Evaluator.responder?, nodes_around _ f e rfl, List.findSome?_cons, hself]

variable (v)

def respond (found : Layers) : Response :=
  match v.bareStatus? found.payload with
  | some code => ⟨code, .literal .null⟩
  | none =>
    match v.transformed? found.payload with
    | some shape => ⟨found.fallback, shape⟩
    | none =>
      match v.responder? found.payload with
      | some (body, rest) => ⟨(rest.head?.bind v.status?).getD found.fallback, v.evaluate body⟩
      | none => ⟨found.fallback, v.evaluate found.payload⟩

variable {v}

theorem response_eq (e : Expr) : v.response e = v.respond (v.layers none false e) := rfl

theorem respond_around {f : Frame} (hf : v.Responds f ∨ v.Transforms f) (status : Option Nat)
    (failed : Bool) {e e' : Expr} (hstatus : v.status? e = v.status? e')
    (h : v.evaluate e = v.evaluate e') :
    v.respond ⟨status, failed, f.around e⟩ = v.respond ⟨status, failed, f.around e'⟩ := by
  rw [respond, respond, bareStatus?_around hstatus, transformed?_around f h]
  dsimp only
  cases v.bareStatus? (f.around e') with
  | some code => rfl
  | none =>
    cases htransformed : v.transformed? (f.around e') with
    | some shape => rfl
    | none =>
      rcases hf with hresponds | htransforms
      · rw [hresponds.responder?, hresponds.responder?]
        dsimp only
        rw [h]
        rfl
      · have hsome := htransforms.transformed?_isSome e'
        rw [htransformed] at hsome
        cases hsome

/-- What is known of a return goes on inside a call, or the call is the payload. -/
theorem layers_around (f : Frame) (status : Option Nat) (failed : Bool) :
    (∃ failed', ∀ e, v.layers status failed (f.around e) = v.layers status failed' e) ∨
      ∀ e, v.layers status failed (f.around e) = ⟨status, failed, f.around e⟩ := by
  obtain ⟨path, inner, rest⟩ := f
  cases rest with
  | cons second rest => exact .inr fun _ => rfl
  | nil =>
    by_cases htransparent : isTransparentCall (.path path inner) = true
    · exact .inl ⟨failed, fun e => by rw [Frame.around, Frame.callee, layers, if_pos htransparent]⟩
    · by_cases herror : callName? (.path path inner) = some "Err"
      · exact .inl ⟨true,
          fun e => by rw [Frame.around, Frame.callee, layers, if_neg htransparent, if_pos herror]⟩
      · exact .inr fun e =>
          by rw [Frame.around, Frame.callee, layers, if_neg htransparent, if_neg herror]

theorem Unread.tail {f : Frame} {fs : List Frame} {ws : List Wrapper} (h : v.Unread (f :: fs) ws) :
    v.Unread fs ws := by
  rcases h with hquiet | ⟨hall, hlast⟩
  · exact .inl hquiet
  · refine .inr ⟨fun g hg => hall g (List.mem_cons_of_mem _ hg), ?_⟩
    cases fs with
    | nil => nofun
    | cons g fs => exact hlast

theorem respond_stack {fs : List Frame} {ws : List Wrapper}
    (hcalls : ∀ f ∈ fs, v.Responds f ∨ v.Transforms f) (hconverts : ∀ f ∈ fs.tail, ¬ f.Converts)
    (h : v.Unread fs.tail ws) (status : Option Nat) (failed : Bool) (e : Expr) :
    v.respond (v.layers status failed (Frame.stack fs (Wrapper.stack ws e))) =
      v.respond (v.layers status failed (Frame.stack fs e)) := by
  induction fs generalizing failed with
  | nil => exact congrArg v.respond (v.layers_stack ws status failed e)
  | cons f fs ih =>
    have hinside : ∀ g ∈ fs.tail, ¬ g.Converts := fun g hg => hconverts g (List.mem_of_mem_tail hg)
    have htail : v.Unread fs.tail ws := by
      cases fs with
      | nil => exact h
      | cons g fs => exact Unread.tail h
    rcases v.layers_around f status failed with ⟨failed', hlayers⟩ | hlayers
    · -- the call is itself a transparent form or an error
      refine (congrArg v.respond (hlayers _)).trans
        (.trans ?_ (congrArg v.respond (hlayers _)).symm)
      exact ih (fun g hg => hcalls g (List.mem_cons_of_mem _ hg)) hinside htail failed'
    · refine (congrArg v.respond (hlayers _)).trans
        (.trans ?_ (congrArg v.respond (hlayers _)).symm)
      exact respond_around (hcalls f List.mem_cons_self) status failed
        (status?_frames fs (status?_stack ws e)) (evaluate_stack hconverts h e)

/-- A response does not depend on transparent forms around what its payload is made of, nor on those
around the payload itself. -/
theorem response_stack (ls : List v.Layer) {fs : List Frame} {ws : List Wrapper}
    (hcalls : ∀ f ∈ fs, v.Responds f ∨ v.Transforms f) (hconverts : ∀ f ∈ fs.tail, ¬ f.Converts)
    (hunread : v.Unread fs.tail ws) (e : Expr) :
    v.response (Layer.enclose ls (Frame.stack fs (Wrapper.stack ws e))) =
      v.response (Layer.enclose ls (Frame.stack fs e)) := by
  rw [response_eq, response_eq, layers_enclose, layers_enclose]
  exact respond_stack hcalls hconverts hunread _ _ e

end Evaluator

def frameOf (names : List String) : Frame := ⟨pathTo names, [], []⟩

def presented : List Frame := [frameOf ["Json"], frameOf ["UserResource", "new"]]

def taking : List Wrapper :=
  [.reference, .method "unwrap" [] [] (by decide) length_nil_le_one, .await]

theorem response_of_presented : presenter.response
      (Evaluator.Layer.enclose conflict (Frame.stack presented (Wrapper.stack taking taken))) =
    presenter.response (Evaluator.Layer.enclose conflict (Frame.stack presented taken)) := by
  have htransforms : presenter.Transforms (frameOf ["UserResource", "new"]) :=
    ⟨"UserResource", some "new", by decide, by decide, by decide⟩
  have hresponds : presenter.Responds (frameOf ["Json"]) := by
    rw [Evaluator.Responds]
    decide
  refine Evaluator.response_stack conflict ?_ ?_ ?_ taken
  · intro f hf
    obtain rfl | rfl : f = frameOf ["Json"] ∨ f = frameOf ["UserResource", "new"] := by
      simpa [presented] using hf
    · exact .inl hresponds
    · exact .inr htransforms
  · intro f hf
    obtain rfl : f = frameOf ["UserResource", "new"] := by simpa [presented] using hf
    rintro ⟨-, owner, -, howner⟩
    cases howner
  · refine .inr ⟨?_, ?_⟩
    · intro f hf
      obtain rfl : f = frameOf ["UserResource", "new"] := by simpa [presented] using hf
      exact .inl htransforms
    · intro f hf
      obtain rfl : frameOf ["UserResource", "new"] = f := by simpa [presented] using hf
      exact htransforms

def crowded : Evaluator where
  context :=
    { presenter.context with
      capabilities := CapabilityIndex.classifier ⟨fun
        | .domainObject => ["crate::User"]
        | .transformer =>
          ["crate::UserResource", "String", "crate::page", "crate::Map", "other::UserResource"]
        | .validator => []⟩ }
  parameters := []
  environment := []

def stored : Expr := .call (.path (pathTo ["User", "find"]) []) [.lit (.integer 1 "")]

def expecting : Wrapper :=
  .method "expect" [] [.method (.path (.ofIdent "names") []) "paginate" [] []] (by decide)
    (by decide)

def okaying : Wrapper := .call (pathTo ["Ok"]) [] (by decide)

/-- Transparent forms are seen where the name of a transformer is that of a foreign type or has no
capital, or its function has one, where a responder is given to another call, and where a nested
call makes a text or an object. -/
theorem response_sees_wrapper :
    (∀ name ∈ ["String", "page", "other::UserResource", "UserResource", "Map"],
      crowded.context.has (crowded.context.resolve name) .transformer = true) ∧
    (crowded.Responds (frameOf ["Json"]) ∧
      crowded.context.isClassified (crowded.context.resolve "Json") = false) ∧
    (let text := Expr.lit (.string "a")
     crowded.response ((frameOf ["String", "from"]).around (okaying.around text)) ≠
      crowded.response ((frameOf ["String", "from"]).around text)) ∧
    crowded.response ((frameOf ["page", "new"]).around (expecting.around stored)) ≠
      crowded.response ((frameOf ["page", "new"]).around stored) ∧
    crowded.response ((frameOf ["other", "UserResource", "Make"]).around
      (expecting.around stored)) ≠
      crowded.response ((frameOf ["other", "UserResource", "Make"]).around stored) ∧
    (let nested := [frameOf ["UserResource", "new"], frameOf ["Json"]]
     crowded.response (Frame.stack nested (expecting.around stored)) ≠
      crowded.response (Frame.stack nested stored)) ∧
    (let nested := [frameOf ["Json"], frameOf ["Map", "from"]]
     let pairs := Expr.array [.tuple [.lit (.string "a"), .lit (.integer 1 "")]]
     crowded.response (Frame.stack nested (okaying.around pairs)) ≠
       crowded.response (Frame.stack nested pairs)) := by
  have of_rank :
      ∀ {a b : Response}, Response.shapeRank a.shape ≠ Response.shapeRank b.shape → a ≠ b :=
    fun h hab => h (congrArg (fun response => Response.shapeRank response.shape) hab)
  have of_page : ∀ {a b : Response}, a.shape.isPaginated ≠ b.shape.isPaginated → a ≠ b :=
    fun h hab => h (congrArg (fun response => response.shape.isPaginated) hab)
  have hresponds : crowded.Responds (frameOf ["Json"]) := by
    rw [Evaluator.Responds]
    decide
  refine ⟨by decide, ⟨hresponds, by decide⟩, of_rank ?_, of_page ?_, of_page ?_,
    of_page ?_, of_rank ?_⟩
  · decide +kernel
  · decide +kernel
  · decide +kernel
  · decide +kernel
  · decide +kernel

end ApiContract.Handler
