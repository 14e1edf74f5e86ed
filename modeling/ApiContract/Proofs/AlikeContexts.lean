import ApiContract.Handler.Analysis
import ApiContract.Proofs.RespelledValues
import ApiContract.Proofs.ScanRuns
import Mathlib.Data.List.Forall2

namespace ApiContract

variable {R : String → String → Prop}

/-- Shapes that are made in the same way, of types whose names are related. -/
inductive Shape.Alike (R : String → String → Prop) : Shape → Shape → Prop where
  | literal (value : Json) : Alike R (.literal value) (.literal value)
  | wrapped {type type' : String} {source source' : Shape} (collection paginated : Bool)
      (htype : R type type') (hsource : Alike R source source') :
      Alike R (.wrapped type collection paginated source)
        (.wrapped type' collection paginated source')
  | raw {type type' : String} (collection paginated : Bool) (htype : R type type') :
      Alike R (.raw type collection paginated) (.raw type' collection paginated)
  | unresolved : Alike R .unresolved .unresolved

namespace Shape.Alike

theorem ofType {type type' : String} (h : R type type') : Alike R (.ofType type) (.ofType type') :=
  .raw false false h

theorem isPaginated_eq {shape shape' : Shape} (h : Alike R shape shape') :
    shape.isPaginated = shape'.isPaginated := by
  cases h <;> rfl

theorem paginate {shape shape' : Shape} (h : Alike R shape shape') :
    Alike R shape.paginate shape'.paginate := by
  cases h with
  | literal value => exact .literal value
  | wrapped _ _ htype hsource => exact .wrapped true true htype hsource
  | raw _ _ htype => exact .raw true true htype
  | unresolved => exact .unresolved

theorem eq {shape shape' : Shape} (h : Alike Eq shape shape') : shape = shape' := by
  induction h with
  | literal | unresolved => rfl
  | wrapped _ _ htype _ ih => rw [htype, ih]
  | raw _ _ htype => rw [htype]

end Shape.Alike

structure Parameter.Alike (R : String → String → Prop) (p p' : Parameter) : Prop where
  name : p.name = p'.name
  kind : p.kind = p'.kind
  type : Option.Rel R p.type p'.type

structure Response.Alike (R : String → String → Prop) (r r' : Response) : Prop where
  status : r.status = r'.status
  shape : r.shape.Alike R r'.shape

/-- Handlers that differ in the names of types at most. -/
structure Handler.Alike (R : String → String → Prop) (handler handler' : Handler) : Prop where
  name : handler.name = handler'.name
  summary : handler.summary = handler'.summary
  description : handler.description = handler'.description
  parameters : List.Forall₂ (Parameter.Alike R) handler.parameters handler'.parameters
  validator : Option.Rel R handler.validator handler'.validator
  responses : List.Forall₂ (Response.Alike R) handler.responses handler'.responses

theorem eq_of_rel {α : Type} {o o' : Option α} (h : Option.Rel Eq o o') : o = o' := by
  cases h with
  | none => rfl
  | some h => rw [h]

theorem Parameter.Alike.eq {p p' : Parameter} (h : p.Alike Eq p') : p = p' := by
  obtain ⟨hname, hkind, htype⟩ := h
  have htype := eq_of_rel htype
  cases p
  cases p'
  simp_all

theorem Response.Alike.eq {r r' : Response} (h : r.Alike Eq r') : r = r' := by
  obtain ⟨hstatus, hshape⟩ := h
  have hshape := hshape.eq
  cases r
  cases r'
  simp_all

theorem Handler.Alike.eq {handler handler' : Handler} (h : handler.Alike Eq handler') :
    handler = handler' := by
  obtain ⟨hname, hsummary, hdescription, hparameters, hvalidator, hresponses⟩ := h
  have hparameters : handler.parameters = handler'.parameters :=
    List.forall₂_eq_eq_eq ▸ hparameters.imp fun _ _ => Parameter.Alike.eq
  have hvalidator := eq_of_rel hvalidator
  have hresponses : handler.responses = handler'.responses :=
    List.forall₂_eq_eq_eq ▸ hresponses.imp fun _ _ => Response.Alike.eq
  cases handler
  cases handler'
  simp_all

/-- Names of types that two classifiers do not tell apart, and that are both names of plain values
or of things of the project, or both are not. -/
structure Classifier.Agree (classifier classifier' : Classifier) (type type' : String) : Prop where
  has : ∀ capability, classifier.has type capability = classifier'.has type' capability
  native : Name.isNative type = Name.isNative type'
  own : "crate::".toList.isPrefixOf type.toList = "crate::".toList.isPrefixOf type'.toList

namespace Handler

open Source

/-- What is written means related types in both contexts, and related types are told alike. -/
structure Context.Alike (R : String → String → Prop) (c c' : Context) : Prop where
  conventions : c.conventions = c'.conventions
  resolve : ∀ name, R (c.resolve name) (c'.resolve name)
  native : ∀ name, Name.isNative name = true → R name name
  agree : ∀ {type type'}, R type type' → c.capabilities.Agree c'.capabilities type type'

namespace Context.Alike

variable {c c' : Context} {type type' : String}

theorem has_eq (h : c.Alike R c') (htype : R type type') (capability : Capability) :
    c.has type capability = c'.has type' capability := (h.agree htype).has capability

theorem isClassified_eq (h : c.Alike R c') (htype : R type type') :
    c.isClassified type = c'.isClassified type' := by
  have hhas : c.capabilities.has type = c'.capabilities.has type' := funext (h.agree htype).has
  rw [isClassified, Classifier.classify, hhas]
  rfl

end Context.Alike

def Environment.Alike (R : String → String → Prop) (env env' : Environment) : Prop :=
  ∀ name, Option.Rel (Shape.Alike R) (env.lookup name) (env'.lookup name)

namespace Environment.Alike

theorem nil : Environment.Alike R [] [] := fun _ => .none

theorem bind {env env' : Environment} (h : Environment.Alike R env env') (name : String)
    {shape shape' : Shape} (hshape : shape.Alike R shape') :
    Environment.Alike R (env.bind name shape) (env'.bind name shape') := by
  intro other
  by_cases hname : other = name
  · rw [hname, Environment.lookup_bind_self, Environment.lookup_bind_self]
    exact .some hshape
  · rw [Environment.lookup_bind_of_ne hname, Environment.lookup_bind_of_ne hname]
    exact h other

/-- The names of literals are bound to the same literals. -/
theorem localValue?_eq {env env' : Environment} (h : Environment.Alike R env env') (name : String) :
    localValue? env name = localValue? env' name := by
  rw [localValue?, localValue?]
  split
  · rfl
  · rcases none_or_of_rel (h name) with ⟨hnone, hnone'⟩ | ⟨shape, shape', hsome, hsome', hshape⟩
    · rw [hnone, hnone']
    · rw [hsome, hsome']
      cases hshape <;> rfl

end Environment.Alike

section

variable {c c' : Context} {env env' : Environment}

mutual

theorem value?_alike (h : c.Alike R c') (henv : Environment.Alike R env env') (e : Expr) :
    value? c env e = value? c' env' e := by
  match e with
  | .paren e | .reference e | .negate e => rw [value?, value?, value?_alike h henv e]
  | .path path inner =>
    rw [value?, value?]
    exact congrArg path.ident?.bind (funext henv.localValue?_eq)
  | .tuple (e :: rest) => rw [value?, value?, values_alike h henv (e :: rest)]
  | .array elements | .vec elements => rw [value?, value?, values_alike h henv elements]
  | .json template => rw [value?, value?, templateValue?_alike h henv template]
  | .record path _ fields _ =>
    rw [value?, value?, h.isClassified_eq (h.resolve path.text),
      fieldValues_alike h henv fields]
  | .call callee [arg] =>
    rw [value?, value?, value?_alike h henv arg, entriesIn_alike h henv arg]
  | .method receiver name _ [] => rw [value?, value?, value?_alike h henv receiver]
  | .lit _ | .tuple [] | .call _ [] | .call _ (_ :: _ :: _) | .method _ _ _ (_ :: _) => rfl
  | .field _ | .index .. | .await _ | .attempt _ | .assign .. | .ret _ | .closure _ => rfl
  | .async _ | .branch .. | .cases .. | .block _ | .unchecked _ | .expansion | .compound _ => rfl

theorem values_alike (h : c.Alike R c') (henv : Environment.Alike R env env') (es : List Expr) :
    values c env es = values c' env' es := by
  match es with
  | [] => rfl
  | e :: rest => rw [values, values, value?_alike h henv e, values_alike h henv rest]

theorem fieldValues_alike (h : c.Alike R c') (henv : Environment.Alike R env env')
    (fields : List FieldInit) : fieldValues c env fields = fieldValues c' env' fields := by
  match fields with
  | [] => rfl
  | .mk none _ :: rest => rw [fieldValues, fieldValues, fieldValues_alike h henv rest]
  | .mk (some _) e :: rest =>
    rw [fieldValues, fieldValues, value?_alike h henv e, fieldValues_alike h henv rest]

theorem entriesIn_alike (h : c.Alike R c') (henv : Environment.Alike R env env') (e : Expr) :
    entriesIn c env e = entriesIn c' env' e := by
  match e with
  | .array entries => rw [entriesIn, entriesIn, pairValues_alike h henv entries]
  | .lit _ | .path .. | .paren _ | .reference _ | .negate _ | .tuple _ | .record .. => rfl
  | .call .. | .method .. | .field _ | .index .. | .await _ | .attempt _ | .assign .. => rfl
  | .ret _ | .closure _ | .async _ | .branch .. | .cases .. | .block _ | .unchecked _ => rfl
  | .json _ | .vec _ | .expansion | .compound _ => rfl

theorem pairValues_alike (h : c.Alike R c') (henv : Environment.Alike R env env')
    (es : List Expr) : pairValues c env es = pairValues c' env' es := by
  match es with
  | [] => rfl
  | e :: rest =>
    rw [pairValues, pairValues, pairValue?_alike h henv e, pairValues_alike h henv rest]

theorem pairValue?_alike (h : c.Alike R c') (henv : Environment.Alike R env env') (e : Expr) :
    pairValue? c env e = pairValue? c' env' e := by
  match e with
  | .tuple [key, value] =>
    rw [pairValue?, pairValue?, value?_alike h henv key, value?_alike h henv value]
  | .tuple [] | .tuple [_] | .tuple (_ :: _ :: _ :: _) => rfl
  | .lit _ | .path .. | .paren _ | .reference _ | .negate _ | .array _ | .record .. => rfl
  | .call .. | .method .. | .field _ | .index .. | .await _ | .attempt _ | .assign .. => rfl
  | .ret _ | .closure _ | .async _ | .branch .. | .cases .. | .block _ | .unchecked _ => rfl
  | .json _ | .vec _ | .expansion | .compound _ => rfl

theorem templateValue?_alike (h : c.Alike R c') (henv : Environment.Alike R env env')
    (template : Template) : templateValue? c env template = templateValue? c' env' template := by
  match template with
  | .null => rfl
  | .value e => rw [templateValue?, templateValue?, value?_alike h henv e]
  | .array items => rw [templateValue?, templateValue?, templateValues_alike h henv items]
  | .object entries => rw [templateValue?, templateValue?, templateEntries_alike h henv entries]

theorem templateValues_alike (h : c.Alike R c') (henv : Environment.Alike R env env')
    (templates : List Template) :
    templateValues c env templates = templateValues c' env' templates := by
  match templates with
  | [] => rfl
  | template :: rest =>
    rw [templateValues, templateValues, templateValue?_alike h henv template,
      templateValues_alike h henv rest]

theorem templateEntries_alike (h : c.Alike R c') (henv : Environment.Alike R env env')
    (entries : List TemplateEntry) :
    templateEntries c env entries = templateEntries c' env' entries := by
  match entries with
  | [] => rfl
  | .mk key value :: rest =>
    rw [templateEntries, templateEntries, templateKey?_alike h henv key,
      templateValue?_alike h henv value, templateEntries_alike h henv rest]

theorem templateKey?_alike (h : c.Alike R c') (henv : Environment.Alike R env env')
    (key : TemplateKey) : templateKey? c env key = templateKey? c' env' key := by
  match key with
  | .text _ => rfl
  | .value e => rw [templateKey?, templateKey?, value?_alike h henv e]

end

end

/-- Constructions of related types. -/
structure Construction.Alike (R : String → String → Prop) (found found' : Construction) : Prop where
  type : R found.type found'.type
  function : found.function = found'.function
  first : found.first = found'.first

section

variable {c c' : Context} (h : c.Alike R c')
include h

theorem constructionAt?_rel (e : Expr) :
    Option.Rel (Construction.Alike R) (constructionAt? c e) (constructionAt? c' e) := by
  rw [constructionAt?, constructionAt?]
  cases written? e with
  | none => exact .none
  | some found =>
    obtain ⟨written, function, first⟩ := found
    have htype := h.resolve written
    dsimp only
    rw [h.isClassified_eq htype, (h.agree htype).own]
    split
    · exact .none
    · split
      · exact .some ⟨htype, rfl, rfl⟩
      · exact .none

theorem firstConstruction?_rel (e : Expr) :
    Option.Rel (Construction.Alike R) (firstConstruction? c e) (firstConstruction? c' e) :=
  findSome?_alike (r := Eq) (List.forall₂_same.mpr fun _ _ => rfl) fun x _ hx =>
    hx ▸ constructionAt?_rel h x

end

/-- Evaluators in related contexts, with related types of all names. -/
structure Evaluator.Alike (R : String → String → Prop) (v v' : Evaluator) : Prop where
  context : v.context.Alike R v'.context
  parameters : List.Forall₂ (Parameter.Alike R) v.parameters v'.parameters
  environment : Environment.Alike R v.environment v'.environment

namespace Evaluator

section

variable {v v' : Evaluator} (h : v.Alike R v')
include h

omit h in
theorem find?_rel {α : Type} {r : α → α → Prop} {xs ys : List α} {p : α → Bool}
    (hxs : List.Forall₂ r xs ys) (hp : ∀ x y, r x y → p x = p y) :
    Option.Rel r (xs.find? p) (ys.find? p) := by
  induction hxs with
  | nil => exact .none
  | @cons x y xs ys hxy _ ih =>
    rw [List.find?_cons, List.find?_cons, hp x y hxy]
    split
    · exact .some hxy
    · exact ih

theorem parameterShape?_alike (name : String) :
    Option.Rel (Shape.Alike R) (v.parameterShape? name) (v'.parameterShape? name) := by
  have hfind := find?_rel (p := fun p => p.name == name) h.parameters fun _ _ hp => by
    rw [hp.name]
  rw [parameterShape?, parameterShape?]
  rcases none_or_of_rel hfind with
    ⟨hnone, hnone'⟩ | ⟨⟨name, kind, type⟩, ⟨name', kind', type'⟩, hsome, hsome', hp⟩
  · rw [hnone, hnone']
    exact .none
  · obtain ⟨-, hkind : kind = kind', htype⟩ := hp
    rw [hsome, hsome', hkind]
    cases htype with
    | none => cases kind' <;> exact .none
    | some htype => cases kind' <;> first | exact .none | exact .some (.ofType htype)

theorem named?_alike (e : Expr) :
    Option.Rel (Shape.Alike R) (v.named? e) (v'.named? e) := by
  rw [named?, named?]
  cases localName? e with
  | none => exact .none
  | some name =>
    dsimp only
    split
    · exact .none
    · rcases none_or_of_rel (h.environment name) with
        ⟨hnone, hnone'⟩ | ⟨shape, shape', hsome, hsome', hshape⟩
      · rw [hnone, hnone']
        exact parameterShape?_alike h name
      · rw [hsome, hsome']
        exact .some hshape

theorem chainShape?_alike (e : Expr) :
    Option.Rel (Shape.Alike R) (v.chainShape? e) (v'.chainShape? e) := by
  cases e with
  | index base _ | field base => exact named?_alike h base
  | path path inner =>
    rw [chainShape?, chainShape?]
    rcases none_or_of_rel (named?_alike h (.path path inner)) with
      ⟨hnone, hnone'⟩ | ⟨shape, shape', hsome, hsome', hshape⟩
    · rw [hnone, hnone']
      exact .some .unresolved
    · rw [hsome, hsome']
      exact .some hshape
  | method receiver name inner args =>
    simp only [chainShape?, h.context.conventions]
    rcases none_or_of_rel (named?_alike h (chainRoot (.method receiver name inner args))) with
      ⟨hnone, hnone'⟩ | ⟨shape, shape', hsome, hsome', hshape⟩
    · rw [hnone, hnone']
      exact .none
    · rw [hsome, hsome']
      simp only [Option.map_some]
      split
      · exact .some hshape.paginate
      · exact .some hshape
  | _ => exact .none

theorem constructed_alike (scope : Expr) {found found' : Construction}
    (hfound : found.Alike R found') {source source' : Shape} (hsource : source.Alike R source') :
    (v.constructed scope found source).Alike R (v'.constructed scope found' source') := by
  have hhas := h.context.has_eq hfound.type
  simp only [constructed, hhas, h.context.conventions, hfound.function, hsource.isPaginated_eq]
  split
  · exact .wrapped _ _ hfound.type hsource
  · split
    · exact .raw _ _ hfound.type
    · exact .ofType hfound.type

theorem value?_eq (e : Expr) : v.value? e = v'.value? e :=
  value?_alike h.context h.environment e

/-- What an expression is read as, is made of related types. -/
theorem evaluate_alike (e : Expr) : (v.evaluate e).Alike R (v'.evaluate e) := by
  induction hsize : sizeOf e using Nat.strongRecOn generalizing e with
  | ind size ih =>
    rw [evaluate_eq, evaluate_eq v' e, value?_eq h (peel e)]
    cases v'.value? (peel e) with
    | some value => exact .literal value
    | none =>
      dsimp only
      rcases none_or_of_rel (chainShape?_alike h (peel e)) with
        ⟨hnone, hnone'⟩ | ⟨shape, shape', hsome, hsome', hshape⟩
      · rw [hnone, hnone']
        dsimp only
        rcases none_or_of_rel (firstConstruction?_rel h.context (peel e)) with
          ⟨hnone, hnone'⟩ | ⟨found, found', hsome, hsome', hfound⟩
        · rw [hnone, hnone']
          exact .unresolved
        · rw [hsome, hsome']
          refine constructed_alike h (peel e) hfound ?_
          rw [← hfound.first]
          cases hx : found.first with
          | none => exact .unresolved
          | some x =>
            have hlt : sizeOf x < size := hsize ▸ Nat.lt_of_lt_of_le
              (sizeOf_lt_of_firstConstruction hsome hx) (sizeOf_peel_le e)
            exact ih (sizeOf x) hlt x rfl
      · rw [hsome, hsome']
        exact hshape

theorem status?_alike (e : Expr) : v.status? e = v'.status? e := by
  match e with
  | .paren e | .reference e | .await e | .attempt e => rw [status?, status?, status?_alike e]
  | .path path _ =>
    rw [status?, status?]
    cases path.ident? with
    | none => rfl
    | some name =>
      dsimp only
      rcases none_or_of_rel (h.environment name) with
        ⟨hnone, hnone'⟩ | ⟨shape, shape', hsome, hsome', hshape⟩
      · rw [hnone, hnone']
      · rw [hsome, hsome']
        cases hshape <;> rfl
  | .call callee [arg] => rw [status?, status?, status?_alike arg]
  | .method receiver name _ args => rw [status?, status?, status?_alike receiver]
  | .lit (.integer _ _) | .lit (.string _) | .lit (.char _) | .lit (.bool _) => rfl
  | .lit (.fraction ..) | .lit .opaqueText | .call _ [] | .call _ (_ :: _ :: _) => rfl
  | .negate _ | .tuple _ | .array _ | .record .. | .field _ | .index .. | .assign .. | .ret _ => rfl
  | .closure _ | .async _ | .branch .. | .cases .. | .block _ | .unchecked _ | .json _ => rfl
  | .vec _ | .expansion | .compound _ => rfl

end

section

variable {v v' : Evaluator}

mutual

theorem layers_alike (h : v.Alike R v') (status : Option Nat) (failed : Bool) (e : Expr) :
    v.layers status failed e = v'.layers status failed e := by
  match e with
  | .paren e | .reference e | .await e | .attempt e =>
    rw [layers, layers, layers_alike h status failed e]
  | .call callee [arg] =>
    rw [layers, layers, layers_alike h status failed arg, layers_alike h status true arg]
  | .method receiver name inner args => rw [layers, layers, layers_alike h status failed receiver]
  | .tuple (first :: rest) =>
    rw [layers, layers, status?_alike h]
    simp only [lastLayers_alike h _ failed rest]
  | .call _ [] | .call _ (_ :: _ :: _) | .tuple [] | .lit _ | .path .. | .negate _ | .array _ => rfl
  | .record .. | .field _ | .index .. | .assign .. | .ret _ | .closure _ | .async _ => rfl
  | .branch .. | .cases .. | .block _ | .unchecked _ | .json _ | .vec _ | .expansion => rfl
  | .compound _ => rfl

theorem lastLayers_alike (h : v.Alike R v') (status : Option Nat) (failed : Bool)
    (es : List Expr) : v.lastLayers status failed es = v'.lastLayers status failed es := by
  match es with
  | [] => rfl
  | e :: rest =>
    rw [lastLayers, lastLayers, layers_alike h status failed e,
      lastLayers_alike h status failed rest]

end

variable (h : v.Alike R v')
include h

theorem bareStatus?_alike (e : Expr) : v.bareStatus? e = v'.bareStatus? e := by
  cases e with
  | call callee args => rw [bareStatus?, bareStatus?, status?_alike h]
  | _ => rfl

theorem transformed?_alike (e : Expr) :
    Option.Rel (Shape.Alike R) (v.transformed? e) (v'.transformed? e) := by
  rw [transformed?, transformed?]
  rcases none_or_of_rel (constructionAt?_rel h.context (chainRoot e)) with
    ⟨hnone, hnone'⟩ | ⟨found, found', hsome, hsome', hfound⟩
  · rw [hnone, hnone']
    exact .none
  · rw [hsome, hsome']
    dsimp only
    rw [h.context.has_eq hfound.type]
    split
    · refine .some (constructed_alike h e hfound ?_)
      rw [← hfound.first]
      cases found.first with
      | none => exact .unresolved
      | some x => exact evaluate_alike h x
    · exact .none

theorem responder?_eq (e : Expr) : v.responder? e = v'.responder? e := by
  have hresponded : v.responded? = v'.responded? := by
    funext x
    simp only [responded?, h.context.conventions]
  rw [responder?, responder?, hresponded]

/-- The response for an expression has the same status, and a shape of related types. -/
theorem response_alike (e : Expr) : (v.response e).Alike R (v'.response e) := by
  rw [response, response, layers_alike h, bareStatus?_alike h, responder?_eq h]
  cases v'.bareStatus? _ with
  | some code => exact ⟨rfl, .literal .null⟩
  | none =>
    dsimp only
    rcases none_or_of_rel (transformed?_alike h (v'.layers none false e).payload) with
      ⟨hnone, hnone'⟩ | ⟨shape, shape', hsome, hsome', hshape⟩
    · rw [hnone, hnone']
      cases v'.responder? _ with
      | none => exact ⟨rfl, evaluate_alike h _⟩
      | some given =>
        have hstatus : v.status? = v'.status? := funext (status?_alike h)
        dsimp only
        rw [hstatus]
        exact ⟨rfl, evaluate_alike h given.1⟩
    · rw [hsome, hsome']
      exact ⟨rfl, hshape⟩

end

end Evaluator

/-- What two passes have met is made of related types. -/
structure Scan.Alike (R : String → String → Prop) (s s' : Scan) : Prop where
  environment : Environment.Alike R s.environment s'.environment
  responses : List.Forall₂ (Response.Alike R) s.responses s'.responses

section

variable {c c' : Context}

theorem Scan.kept_alike (h : c.Alike R c') {parameters parameters' : List Parameter}
    (hparameters : List.Forall₂ (Parameter.Alike R) parameters parameters') :
    Kept c c' parameters parameters' (Scan.Alike R) where
  record := fun hs e =>
    ⟨hs.environment, List.rel_append hs.responses
      (.cons (Evaluator.response_alike ⟨h, hparameters, hs.environment⟩ e) .nil)⟩
  recordEmpty := fun hs =>
    ⟨hs.environment, List.rel_append hs.responses (.cons ⟨rfl, .literal .null⟩ .nil)⟩
  bind := fun hs name e => by
    cases name with
    | none => exact hs
    | some name =>
      exact ⟨hs.environment.bind name (Evaluator.evaluate_alike ⟨h, hparameters, hs.environment⟩ e),
        hs.responses⟩

theorem isTransparentType_eq (h : c.Alike R c') (name : String) :
    isTransparentType c name = isTransparentType c' name := by
  rw [isTransparentType, isTransparentType, h.conventions]

mutual

theorem declaredType?_alike (h : c.Alike R c') (type : TypeExpr) :
    Option.Rel R (declaredType? c type) (declaredType? c' type) := by
  match type with
  | .reference target => rw [declaredType?, declaredType?]; exact declaredType?_alike h target
  | .paren inside => rw [declaredType?, declaredType?]; exact declaredType?_alike h inside
  | .path (.mk rooted segments) =>
    rw [declaredType?, declaredType?]
    simp only [isTransparentType_eq h]
    cases segments.getLast? with
    | none => exact .none
    | some last =>
      dsimp only
      split
      · exact declaredInLast?_alike h segments
      · split
        next hnative => exact .some (h.native last.name hnative)
        next => exact .some (h.resolve _)
  | .other => exact .none

theorem declaredInLast?_alike (h : c.Alike R c') (segments : List Segment) :
    Option.Rel R (declaredInLast? c segments) (declaredInLast? c' segments) := by
  match segments with
  | [] => exact .none
  | .mk _ arguments :: rest =>
    rw [declaredInLast?, declaredInLast?]
    split
    · exact declaredInArguments?_alike h arguments
    · exact declaredInLast?_alike h rest

theorem declaredInArguments?_alike (h : c.Alike R c') (arguments : Arguments) :
    Option.Rel R (declaredInArguments? c arguments) (declaredInArguments? c' arguments) := by
  match arguments with
  | .angled args =>
    rw [declaredInArguments?, declaredInArguments?]
    exact declaredInArgs?_alike h args
  | .none | .parenthesized => exact .none

theorem declaredInArgs?_alike (h : c.Alike R c') (args : List GenericArg) :
    Option.Rel R (declaredInArgs? c args) (declaredInArgs? c' args) := by
  match args with
  | [] => exact .none
  | .type type :: rest =>
    rw [declaredInArgs?, declaredInArgs?]
    rcases none_or_of_rel (declaredType?_alike h type) with
      ⟨hnone, hnone'⟩ | ⟨found, found', hsome, hsome', hfound⟩
    · rw [hnone, hnone']
      exact declaredInArgs?_alike h rest
    · rw [hsome, hsome']
      exact .some hfound
  | .other :: rest => rw [declaredInArgs?, declaredInArgs?]; exact declaredInArgs?_alike h rest

end

variable (h : c.Alike R c')
include h

theorem kindOf_alike {type type' : Option String} (htype : Option.Rel R type type') :
    kindOf c type = kindOf c' type' := by
  cases htype with
  | none => rfl
  | some htype =>
    rw [kindOf, kindOf, (h.agree htype).native, h.has_eq htype, h.has_eq htype]

theorem declared_alike (params : List Param) :
    List.Forall₂ (Parameter.Alike R) (declared c params) (declared c' params) := by
  refine List.rel_filterMap (R := Option.Rel (Parameter.Alike R)) (fun _ _ hp => hp) ?_
  rw [List.forall₂_map_left_iff, List.forall₂_map_right_iff, List.forall₂_same]
  rintro ⟨p, place⟩ -
  cases p with
  | receiver => exact .none
  | typed pattern type =>
    have htype := declaredType?_alike h type
    exact .some ⟨rfl, kindOf_alike h htype, htype⟩

/-- What is found of a routine differs in the names of types at most, and these are related. -/
theorem ofFunction_alike (f : Function) : (ofFunction c f).Alike R (ofFunction c' f) := by
  have hdeclared := declared_alike h f.params
  have hvalidators : ∀ {p p' : Parameter}, p.Alike R p' → isValidator p = isValidator p' :=
    fun hp => by rw [isValidator, isValidator, hp.kind]
  have hparameters :
      List.Forall₂ (Parameter.Alike R) (parametersOf c f.params) (parametersOf c' f.params) :=
    List.rel_filter (fun _ _ hp => by simp [hvalidators hp]) hdeclared
  have hvalidator : Option.Rel R (validatorOf c f.params) (validatorOf c' f.params) := by
    have hfound := List.rel_reverse (List.rel_filter (p := isValidator) (q := isValidator)
      (fun _ _ hp => by simp [hvalidators hp]) hdeclared)
    rw [validatorOf, validatorOf, ← List.head?_reverse, ← List.head?_reverse]
    generalize (List.filter isValidator (declared c f.params)).reverse = ps at hfound
    generalize (List.filter isValidator (declared c' f.params)).reverse = ps' at hfound
    cases hfound with
    | nil => exact .none
    | cons hp _ => exact hp.type
  have hfresh : Scan.Alike R {} {} := ⟨.nil, .nil⟩
  exact ⟨rfl, rfl, rfl, hparameters, hvalidator,
    ((Scan.kept_alike h hparameters).body hfresh f.body).responses⟩

end

def Context.withItems (c : Context) (items : List Item) : Context :=
  { c with scope := { c.scope with items } }

/-- What is known of a routine does not depend on what else its scope declares. -/
theorem ofFunction_withItems (c : Context) (items : List Item) (f : Function) :
    ofFunction (c.withItems items) f = ofFunction c f :=
  have hsame : (c.withItems items).Alike Eq c :=
    ⟨rfl, fun _ => rfl, fun _ _ => rfl, fun h => h ▸ ⟨fun _ => rfl, rfl, rfl⟩⟩
  (ofFunction_alike hsame f).eq

end Handler

end ApiContract
