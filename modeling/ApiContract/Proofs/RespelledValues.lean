import ApiContract.Proofs.DeferredCode
import ApiContract.Proofs.Respelling

namespace ApiContract.Handler

open Source

def path? : Expr → Option Path
  | .path path _ => some path
  | _ => none

theorem written?_call (callee : Expr) (args : List Expr) :
    written? (.call callee args) = ((path? callee).bind fun path => calledType? path.names).map
        fun found => (found.1, found.2, args.head?) := by
  cases callee <;> rfl

theorem called?_call (callee : Expr) (args : List Expr) :
    called? (.call callee args) = (path? callee).bind fun path => path.last?.map Segment.name := by
  cases callee <;> rfl

section

variable {R : Path → Path → Prop} {e e' : Expr}

theorem path?_respelled (h : e.Respelled R e') : path? e = path? e' := by
  cases h <;> rfl

theorem callName?_respelled (h : e.Respelled R e') : callName? e = callName? e' := by
  cases h <;> rfl

theorem fromOwner?_respelled (h : e.Respelled R e') : fromOwner? e = fromOwner? e' := by
  cases h <;> rfl

theorem localName?_respelled (h : e.Respelled R e') : localName? e = localName? e' := by
  cases h <;> rfl

theorem isTransparentCall_respelled (h : e.Respelled R e') :
    isTransparentCall e = isTransparentCall e' := by
  rw [isTransparentCall, isTransparentCall, callName?_respelled h]

theorem head?_respelled {es es' : List Expr} (h : AllRespelled R es es') :
    OptionRespelled R es.head? es'.head? := by
  cases h with
  | nil => exact .none
  | cons h _ => exact .some h

theorem map_respelled {α : Type} {o o' : Option Expr} (h : OptionRespelled R o o') {f : Expr → α}
    (hf : ∀ {e e'}, o = some e → e.Respelled R e' → f e = f e') : o.map f = o'.map f := by
  cases h with
  | none => rfl
  | some h => rw [Option.map_some, Option.map_some, hf rfl h]

theorem optionRespelled_refl (o : Option Expr) : OptionRespelled R o o := by
  cases o with
  | none => exact .none
  | some e => exact .some (.same e)

theorem allRespelled_refl (es : List Expr) : AllRespelled R es es := by
  induction es with
  | nil => exact .nil
  | cons e es ih => exact .cons (.same e) ih

theorem chainRoot_respelled {e e' : Expr} (h : e.Respelled R e') :
    (chainRoot e).Respelled R (chainRoot e') := by
  match h with
  | .same _ => exact .same _
  | .method hreceiver _ _ => rw [chainRoot, chainRoot]; exact chainRoot_respelled hreceiver
  | .field h => rw [chainRoot, chainRoot]; exact chainRoot_respelled h
  | .index hbase _ => rw [chainRoot, chainRoot]; exact chainRoot_respelled hbase
  | .attempt h => rw [chainRoot, chainRoot]; exact chainRoot_respelled h
  | .await h => rw [chainRoot, chainRoot]; exact chainRoot_respelled h
  | .paren h => rw [chainRoot, chainRoot]; exact chainRoot_respelled h
  | h@(.path ..) | h@(.reference ..) | h@(.negate ..) | h@(.tuple ..) | h@(.array ..)
  | h@(.record ..) | h@(.call ..) | h@(.called ..) | h@(.assign ..) | h@(.ret ..)
  | h@(.closure ..) | h@(.async ..) | h@(.branch ..) | h@(.cases ..) | h@(.block ..)
  | h@(.unchecked ..) | h@(.compound ..) => exact h

theorem chainMethods_respelled {e e' : Expr} (h : e.Respelled R e') :
    chainMethods e = chainMethods e' := by
  match h with
  | .same _ => rfl
  | .method hreceiver _ _ => rw [chainMethods, chainMethods, chainMethods_respelled hreceiver]
  | .field h => rw [chainMethods, chainMethods, chainMethods_respelled h]
  | .index hbase _ => rw [chainMethods, chainMethods, chainMethods_respelled hbase]
  | .attempt h => rw [chainMethods, chainMethods, chainMethods_respelled h]
  | .await h => rw [chainMethods, chainMethods, chainMethods_respelled h]
  | .paren h => rw [chainMethods, chainMethods, chainMethods_respelled h]
  | .path .. | .reference .. | .negate .. | .tuple .. | .array .. | .record .. | .call ..
  | .called .. | .assign .. | .ret .. | .closure .. | .async .. | .branch .. | .cases ..
  | .block .. | .unchecked .. | .compound .. =>
    rfl

end

variable {c : Context}

theorem peel_respelled {e e' : Expr} (h : e.Respelled c.Interchangeable e') :
    (peel e).Respelled c.Interchangeable (peel e') := by
  match h with
  | .same _ => exact .same _
  | .paren h => rw [peel, peel]; exact peel_respelled h
  | .reference h => rw [peel, peel]; exact peel_respelled h
  | .await h => rw [peel, peel]; exact peel_respelled h
  | .attempt h => rw [peel, peel]; exact peel_respelled h
  | .call hcallee hargs =>
    cases hargs with
    | nil => exact .call hcallee .nil
    | cons harg hrest =>
      cases hrest with
      | nil =>
        rw [peel, peel, isTransparentCall_respelled hcallee]
        split
        · exact peel_respelled harg
        · exact .call hcallee (.cons harg .nil)
      | cons hsecond hrest => exact .call hcallee (.cons harg (.cons hsecond hrest))
  | .called hpath hinner hargs =>
    have hrespelled := Expr.Respelled.called hpath hinner hargs
    obtain ⟨hsame, hp, hq⟩ := hpath
    rw [peel_of_calls hp hsame.left, peel_of_calls hq hsame.right]
    exact hrespelled
  | .method hreceiver hinner hargs =>
    rw [peel, peel, hargs.length_eq]
    split
    · exact peel_respelled hreceiver
    · exact .method hreceiver hinner hargs
  | h@(.path ..) | h@(.negate ..) | h@(.tuple ..) | h@(.array ..) | h@(.record ..) | h@(.field ..)
  | h@(.index ..) | h@(.assign ..) | h@(.ret ..) | h@(.closure ..) | h@(.async ..)
  | h@(.branch ..) | h@(.cases ..) | h@(.block ..) | h@(.unchecked ..) | h@(.compound ..) => exact h

theorem resolve_respelled {p q : Path} (h : p = q ∨ c.Interchangeable p q) :
    c.resolve p.text = c.resolve q.text := by
  rcases h with rfl | h
  · rfl
  · exact h.resolve_eq

mutual

theorem value?_respelled (env : Environment) {e e' : Expr} (h : e.Respelled c.Interchangeable e') :
    value? c env e = value? c env e' := by
  match h with
  | .same _ => rfl
  | .path _ => rfl
  | .paren h => rw [value?, value?, value?_respelled env h]
  | .reference h => rw [value?, value?, value?_respelled env h]
  | .negate h => rw [value?, value?, value?_respelled env h]
  | .tuple helements =>
    match helements with
    | .nil => rfl
    | .cons h hrest => rw [value?, value?, values_respelled env (.cons h hrest)]
  | .array h => rw [value?, value?, values_respelled env h]
  | .record hpath _ hfields _ =>
    rw [value?, value?, fieldValues_respelled env hfields, resolve_respelled hpath]
  | .call hcallee hargs =>
    match hargs with
    | .nil | .cons _ (.cons _ _) => rfl
    | .cons harg .nil =>
      rw [value?, value?, fromOwner?_respelled hcallee, value?_respelled env harg,
        entriesIn_respelled env harg]
  | .called hpath _ _ =>
    obtain ⟨hsame, hp, hq⟩ := hpath
    rw [value?_of_calls c env hp hsame.left, value?_of_calls c env hq hsame.right]
  | .method hreceiver _ hargs =>
    match hargs with
    | .nil => rw [value?, value?, value?_respelled env hreceiver]
    | .cons _ _ => rfl
  | .field .. | .index .. | .await .. | .attempt .. | .assign .. | .ret .. | .closure ..
  | .async .. | .branch .. | .cases .. | .block .. | .unchecked .. | .compound .. => rfl

theorem values_respelled (env : Environment) {es es' : List Expr}
    (h : AllRespelled c.Interchangeable es es') : values c env es = values c env es' := by
  match h with
  | .nil => rfl
  | .cons h hrest => rw [values, values, value?_respelled env h, values_respelled env hrest]

theorem fieldValues_respelled (env : Environment) {fs fs' : List FieldInit}
    (h : FieldsRespelled c.Interchangeable fs fs') :
    fieldValues c env fs = fieldValues c env fs' := by
  match h with
  | .nil => rfl
  | @FieldsRespelled.cons _ none _ _ _ _ _ hrest =>
    rw [fieldValues, fieldValues, fieldValues_respelled env hrest]
  | @FieldsRespelled.cons _ (some _) _ _ _ _ h hrest =>
    rw [fieldValues, fieldValues, value?_respelled env h, fieldValues_respelled env hrest]

theorem entriesIn_respelled (env : Environment) {e e' : Expr}
    (h : e.Respelled c.Interchangeable e') : entriesIn c env e = entriesIn c env e' := by
  match h with
  | .array h => rw [entriesIn, entriesIn, pairValues_respelled env h]
  | .same _ | .path .. | .paren .. | .reference .. | .negate .. | .tuple .. | .record ..
  | .call .. | .called .. | .method .. | .field .. | .index .. | .await .. | .attempt ..
  | .assign .. | .ret .. | .closure .. | .async .. | .branch .. | .cases .. | .block ..
  | .unchecked .. | .compound .. => rfl

theorem pairValues_respelled (env : Environment) {es es' : List Expr}
    (h : AllRespelled c.Interchangeable es es') : pairValues c env es = pairValues c env es' := by
  match h with
  | .nil => rfl
  | .cons h hrest =>
    rw [pairValues, pairValues, pairValue?_respelled env h, pairValues_respelled env hrest]

theorem pairValue?_respelled (env : Environment) {e e' : Expr}
    (h : e.Respelled c.Interchangeable e') : pairValue? c env e = pairValue? c env e' := by
  match h with
  | .tuple helements =>
    match helements with
    | .cons hkey (.cons hvalue .nil) =>
      rw [pairValue?, pairValue?, value?_respelled env hkey, value?_respelled env hvalue]
    | .nil | .cons _ .nil | .cons _ (.cons _ (.cons _ _)) => rfl
  | .same _ | .path .. | .paren .. | .reference .. | .negate .. | .array .. | .record ..
  | .call .. | .called .. | .method .. | .field .. | .index .. | .await .. | .attempt ..
  | .assign .. | .ret .. | .closure .. | .async .. | .branch .. | .cases .. | .block ..
  | .unchecked .. | .compound .. => rfl

end

/-- Constructions of the same type, given values that differ in how types are spelled. -/
structure Construction.Respelled (R : Path → Path → Prop) (found found' : Construction) : Prop where
  type : found.type = found'.type
  function : found.function = found'.function
  first : OptionRespelled R found.first found'.first

def Context.Means (c : Context) (written written' : String) : Prop :=
  written = written' ∨ ∃ p q, c.Interchangeable p q ∧ written = p.text ∧ written' = q.text

theorem Context.Means.resolve_eq {written written' : String} (h : c.Means written written') :
    c.resolve written = c.resolve written' := by
  rcases h with rfl | ⟨p, q, hsame, rfl, rfl⟩
  · rfl
  · exact hsame.resolve_eq

theorem Context.Means.foreign {written written' : String} (h : c.Means written written') :
    foreignTypes.contains (Name.short written) = foreignTypes.contains (Name.short written') := by
  rcases h with rfl | ⟨p, q, hsame, rfl, rfl⟩
  · rfl
  · have hp := (ordinary_short hsame.left).noForeign
    have hq := (ordinary_short hsame.right).noForeign
    simp [hp, hq]

/-- What is written where a type is constructed. -/
structure Context.MeansCall (c : Context) (found found' : String × Option String × Option Expr) :
    Prop where
  type : c.Means found.1 found'.1
  function : found.2.1 = found'.2.1
  first : OptionRespelled c.Interchangeable found.2.2 found'.2.2

theorem written?_respelled {e e' : Expr} (h : e.Respelled c.Interchangeable e') :
    Option.Rel c.MeansCall (written? e) (written? e') := by
  cases h with
  | same =>
    cases written? e with
    | none => exact .none
    | some found => exact .some ⟨.inl rfl, rfl, optionRespelled_refl _⟩
  | record hpath _ hfields _ =>
    refine .some ⟨?_, rfl, ?_⟩
    · rcases hpath with rfl | hsame
      · exact .inl rfl
      · exact .inr ⟨_, _, hsame, rfl, rfl⟩
    · cases hfields with
      | nil => exact .none
      | cons hvalue _ => exact .some hvalue
  | call hcallee hargs =>
    rw [written?_call, written?_call, path?_respelled hcallee]
    cases (path? _).bind fun path => calledType? path.names with
    | none => exact .none
    | some found => exact .some ⟨.inl rfl, rfl, head?_respelled hargs⟩
  | called hpath _ hargs =>
    obtain ⟨hsame, hp, hq⟩ := hpath
    rw [written?, written?, calledType?_of_calls hp hsame.left, calledType?_of_calls hq hsame.right]
    exact .some ⟨.inr ⟨_, _, hsame, rfl, rfl⟩, rfl, head?_respelled hargs⟩
  | _ => exact .none

theorem none_or_of_rel {α β : Type} {r : α → β → Prop} {o : Option α} {o' : Option β}
    (h : Option.Rel r o o') : (o = none ∧ o' = none) ∨ ∃ x y, o = some x ∧ o' = some y ∧ r x y := by
  cases h with
  | none => exact .inl ⟨rfl, rfl⟩
  | some h => exact .inr ⟨_, _, rfl, rfl, h⟩

theorem written?_alike {e e' : Expr} (h : e.Alike c.Interchangeable e') :
    Option.Rel c.MeansCall (written? e) (written? e') := by
  cases h with
  | respelled h => exact written?_respelled h
  | path => exact .none

theorem constructionAt?_alike {e e' : Expr} (h : e.Alike c.Interchangeable e') : Option.Rel
    (Construction.Respelled c.Interchangeable) (constructionAt? c e) (constructionAt? c e') := by
  rw [constructionAt?, constructionAt?]
  rcases none_or_of_rel (written?_alike h) with
      ⟨hnone, hnone'⟩ | ⟨found, found', hsome, hsome', hfound⟩
  · rw [hnone, hnone']
    exact .none
  · rw [hsome, hsome']
    dsimp only
    rw [hfound.type.foreign, hfound.type.resolve_eq]
    split
    · exact .none
    · split
      · exact .some ⟨rfl, hfound.function, hfound.first⟩
      · exact .none

section

variable {R : Path → Path → Prop}

theorem uniform_isImmediate : Uniform R isImmediate := by
  intro e e' h
  cases h with
  | respelled h => cases h <;> rfl
  | path => rfl

theorem uniform_isClosure : Uniform R fun e => !isClosure e := by
  intro e e' h
  cases h with
  | respelled h => cases h <;> rfl
  | path => rfl

variable {α β : Type} {S : β → β → Prop} {r : α → α → Prop} {xs ys : List α}

theorem findSome?_alike {search search' : α → Option β} (h : List.Forall₂ r xs ys)
    (hsearch : ∀ ⦃x y⦄, r x y → Option.Rel S (search x) (search' y)) :
    Option.Rel S (xs.findSome? search) (ys.findSome? search') := by
  induction h with
  | nil => exact .none
  | cons hxy _ ih =>
    rw [List.findSome?_cons, List.findSome?_cons]
    rcases none_or_of_rel (hsearch hxy) with
        ⟨hnone, hnone'⟩ | ⟨found, found', hsome, hsome', hfound⟩
    · rw [hnone, hnone']
      exact ih
    · rw [hsome, hsome']
      exact .some hfound

theorem any_alike {p : α → Bool} (h : List.Forall₂ r xs ys) (hp : ∀ ⦃x y⦄, r x y → p x = p y) :
    xs.any p = ys.any p := by
  induction h with
  | nil => rfl
  | cons hxy _ ih => rw [List.any_cons, List.any_cons, hp hxy, ih]

end

theorem firstConstruction?_respelled {e e' : Expr} (h : e.Respelled c.Interchangeable e') :
    Option.Rel (Construction.Respelled c.Interchangeable) (firstConstruction? c e)
      (firstConstruction? c e') :=
  findSome?_alike (h.nodes uniform_isImmediate) fun _ _ => constructionAt?_alike

theorem any_called?_alike {has : String → Bool}
    (hhas : ∀ name, c.conventions.Ordinary name → has name = false) {e e' : Expr}
    (h : e.Alike c.Interchangeable e') : (called? e).any has = (called? e').any has := by
  cases h with
  | respelled h =>
    cases h with
    | call hcallee _ => rw [called?_call, called?_call, path?_respelled hcallee]
    | called hpath _ _ =>
      obtain ⟨hsame, hp, hq⟩ := hpath
      exact (any_last_of_calls hp hsame.left hhas).trans
        (any_last_of_calls hq hsame.right hhas).symm
    | _ => rfl
  | path => rfl

theorem any_calledNames (e : Expr) (has : String → Bool) :
    (calledNames e).any has = (e.nodes fun x => !isClosure x).any fun x => (called? x).any has := by
  rw [calledNames_eq]
  induction e.nodes fun x => !isClosure x with
  | nil => rfl
  | cons x rest ih =>
    rw [List.any_cons, ← ih, List.filterMap_cons]
    cases called? x <;> rfl

theorem any_calledNames_respelled (has : String → Bool)
    (hhas : ∀ name, c.conventions.Ordinary name → has name = false) {e e' : Expr}
    (h : e.Respelled c.Interchangeable e') :
    (calledNames e).any has = (calledNames e').any has := by
  rw [any_calledNames, any_calledNames]
  exact any_alike (h.nodes uniform_isClosure) fun _ _ => any_called?_alike hhas

namespace Evaluator

variable (v : Evaluator) {e e' : Expr}

theorem named?_respelled (h : e.Respelled v.context.Interchangeable e') :
    v.named? e = v.named? e' := by
  rw [named?, named?, localName?_respelled h]

theorem chainShape?_respelled (h : e.Respelled v.context.Interchangeable e') :
    v.chainShape? e = v.chainShape? e' := by
  have hroot := v.named?_respelled (chainRoot_respelled h)
  have hmethods := chainMethods_respelled h
  cases h with
  | field h => exact v.named?_respelled h
  | index hbase _ => exact v.named?_respelled hbase
  | method => rw [chainShape?, chainShape?, hmethods, hroot]
  | _ => rfl

theorem constructed_respelled {found found' : Construction}
    (h : e.Respelled v.context.Interchangeable e')
    (hfound : found.Respelled v.context.Interchangeable found') (source : Shape) :
    v.constructed e found source = v.constructed e' found' source := by
  have hcollection := any_calledNames_respelled v.context.conventions.isCollection
    (fun _ hname => hname.noCollection) h
  have hpaginator :=
    any_calledNames_respelled v.context.conventions.isPaginator (fun _ hname => hname.noPaginator) h
  simp only [constructed, hfound.type, hfound.function, hcollection, hpaginator]

/-- The shape of an expression does not depend on how types are spelled. -/
theorem evaluate_respelled (h : e.Respelled v.context.Interchangeable e') :
    v.evaluate e = v.evaluate e' := by
  -- on the size, since what a construction is given may stand anywhere in the expression
  induction hsize : sizeOf e using Nat.strongRecOn generalizing e e' with
  | ind size ih =>
    have hpeel := peel_respelled h
    have hvalue : v.value? (peel e) = v.value? (peel e') := value?_respelled v.environment hpeel
    rw [evaluate_eq, evaluate_eq v e', hvalue, v.chainShape?_respelled hpeel]
    rcases none_or_of_rel (firstConstruction?_respelled hpeel) with
      ⟨hnone, hnone'⟩ | ⟨found, found', hsome, hsome', hfound⟩
    · rw [hnone, hnone']
    · have hfirst : found.first.map v.evaluate = found'.first.map v.evaluate :=
        map_respelled hfound.first fun hx hsame =>
          ih _ (hsize ▸ Nat.lt_of_lt_of_le (sizeOf_lt_of_firstConstruction hsome hx)
            (sizeOf_peel_le e)) hsame rfl
      rw [hsome, hsome']
      simp only [hfirst, v.constructed_respelled hpeel hfound]

theorem isFromNumber_respelled {R : Path → Path → Prop} (h : e.Respelled R e') :
    isFromNumber e = isFromNumber e' := by
  rw [isFromNumber, isFromNumber, callName?_respelled h]

theorem status?_respelled {e e' : Expr} (h : e.Respelled v.context.Interchangeable e') :
    v.status? e = v.status? e' := by
  match h with
  | .paren h => rw [status?, status?, status?_respelled h]
  | .reference h => rw [status?, status?, status?_respelled h]
  | .await h => rw [status?, status?, status?_respelled h]
  | .attempt h => rw [status?, status?, status?_respelled h]
  | .call hcallee hargs =>
    cases hargs with
    | nil => rfl
    | cons harg hrest =>
      cases hrest with
      | nil =>
        rw [status?, status?, isTransparentCall_respelled hcallee, isFromNumber_respelled hcallee,
          status?_respelled harg]
      | cons _ _ => rfl
  | .called hpath _ _ =>
    obtain ⟨hsame, hp, hq⟩ := hpath
    rw [v.status?_of_calls hp hsame.left, v.status?_of_calls hq hsame.right]
  | .method hreceiver _ hargs => rw [status?, status?, hargs.length_eq, status?_respelled hreceiver]
  | .same _ | .path .. | .negate .. | .tuple .. | .array .. | .record .. | .field .. | .index ..
  | .assign .. | .ret .. | .closure .. | .async .. | .branch .. | .cases .. | .block ..
  | .unchecked .. | .compound .. =>
    rfl

/-- Returns that are the same but for the spelling of types in their payloads. -/
structure Layers.Respelled (R : Path → Path → Prop) (found found' : Layers) : Prop where
  status : found.status = found'.status
  failed : found.failed = found'.failed
  payload : found.payload.Respelled R found'.payload

mutual

theorem layers_respelled (status : Option Nat) (failed : Bool) {e e' : Expr}
    (h : e.Respelled v.context.Interchangeable e') :
    (v.layers status failed e).Respelled v.context.Interchangeable (v.layers status failed e') := by
  match h with
  | .same _ => exact ⟨rfl, rfl, .same _⟩
  | .paren h => rw [layers, layers]; exact layers_respelled status failed h
  | .reference h => rw [layers, layers]; exact layers_respelled status failed h
  | .await h => rw [layers, layers]; exact layers_respelled status failed h
  | .attempt h => rw [layers, layers]; exact layers_respelled status failed h
  | .call hcallee hargs =>
    match hargs with
    | .nil => exact ⟨rfl, rfl, .call hcallee .nil⟩
    | .cons harg .nil =>
      rw [layers, layers, isTransparentCall_respelled hcallee, callName?_respelled hcallee]
      split
      · exact layers_respelled status failed harg
      · split
        · exact layers_respelled status true harg
        · exact ⟨rfl, rfl, .call hcallee (.cons harg .nil)⟩
    | .cons harg (.cons hsecond hrest) =>
      exact ⟨rfl, rfl, .call hcallee (.cons harg (.cons hsecond hrest))⟩
  | .called hpath hinner hargs =>
    have hrespelled := Expr.Respelled.called hpath hinner hargs
    obtain ⟨hsame, hp, hq⟩ := hpath
    rw [v.layers_of_calls status failed hp hsame.left,
      v.layers_of_calls status failed hq hsame.right]
    exact ⟨rfl, rfl, hrespelled⟩
  | .method hreceiver hinner hargs =>
    rw [layers, layers, hargs.length_eq]
    split
    · exact layers_respelled status failed hreceiver
    · exact ⟨rfl, rfl, .method hreceiver hinner hargs⟩
  | .tuple helements =>
    match helements with
    | .nil => exact ⟨rfl, rfl, .tuple .nil⟩
    | .cons hfirst .nil => exact ⟨rfl, rfl, .tuple (.cons hfirst .nil)⟩
    | @AllRespelled.cons _ first first' _ _ hfirst (.cons hsecond hrest) =>
      simp only [layers, List.isEmpty_cons, v.status?_respelled hfirst]
      cases v.status? first' with
      | some code => exact lastLayers_respelled (some code) failed (.cons hsecond hrest)
      | none => exact ⟨rfl, rfl, .tuple (.cons hfirst (.cons hsecond hrest))⟩
  | h@(.path ..) | h@(.negate ..) | h@(.array ..) | h@(.record ..) | h@(.field ..) | h@(.index ..)
  | h@(.assign ..) | h@(.ret ..) | h@(.closure ..) | h@(.async ..) | h@(.branch ..)
  | h@(.cases ..) | h@(.block ..) | h@(.unchecked ..) | h@(.compound ..) => exact ⟨rfl, rfl, h⟩

theorem lastLayers_respelled (status : Option Nat) (failed : Bool) {es es' : List Expr}
    (h : AllRespelled v.context.Interchangeable es es') : (v.lastLayers status failed es).Respelled
    v.context.Interchangeable (v.lastLayers status failed es') := by
  match h with
  | .nil => exact ⟨rfl, rfl, .same _⟩
  | .cons h .nil =>
    simp only [lastLayers, List.isEmpty_nil, if_true]
    exact layers_respelled status failed h
  | .cons _ (.cons hsecond hrest) =>
    rw [lastLayers, lastLayers]
    exact lastLayers_respelled status failed (.cons hsecond hrest)

end

theorem bareStatus?_respelled (h : e.Respelled v.context.Interchangeable e') :
    v.bareStatus? e = v.bareStatus? e' := by
  have hstatus := v.status?_respelled h
  cases h with
  | call hcallee _ => rw [bareStatus?, bareStatus?, callName?_respelled hcallee, hstatus]
  | called hpath _ _ =>
    obtain ⟨hsame, hp, hq⟩ := hpath
    rw [v.bareStatus?_of_calls hp hsame.left, v.bareStatus?_of_calls hq hsame.right]
  | _ => rfl

theorem transformed?_respelled (h : e.Respelled v.context.Interchangeable e') :
    v.transformed? e = v.transformed? e' := by
  rw [transformed?, transformed?]
  rcases none_or_of_rel (constructionAt?_alike (.respelled (chainRoot_respelled h))) with
    ⟨hnone, hnone'⟩ | ⟨found, found', hsome, hsome', hfound⟩
  · rw [hnone, hnone']
  · have hfirst := map_respelled hfound.first fun _ hsame => v.evaluate_respelled hsame
    rw [hsome, hsome']
    simp only [hfound.type, hfirst, v.constructed_respelled h hfound]

def GivenAlike (R : Path → Path → Prop) (given given' : Expr × List Expr) : Prop :=
  given.1.Respelled R given'.1 ∧ AllRespelled R given.2 given'.2

theorem responded?_call_nil (callee : Expr) : v.responded? (.call callee []) = none := by
  cases callee <;> rfl

theorem responded?_call (callee payload : Expr) (rest : List Expr) :
    v.responded? (.call callee (payload :: rest)) = (path? callee).bind fun path =>
      if (path.last?.map Segment.name).any v.context.conventions.isResponder then
        some (payload, rest) else none := by
  cases callee <;> rfl

theorem responded?_respelled (h : e.Respelled v.context.Interchangeable e') :
    Option.Rel (GivenAlike v.context.Interchangeable) (v.responded? e) (v.responded? e') := by
  cases h with
  | same =>
    cases v.responded? e with
    | none => exact .none
    | some given => exact .some ⟨.same _, allRespelled_refl _⟩
  | call hcallee hargs =>
    cases hargs with
    | nil =>
      rw [responded?_call_nil, responded?_call_nil]
      exact .none
    | cons hpayload hrest =>
      rw [responded?_call, responded?_call, path?_respelled hcallee]
      cases path? _ with
      | none => exact .none
      | some path =>
        simp only [Option.bind_some]
        split
        · exact .some ⟨hpayload, hrest⟩
        · exact .none
  | called hpath _ hargs =>
    cases hargs with
    | nil => exact .none
    | cons hpayload hrest =>
      obtain ⟨hsame, hp, hq⟩ := hpath
      have hresponder := fun name (hname : v.context.conventions.Ordinary name) => hname.noResponder
      rw [responded?, responded?, any_last_of_calls hp hsame.left hresponder,
        any_last_of_calls hq hsame.right hresponder]
      split
      · exact .some ⟨hpayload, hrest⟩
      · exact .none
  | method _ _ hargs =>
    cases hargs with
    | nil => exact .none
    | cons hpayload hrest =>
      rw [responded?, responded?]
      split
      · exact .some ⟨hpayload, hrest⟩
      · exact .none
  | _ => exact .none

theorem responded?_alike (h : e.Alike v.context.Interchangeable e') :
    Option.Rel (GivenAlike v.context.Interchangeable) (v.responded? e) (v.responded? e') := by
  cases h with
  | respelled h => exact v.responded?_respelled h
  | path => exact .none

theorem responder?_respelled (h : e.Respelled v.context.Interchangeable e') :
    Option.Rel (GivenAlike v.context.Interchangeable) (v.responder? e) (v.responder? e') :=
  findSome?_alike (h.nodes uniform_isImmediate) fun _ _ => v.responded?_alike

/-- The response that an expression stands for does not depend on how types are spelled. -/
theorem response_respelled (h : e.Respelled v.context.Interchangeable e') :
    v.response e = v.response e' := by
  have hlayers := v.layers_respelled none false h
  have hfallback : (v.layers none false e).fallback = (v.layers none false e').fallback := by
    rw [Layers.fallback, Layers.fallback, hlayers.status, hlayers.failed]
  rw [response, response]
  rw [v.bareStatus?_respelled hlayers.payload, v.transformed?_respelled hlayers.payload, hfallback]
  rcases none_or_of_rel (v.responder?_respelled hlayers.payload) with
    ⟨hnone, hnone'⟩ | ⟨⟨body, rest⟩, ⟨body', rest'⟩, hsome, hsome', hbody, hrest⟩
  · rw [hnone, hnone', v.evaluate_respelled hlayers.payload]
  · have hcode : rest.head?.bind v.status? = rest'.head?.bind v.status? := by
      cases hrest with
      | nil => rfl
      | cons h _ => exact v.status?_respelled h
    rw [hsome, hsome']
    simp only [hcode, v.evaluate_respelled hbody]

end Evaluator

end ApiContract.Handler
