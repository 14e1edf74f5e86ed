import ApiContract.Proofs.Trimming

namespace ApiContract.Handler

open Source

def called? : Expr → Option String
  | .method _ name _ _ => some name
  | .call (.path path _) _ => path.last?.map Segment.name
  | _ => none

/-- Whether calls of a name tell that a collection or a page of one is meant. -/
def Conventions.gathers (conventions : Conventions) (name : String) : Bool :=
  conventions.isCollection name || conventions.isPaginator name

def gathering? (c : Context) (e : Expr) : Option String := (called? e).filter c.conventions.gathers

/-- Deferred code that nothing is read from: asynchronous blocks without calls that gather, and
items that have no such calls, construct nothing and do not respond. -/
def quiet (c : Context) : Omission where
  blocks body := (nodesOfStmts (fun x => !isClosure x) body).all fun x => (gathering? c x).isNone
  items item :=
    (nodesOfItem (fun x => !isClosure x) item).all (fun x => (gathering? c x).isNone) &&
      (nodesOfItem isImmediate item).all fun x =>
        (constructionAt? c x).isNone && ((Evaluator.mk c [] []).responded? x).isNone

section

variable (o : Omission)

theorem called?_trim (e : Expr) : called? (e.trim o .read) = called? e := by
  cases e with
  | call callee args => cases callee <;> rfl
  | _ => rfl

theorem gathering?_trim (c : Context) (e : Expr) :
    gathering? c (e.trim o .read) = gathering? c e := by
  rw [gathering?, gathering?, called?_trim]

def Construction.trim (found : Construction) : Construction :=
  { found with first := found.first.map (Expr.trim o .read) }

theorem written?_trim (e : Expr) : written? (e.trim o .read) =
    (written? e).map fun found => (found.1, found.2.1, found.2.2.map (Expr.trim o .read)) := by
  cases e with
  | call callee args =>
    cases callee with
    | path path inner =>
      cases args <;> simp [Expr.trim, written?, trimAll_eq_map, Function.comp_def]
    | _ => rfl
  | record path inner fields rest =>
    cases fields with
    | nil => rfl
    | cons field fields => cases field; rfl
  | _ => rfl

theorem constructionAt?_trim (c : Context) (e : Expr) :
    constructionAt? c (e.trim o .read) = (constructionAt? c e).map (Construction.trim o) := by
  rw [constructionAt?, constructionAt?, written?_trim]
  cases written? e with
  | none => rfl
  | some found =>
    obtain ⟨type, function, first⟩ := found
    simp only [Option.map_some]
    split
    · rfl
    · split <;> rfl

theorem responded?_trim (v : Evaluator) (e : Expr) : v.responded? (e.trim o .read) =
    (v.responded? e).map fun found => (found.1.trim o .read, found.2.map (Expr.trim o .read)) := by
  cases e with
  | call callee args =>
    cases callee with
    | path path inner =>
      cases args with
      | nil => rfl
      | cons payload rest =>
        simp only [Expr.trim, Use.inside_read, trimAll, trimAll_eq_map, Evaluator.responded?]
        split <;> rfl
    | _ => rfl
  | method receiver name inner args =>
    cases args with
    | nil => rfl
    | cons payload rest =>
      simp only [Expr.trim, Use.inside_read, trimAll, trimAll_eq_map, Evaluator.responded?]
      split <;> rfl
  | _ => rfl

end

section

variable {c : Context}

theorem overlooks_gathering : Overlooks (quiet c) (fun x => !isClosure x) (gathering? c) where
  trimmed := by
    intro e
    cases e <;> rfl
  closures := fun _ => rfl
  blocks := by
    intro body _ hquiet x hx
    rw [gathering?_trim]
    exact Option.isNone_iff_eq_none.mp (List.all_eq_true.mp hquiet x hx)
  items := by
    intro item hquiet x hx
    rw [gathering?_trim]
    exact Option.isNone_iff_eq_none.mp (List.all_eq_true.mp (Bool.and_eq_true_iff.mp hquiet).1 x hx)

theorem isImmediate_trim (o : Omission) (e : Expr) :
    isImmediate (e.trim o .read) = isImmediate e := by
  cases e <;> rfl

theorem quiet_items {item : Item} (h : (quiet c).items item = true) {x : Expr}
    (hx : x ∈ nodesOfItem isImmediate item) :
    constructionAt? c x = none ∧ (Evaluator.mk c [] []).responded? x = none := by
  have hnode := List.all_eq_true.mp (Bool.and_eq_true_iff.mp h).2 x hx
  simpa only [Bool.and_eq_true, Option.isNone_iff_eq_none] using hnode

theorem overlooks_constructions : Overlooks (quiet c) isImmediate (constructionAt? c) where
  trimmed := isImmediate_trim _
  closures := fun _ => rfl
  blocks := nofun
  items := by
    intro item hquiet x hx
    rw [constructionAt?_trim, (quiet_items hquiet hx).1, Option.map_none]

theorem overlooks_responders {v : Evaluator} :
    Overlooks (quiet v.context) isImmediate v.responded? where
  trimmed := isImmediate_trim _
  closures := fun _ => rfl
  blocks := nofun
  items := by
    intro item hquiet x hx
    have hnone : v.responded? x = none := (quiet_items hquiet hx).2
    rw [responded?_trim, hnone, Option.map_none]

theorem findSome?_trim {α : Type} {search : Expr → Option α} {f : α → α}
    (h : Overlooks (quiet c) isImmediate search)
    (hsearch : ∀ x, search (x.trim (quiet c) .read) = (search x).map f) (e : Expr) :
    ((e.trim (quiet c) .read).nodes isImmediate).findSome? search =
      ((e.nodes isImmediate).findSome? search).map f := by
  have hnodes := congrArg List.head? (h.nodes e)
  simp only [hsearch] at hnodes
  rw [List.head?_filterMap, List.head?_filterMap] at hnodes
  rw [hnodes, List.map_findSome?]
  rfl

theorem firstConstruction?_trim (e : Expr) : firstConstruction? c (e.trim (quiet c) .read) =
    (firstConstruction? c e).map (Construction.trim (quiet c)) :=
  findSome?_trim overlooks_constructions (constructionAt?_trim (quiet c) c) e

theorem calledNames_eq (e : Expr) :
    calledNames e = (e.nodes fun x => !isClosure x).filterMap called? :=
  rfl

theorem gathered_trim (e : Expr) :
    (calledNames (e.trim (quiet c) .read)).filter c.conventions.gathers =
      (calledNames e).filter c.conventions.gathers := by
  have hnodes := (overlooks_gathering (c := c)).nodes e
  simp only [gathering?_trim] at hnodes
  rw [calledNames_eq, calledNames_eq, List.filter_filterMap, List.filter_filterMap]
  exact hnodes

theorem any_calledNames_trim {p : String → Bool}
    (h : ∀ name, p name = true → c.conventions.gathers name = true) (e : Expr) :
    (calledNames (e.trim (quiet c) .read)).any p = (calledNames e).any p := by
  have hfilter :
      ∀ names : List String, names.any p = (names.filter c.conventions.gathers).any p := by
    intro names
    rw [List.any_filter, Bool.eq_iff_iff, List.any_eq_true, List.any_eq_true]
    refine exists_congr fun name => and_congr_right fun _ => ?_
    exact ⟨fun hp =>
      Bool.and_eq_true_iff.mpr ⟨h name hp, hp⟩, fun hp => (Bool.and_eq_true_iff.mp hp).2⟩
  rw [hfilter, gathered_trim, ← hfilter]

end

namespace Evaluator

variable (v : Evaluator)

theorem named?_trim (o : Omission) (e : Expr) : v.named? (e.trim o .read) = v.named? e := by
  rw [named?, named?, localName?_trim]

theorem chainShape?_trim (o : Omission) (e : Expr) :
    v.chainShape? (e.trim o .read) = v.chainShape? e := by
  cases e with
  | index base _ => exact v.named?_trim o base
  | field base => exact v.named?_trim o base
  | path path inner => rfl
  | method receiver name inner args =>
    have hroot := chainRoot_trim o (.method receiver name inner args)
    have hmethods := chainMethods_trim o (.method receiver name inner args)
    rw [Expr.trim] at hroot hmethods ⊢
    rw [chainShape?, chainShape?, hroot, hmethods, v.named?_trim]
  | _ => rfl

theorem constructed_trim (scope : Expr) (found : Construction) (source : Shape) :
    v.constructed (scope.trim (quiet v.context) .read) (found.trim (quiet v.context)) source =
      v.constructed scope found source := by
  have hcollection : ∀ name, v.context.conventions.isCollection name = true →
      v.context.conventions.gathers name = true := fun name h => by simp [Conventions.gathers, h]
  have hpage : ∀ name,
      v.context.conventions.isPaginator name = true → v.context.conventions.gathers name = true :=
    fun name h => by simp [Conventions.gathers, h]
  simp only [constructed, any_calledNames_trim hcollection, any_calledNames_trim hpage]
  rfl

theorem evaluate_eq (e : Expr) : v.evaluate e =
    match v.value? (peel e) with
    | some value => .literal value
    | none =>
      match v.chainShape? (peel e) with
      | some shape => shape
      | none =>
        match firstConstruction? v.context (peel e) with
        | none => .unresolved
        | some found =>
          v.constructed (peel e) found ((found.first.map v.evaluate).getD .unresolved) := by
  rw [evaluate]
  dsimp only
  cases v.value? (peel e) with
  | some value => rfl
  | none =>
    cases v.chainShape? (peel e) with
    | some shape => rfl
    | none =>
      dsimp only
      split
      next h => rw [h]
      next found h =>
        rw [h]
        dsimp only
        split
        next hfirst => rw [hfirst, Option.map_some, Option.getD_some]
        next hfirst => rw [hfirst, Option.map_none, Option.getD_none]

/-- What is read from an expression does not depend on deferred code that is quiet. -/
theorem evaluate_trim (e : Expr) : v.evaluate (e.trim (quiet v.context) .read) = v.evaluate e := by
  induction hsize : sizeOf e using Nat.strongRecOn generalizing e with
  | ind size ih =>
    have hvalue : v.value? ((peel e).trim (quiet v.context) .read) = v.value? (peel e) :=
      value?_trim (quiet v.context) v.context v.environment (peel e)
    rw [evaluate_eq, evaluate_eq v e, peel_trim, hvalue, chainShape?_trim, firstConstruction?_trim]
    cases hfound : firstConstruction? v.context (peel e) with
    | none => rfl
    | some found =>
      have hfirst : (found.first.map (Expr.trim (quiet v.context) .read)).map v.evaluate =
          found.first.map v.evaluate := by
        cases hx : found.first with
        | none => rfl
        | some x =>
          have hlt : sizeOf x < size :=
            hsize ▸ Nat.lt_of_lt_of_le (sizeOf_lt_of_firstConstruction hfound hx) (sizeOf_peel_le e)
          rw [Option.map_some, Option.map_some, Option.map_some, ih _ hlt x rfl]
      simp only [Option.map_some, constructed_trim]
      rw [Construction.trim, hfirst]

theorem status?_trim (o : Omission) (e : Expr) : v.status? (e.trim o .read) = v.status? e := by
  match e with
  | .paren e | .reference e | .await e | .attempt e => exact status?_trim o e
  | .call callee [arg] =>
    have h := status?_trim o arg
    simp only [Expr.trim, Use.inside_read, trimAll, status?, isTransparentCall_trim, isFromNumber,
      callName?_trim, h]
    rfl
  | .call callee [] | .call callee (_ :: _ :: _) => rfl
  | .method receiver name inner args =>
    have h := status?_trim o receiver
    simp only [Expr.trim, Use.inside_read, trimAll_eq_map, List.length_map, status?, h]
  | .lit _ | .path .. | .negate _ | .tuple _ | .array _ | .record .. | .field _ | .index ..
  | .assign .. | .ret _ | .closure _ | .async _ | .branch .. | .cases .. | .block _ | .unchecked _
  | .json _ | .vec _ | .expansion | .compound _ => rfl

def Layers.trim (o : Omission) (found : Layers) : Layers :=
  { found with payload := found.payload.trim o .read }

mutual

theorem layers_trim (o : Omission) (status : Option Nat) (failed : Bool) (e : Expr) :
    v.layers status failed (e.trim o .read) = (v.layers status failed e).trim o := by
  match e with
  | .paren e | .reference e | .await e | .attempt e => exact layers_trim o status failed e
  | .call callee [arg] =>
    have h := layers_trim o status failed arg
    have herror := layers_trim o status true arg
    simp only [Expr.trim, Use.inside_read, trimAll, layers, isTransparentCall_trim, callName?_trim,
      h, herror]
    split
    · rfl
    · split <;> rfl
  | .call callee [] | .call callee (_ :: _ :: _) => rfl
  | .method receiver name inner args =>
    have h := layers_trim o status failed receiver
    simp only [Expr.trim, Use.inside_read, trimAll_eq_map, List.length_map, layers, h]
    split
    · rfl
    · simp only [Layers.trim, Expr.trim, Use.inside_read, trimAll_eq_map]
  | .tuple [] | .tuple [_] => rfl
  | .tuple (first :: second :: rest) =>
    have hlast := fun code => lastLayers_trim o (some code) failed (second :: rest)
    simp only [trimAll] at hlast
    simp only [Expr.trim, Use.inside_read, trimAll, layers, List.isEmpty_cons, status?_trim, hlast]
    cases v.status? first <;> rfl
  | .lit _ | .path .. | .negate _ | .array _ | .record .. | .field _ | .index .. | .assign ..
  | .ret _ | .closure _ | .async _ | .branch .. | .cases .. | .block _ | .unchecked _ | .json _
  | .vec _ | .expansion | .compound _ => rfl

theorem lastLayers_trim (o : Omission) (status : Option Nat) (failed : Bool) (es : List Expr) :
    v.lastLayers status failed (trimAll o .read es) = (v.lastLayers status failed es).trim o := by
  match es with
  | [] => rfl
  | [e] => exact layers_trim o status failed e
  | _ :: second :: rest => exact lastLayers_trim o status failed (second :: rest)

end

theorem bareStatus?_trim (o : Omission) (e : Expr) :
    v.bareStatus? (e.trim o .read) = v.bareStatus? e := by
  cases e with
  | call callee args =>
    have h := v.status?_trim o (.call callee args)
    rw [Expr.trim] at h ⊢
    rw [bareStatus?, bareStatus?, h, Use.inside_read, callName?_trim]
  | _ => rfl

theorem transformed?_trim (e : Expr) :
    v.transformed? (e.trim (quiet v.context) .read) = v.transformed? e := by
  rw [transformed?, transformed?, chainRoot_trim, constructionAt?_trim]
  cases constructionAt? v.context (chainRoot e) with
  | none => rfl
  | some found =>
    have hfirst : (found.first.map (Expr.trim (quiet v.context) .read)).map v.evaluate =
        found.first.map v.evaluate := by
      cases found.first with
      | none => rfl
      | some x => exact congrArg some (v.evaluate_trim x)
    simp only [Option.map_some, constructed_trim]
    rw [Construction.trim, hfirst]

theorem responder?_trim (e : Expr) :
    v.responder? (e.trim (quiet v.context) .read) = (v.responder? e).map fun found =>
        (found.1.trim (quiet v.context) .read, found.2.map (Expr.trim (quiet v.context) .read)) :=
  findSome?_trim overlooks_responders (responded?_trim (quiet v.context) v) e

theorem response_trim (e : Expr) : v.response (e.trim (quiet v.context) .read) = v.response e := by
  have hlayers := v.layers_trim (quiet v.context) none false e
  have hpayload : (v.layers none false (e.trim (quiet v.context) .read)).payload =
      (v.layers none false e).payload.trim (quiet v.context) .read := by rw [hlayers, Layers.trim]
  have hfallback : (v.layers none false (e.trim (quiet v.context) .read)).fallback =
      (v.layers none false e).fallback := by
    rw [hlayers]
    rfl
  simp only [response, hpayload, hfallback, bareStatus?_trim, transformed?_trim, responder?_trim,
    evaluate_trim]
  cases v.responder? (v.layers none false e).payload with
  | none => rfl
  | some found =>
    obtain ⟨body, rest⟩ := found
    have hcode : ((rest.map (Expr.trim (quiet v.context) .read)).head?.bind v.status?) =
        rest.head?.bind v.status? := by
      cases rest with
      | nil => rfl
      | cons x rest => exact v.status?_trim _ x
    simp only [Option.map_some, hcode, evaluate_trim]

end Evaluator

namespace Scan

variable (c : Context) (parameters : List Parameter)

/-- A use in which the value of an expression is read if the body ends with it. -/
def Suits (tail : Bool) (use : Use) : Prop := tail = true → use ≠ .passed

theorem trim_of_suits (o : Omission) {use : Use} (hpassed : use ≠ .passed) {e : Expr}
    (hforked : e.isForked = false) : e.trim o use = e.trim o .read := by
  cases use with
  | passed => exact absurd rfl hpassed
  | read => rfl
  | ending =>
    cases e with
    | branch | cases | block | unchecked => cases hforked
    | _ => rfl

variable {c parameters}

theorem suits_false (use : Use) : Suits false use := nofun

theorem suits_last {tail : Bool} {use : Use} (h : Suits tail use) (isLast closed : Bool) :
    Suits (tail && isLast && !closed) (if isLast && !closed then use else use.beside) := by
  intro hends
  obtain ⟨⟨htail, rfl⟩, rfl⟩ : (tail = true ∧ isLast = true) ∧ closed = false := by
    simpa using hends
  exact h htail

theorem record_trim (s : Scan) (e : Expr) :
    s.record c parameters (e.trim (quiet c) .read) = s.record c parameters e := by
  have hresponse : (s.evaluator c parameters).response (e.trim (quiet c) .read) =
      (s.evaluator c parameters).response e := (s.evaluator c parameters).response_trim e
  rw [record, record, hresponse]

theorem site_trim {tail : Bool} {use : Use} (h : Suits tail use) {s s' : Scan} (hs : s = s')
    (e : Expr) (hforked : e.isForked = false) :
    s.site c parameters tail (e.trim (quiet c) use) = s'.site c parameters tail e := by
  subst hs
  cases tail with
  | false => rfl
  | true =>
    rw [trim_of_suits (quiet c) (h rfl) hforked]
    exact s.record_trim e

theorem bind_trim (name : Option String) (use : Use) (e : Expr) (s : Scan) :
    s.bind c parameters name (e.trim (quiet c) (use.given name)) = s.bind c parameters name e := by
  cases name with
  | none => rfl
  | some name =>
    have hvalue : (s.evaluator c parameters).evaluate (e.trim (quiet c) .read) =
        (s.evaluator c parameters).evaluate e := (s.evaluator c parameters).evaluate_trim e
    simp only [bind, Use.given, Option.isSome_some, if_true, hvalue]

mutual

/-- A pass meets the same in a tree as in the trimmed tree. -/
theorem expr_trim {tail : Bool} {use : Use} (h : Suits tail use) (e : Expr) (s : Scan) :
    expr c parameters tail (e.trim (quiet c) use) s = expr c parameters tail e s := by
  match e with
  | .lit value => exact site_trim h rfl (.lit value) rfl
  | .path path inner => exact site_trim h (exprs_trim use.inside inner s) (.path path inner) rfl
  | .paren e => exact site_trim h (expr_trim (suits_false use.inside) e s) (.paren e) rfl
  | .reference e => exact site_trim h (expr_trim (suits_false use.inside) e s) (.reference e) rfl
  | .negate e => exact site_trim h (expr_trim (suits_false use.inside) e s) (.negate e) rfl
  | .tuple elements => exact site_trim h (exprs_trim use.inside elements s) (.tuple elements) rfl
  | .array elements => exact site_trim h (exprs_trim use.inside elements s) (.array elements) rfl
  | .record path inner fieldInits rest =>
    refine site_trim h ?_ (.record path inner fieldInits rest) rfl
    rw [exprs_trim use.inside inner s, fields_trim use.inside fieldInits,
      option_trim (suits_false use.inside) rest]
  | .call callee args =>
    refine site_trim h ?_ (.call callee args) rfl
    rw [expr_trim (suits_false use.inside) callee s, exprs_trim use.inside args]
  | .method receiver name inner args =>
    refine site_trim h ?_ (.method receiver name inner args) rfl
    rw [expr_trim (suits_false use.inside) receiver s, exprs_trim use.inside inner,
      exprs_trim use.inside args]
  | .field base => exact site_trim h (expr_trim (suits_false use.inside) base s) (.field base) rfl
  | .index base position =>
    refine site_trim h ?_ (.index base position) rfl
    rw [expr_trim (suits_false use.inside) base s, expr_trim (suits_false use.inside) position]
  | .await e => exact site_trim h (expr_trim (suits_false use.inside) e s) (.await e) rfl
  | .attempt e => exact site_trim h (expr_trim (suits_false use.inside) e s) (.attempt e) rfl
  | .assign left right =>
    refine site_trim h ?_ (.assign left right) rfl
    rw [expr_trim (suits_false _) right s, localName?_trim, bind_trim]
  | .ret none => rfl
  | .ret (some e) =>
    have he := expr_trim (suits_false .read) e s
    rw [Expr.trim, trimOption, expr, expr, he, record_trim]
  | .closure parts => exact site_trim h rfl (.closure parts) rfl
  | .async body => exact site_trim h rfl (.async body) rfl
  | .branch condition body otherwise =>
    rw [Expr.trim, expr, expr, expr_trim (suits_false use.beside) condition s, stmts_trim h body,
      option_trim h otherwise]
  | .cases subject alternatives =>
    rw [Expr.trim, expr, expr, expr_trim (suits_false use.beside) subject s,
      arms_trim h alternatives]
  | .block body => exact stmts_trim h body s
  | .unchecked body => exact stmts_trim h body s
  | .json template => exact site_trim h rfl (.json template) rfl
  | .vec elements => exact site_trim h rfl (.vec elements) rfl
  | .expansion => exact site_trim h rfl .expansion rfl
  | .compound parts => exact site_trim h (exprs_trim use.inside parts s) (.compound parts) rfl

theorem exprs_trim (use : Use) (es : List Expr) (s : Scan) :
    exprs c parameters (trimAll (quiet c) use es) s = exprs c parameters es s := by
  match es with
  | [] => rfl
  | e :: rest => rw [trimAll, exprs, exprs, expr_trim (suits_false use) e s, exprs_trim use rest]

theorem option_trim {tail : Bool} {use : Use} (h : Suits tail use) (value : Option Expr)
    (s : Scan) : option c parameters tail (trimOption (quiet c) use value) s =
    option c parameters tail value s := by
  match value with
  | none => rfl
  | some e => exact expr_trim h e s

theorem fields_trim (use : Use) (fieldInits : List FieldInit) (s : Scan) :
    fields c parameters (trimFields (quiet c) use fieldInits) s =
      fields c parameters fieldInits s := by
  match fieldInits with
  | [] => rfl
  | .mk name value :: rest =>
    rw [trimFields, fields, fields, expr_trim (suits_false use) value s, fields_trim use rest]

theorem arms_trim {tail : Bool} {use : Use} (h : Suits tail use) (alternatives : List Arm)
    (s : Scan) : arms c parameters tail (trimArms (quiet c) use alternatives) s =
    arms c parameters tail alternatives s := by
  match alternatives with
  | [] => rfl
  | .mk inner guard body :: rest =>
    rw [trimArms, arms, arms, exprs_trim use.beside inner s,
      option_trim (suits_false use.beside) guard, expr_trim h body, arms_trim h rest]

theorem stmts_trim {tail : Bool} {use : Use} (h : Suits tail use) (body : List Stmt) (s : Scan) :
    stmts c parameters tail (trimStmts (quiet c) use body) s = stmts c parameters tail body s := by
  match body with
  | [] => rfl
  | .bind pattern inner none otherwise :: rest => exact stmts_trim h rest s
  | .bind pattern inner (some value) otherwise :: rest =>
    rw [trimStmts, trimOption, stmts, stmts, expr_trim (suits_false _) value s,
      option_trim (suits_false use.beside) otherwise, bind_trim, stmts_trim h rest]
  | .item item :: rest => exact stmts_trim h rest s
  | .expr e closed :: rest =>
    rw [trimStmts, stmts, stmts, isEmpty_trimStmts,
      expr_trim (suits_last h rest.isEmpty closed) e s, stmts_trim h rest]
  | .expansion e closed :: rest =>
    have hsite :
        ∀ ends, s.site c parameters ends (e.trim (quiet c) .read) = s.site c parameters ends e := by
      intro ends
      cases ends with
      | false => rfl
      | true => exact s.record_trim e
    rw [trimStmts, stmts, stmts, isEmpty_trimStmts, hsite, stmts_trim h rest]

end

end Scan

/-- Handlers that differ only in deferred code that nothing is read from are the same: in closures,
in asynchronous blocks and items beside the values that are read, and in those inside such values
that do not gather, construct or respond. -/
theorem ofFunction_eq_of_trim (c : Context) {f g : Function}
    (hattributes : f.attributes = g.attributes) (hname : f.name = g.name)
    (hparams : f.params = g.params)
    (hbody : trimStmts (quiet c) .ending f.body = trimStmts (quiet c) .ending g.body) :
    ofFunction c f = ofFunction c g := by
  have hends : Scan.Suits true .ending := fun _ => by decide
  have hresponses : ∀ f : Function, responsesOf c (parametersOf c f.params) f.body = (Scan.stmts c
        (parametersOf c f.params) true (trimStmts (quiet c) .ending f.body) {}).responses :=
    fun f => congrArg Scan.responses (Scan.stmts_trim hends f.body {}).symm
  rw [ofFunction, ofFunction, hresponses, hresponses, hbody, hattributes, hname, hparams]

def storing : Context where
  scope := .ofItems "src/lib.rs" ["crate"] []
  capabilities := CapabilityIndex.classifier ⟨fun
    | .domainObject => ["crate::User"]
    | _ => []⟩
  conventions := {}
  self := none

def pathOf (names : List String) : Expr :=
  .path (.mk false (names.map fun name => .mk name .none)) []

def finding (key : Expr) : Function :=
  .mk [] "f" [] [] [.expr (.call (pathOf ["User", "find"]) [key]) false]

def paging : Expr := .method (pathOf ["q"]) "paginate" [] []

/-- A closure may hold whatever it does, and so may an asynchronous block that does not gather. -/
theorem ofFunction_finding :
    ofFunction storing (finding (.tuple [.closure [paging], .async [.expr (pathOf ["q"]) false]])) =
      ofFunction storing (finding (.tuple [.closure [], .async []])) := by
  have hquiet : (quiet storing).blocks [.expr (pathOf ["q"]) false] = true := by decide
  refine ofFunction_eq_of_trim storing rfl rfl rfl ?_
  simp [finding, Function.body, trimStmts, Expr.trim, trimAll, hquiet]

def allDeferred : Omission := ⟨fun _ => true, fun _ => true⟩

/-- A call in an asynchronous block decides what is read from the expression around it. -/
theorem not_ofFunction_eq : ¬ ∀ (c : Context) (f g : Function),
    f.attributes = g.attributes → f.name = g.name → f.params = g.params →
      trimStmts allDeferred .ending f.body = trimStmts allDeferred .ending g.body →
      ofFunction c f = ofFunction c g := by
  intro hall
  have heq :=
    hall storing (finding (.async [.expr paging false])) (finding (.async [])) rfl rfl rfl rfl
  have hpages : ((ofFunction storing (finding (.async [.expr paging false]))).responses.map
      fun response => response.shape.isPaginated) = [true] := by decide +kernel
  have hplain : ((ofFunction storing (finding (.async []))).responses.map
      fun response => response.shape.isPaginated) = [false] := by decide +kernel
  rw [heq, hplain] at hpages
  exact absurd hpages (by decide)

end ApiContract.Handler
