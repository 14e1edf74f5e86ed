import ApiContract.Route.Routers

namespace ApiContract.Route

open Source

mutual

/-- Local names that the routes of an expression may be taken from. -/
def freeNames : Expr → List String
  | .method receiver name _ args =>
    freeNames receiver ++ if name = "route" || isLayerMethod name then [] else freeNamesOfAll args
  | .call _ args => freeNamesOfAll args
  | .path path _ => path.ident?.toList
  | .block body => freeNamesOfBody body
  | .paren e => freeNames e
  | .await e => freeNames e
  | .attempt e => freeNames e
  | .reference e => freeNames e
  | .ret (some e) => freeNames e
  | _ => []

def freeNamesOfAll : List Expr → List String
  | [] => []
  | e :: rest => freeNames e ++ freeNamesOfAll rest

def freeNamesOfBody : List Stmt → List String
  | [] => []
  | .bind pattern _ (some value) _ :: rest =>
    freeNames value ++ (freeNamesOfBody rest).filter fun name => boundName? pattern ≠ some name
  | .expr (.assign left right) _ :: rest =>
    freeNames right ++ (freeNamesOfBody rest).filter fun name => assignedName? left ≠ some name
  | .expr e _ :: rest => freeNames e ++ freeNamesOfBody rest
  | _ :: rest => freeNamesOfBody rest

end

/-- Two contexts follow the same calls of a name, with the same routes. -/
def AgreeFor (c c' : ChainContext) (name : String) : Prop :=
  c.isRouter name = c'.isRouter name ∧ (c.isRouter name = true → c.called name = c'.called name)

def AgreeAt (c c' : ChainContext) (e : Expr) : Prop :=
  ∀ path inner args, e = .call (.path path inner) args → AgreeFor c c' (c.scope.resolve path.text)

variable {c c' : ChainContext}

theorem handlerOf?_congr {scope scope' : Scope}
    (h : ∀ name, scope.resolve name = scope'.resolve name) (e : Expr) :
    handlerOf? scope e = handlerOf? scope' e := by
  match e with
  | .path path inner => rw [handlerOf?, handlerOf?, h]
  | .paren e | .reference e => exact handlerOf?_congr h e
  | .lit _ | .negate _ | .tuple _ | .array _ | .record .. | .call .. | .method .. | .field _
  | .index .. | .await _ | .attempt _ | .assign .. | .ret _ | .closure _ | .async _ | .branch ..
  | .cases .. | .block _ | .unchecked _ | .json _ | .vec _ | .expansion | .compound _ => rfl

theorem registered_congr {scope scope' : Scope}
    (h : ∀ name, scope.resolve name = scope'.resolve name) (args : List Expr) :
    registered scope args = registered scope' args := by
  have hhandler : handlerOf? scope = handlerOf? scope' := funext (handlerOf?_congr h)
  cases args with
  | nil => rfl
  | cons path rest =>
    cases rest with
    | nil => rfl
    | cons handlers rest => rw [registered, registered, hhandler]

def AgreeIn (c c' : ChainContext) (nodes : List Expr) : Prop := ∀ x ∈ nodes, AgreeAt c c' x

theorem AgreeIn.of_append {c c' : ChainContext} {nodes more : List Expr}
    (h : AgreeIn c c' (nodes ++ more)) : AgreeIn c c' nodes ∧ AgreeIn c c' more :=
  List.forall_mem_append.mp h

theorem AgreeIn.inside {c c' : ChainContext} {e : Expr} {inside : List Expr}
    (h : AgreeIn c c' (Expr.enter (fun _ => true) e inside)) : AgreeIn c c' inside :=
  fun x hx => h x (List.mem_cons_of_mem _ hx)

def AgreeOn (names : List String) (bindings bindings' : Bindings) : Prop :=
  ∀ name ∈ names, List.lookup name bindings = List.lookup name bindings'

theorem AgreeOn.nil (bindings bindings' : Bindings) : AgreeOn [] bindings bindings' :=
  fun _ hm => absurd hm List.not_mem_nil

theorem AgreeOn.of_append {names more : List String} {bindings bindings' : Bindings}
    (h : AgreeOn (names ++ more) bindings bindings') :
    AgreeOn names bindings bindings' ∧ AgreeOn more bindings bindings' :=
  List.forall_mem_append.mp h

theorem AgreeOn.bind {names : List String} {bindings bindings' : Bindings} {name : String}
    (routes : List Route)
    (h : AgreeOn (names.filter fun other => some name ≠ some other) bindings bindings') :
    AgreeOn names ((name, routes) :: bindings) ((name, routes) :: bindings') := by
  intro other hm
  rw [List.lookup_cons, List.lookup_cons]
  by_cases hother : other = name
  · rw [hother, beq_self_eq_true]
  · have hne : (other == name) = false := beq_eq_false_iff_ne.mpr hother
    have hkept : other ∈ names.filter fun other => some name ≠ some other := by
      simp [hm, Ne.symm hother]
    rw [hne]
    exact h other hkept

theorem AgreeOn.filter {names : List String} {bindings bindings' : Bindings}
    (h : AgreeOn names bindings bindings') (p : String → Bool) :
    AgreeOn (names.filter p) bindings bindings' :=
  fun name hm => h name (List.mem_filter.mp hm).1

theorem AgreeOn.of_filter_none {names : List String} {bindings bindings' : Bindings}
    (h : AgreeOn (names.filter fun name => (none : Option String) ≠ some name) bindings bindings') :
    AgreeOn names bindings bindings' := by
  have hall : (names.filter fun name => (none : Option String) ≠ some name) = names := by simp
  rwa [hall] at h

theorem AgreeOn.last {last : Option String} {bindings bindings' : Bindings} {name : String}
    (routes : List Route) (h : AgreeOn last.toList bindings bindings') :
    AgreeOn (if routes.isEmpty then last else some name).toList ((name, routes) :: bindings)
      ((name, routes) :: bindings') := by
  by_cases hempty : routes.isEmpty = true
  · rw [if_pos hempty]
    exact .bind routes (h.filter _)
  · rw [if_neg hempty]
    exact .bind routes (by simp [AgreeOn])

def isOperand : Expr → Bool
  | .assign .. => false
  | .ret _ => false
  | _ => true

theorem chainOfBody_expr (c : ChainContext) (bindings : Bindings) (last : Option String) {e : Expr}
    (h : isOperand e = true) (closed : Bool) (rest : List Stmt) :
    chainOfBody c bindings last (.expr e closed :: rest) = if rest.isEmpty && !closed then
        if (chain c bindings e).isEmpty then chainOfBody c bindings last rest
          else chain c bindings e
      else chainOfBody c bindings last rest := by
  cases e with
  | assign | ret => cases h
  | _ => rfl

theorem freeNamesOfBody_expr {e : Expr} (h : isOperand e = true) (closed : Bool)
    (rest : List Stmt) :
    freeNamesOfBody (.expr e closed :: rest) = freeNames e ++ freeNamesOfBody rest := by
  cases e with
  | assign | ret => cases h
  | _ => rfl

mutual

/-- The routes of an expression depend on what its calls give and on the local names that are free
in it. -/
theorem chain_congr (h : ∀ name, c.scope.resolve name = c'.scope.resolve name)
    {bindings bindings' : Bindings} (e : Expr) (hcalls : AgreeIn c c' (e.nodes fun _ => true))
    (hfree : AgreeOn (freeNames e) bindings bindings') :
    chain c bindings e = chain c' bindings' e := by
  match e with
  | .paren e | .await e | .attempt e | .reference e => exact chain_congr h e hcalls.inside hfree
  | .ret (some e) => exact chain_congr h e hcalls.inside hfree
  | .ret none => rfl
  | .path path inner =>
    cases hident : path.ident? with
    | none => rw [chain, chain, hident]; rfl
    | some name =>
      have hname : List.lookup name bindings = List.lookup name bindings' :=
        hfree name (by simp [freeNames, hident])
      rw [chain, chain, hident, Option.bind_some, Option.bind_some, hname]
  | .block body => exact chainOfBody_congr h body none hcalls.inside hfree (.nil _ _)
  | .call callee args =>
    have hargs := firstChain_congr h args hcalls.inside.of_append.2 hfree
    cases callee with
    | path path inner =>
      obtain ⟨hrouter, hcalled⟩ := hcalls _ List.mem_cons_self path inner args rfl
      rw [chain, chain, ← h, ← hrouter, hargs]
      split
      next hcallee => exact hcalled hcallee
      next => rfl
    | _ => exact hargs
  | .method receiver name inner args =>
    obtain ⟨hcalls, hcallsArgs⟩ := hcalls.inside.of_append
    obtain ⟨hfree, hfreeArgs⟩ := hfree.of_append
    have hreceiver := chain_congr h receiver hcalls.of_append.1 hfree
    rw [chain, chain, hreceiver, registered_congr h args]
    by_cases hskipped : (name = "route" || isLayerMethod name) = true
    · obtain rfl | rfl | rfl : name = "route" ∨ name = "layer" ∨ name = "route_layer" := by
        simpa [isLayerMethod] using hskipped
      all_goals simp [isLayerMethod]
    · rw [if_neg hskipped] at hfreeArgs
      have hargs := firstChain_congr h args hcallsArgs hfreeArgs
      have hfirst := chainOfFirst_congr h args hcallsArgs hfreeArgs
      have hsecond := chainOfSecond_congr h args hcallsArgs hfreeArgs
      rw [hargs, hfirst, hsecond]
  | .lit _ | .negate _ | .tuple _ | .array _ | .record .. | .field _ | .index .. | .assign ..
  | .closure _ | .async _ | .branch .. | .cases .. | .unchecked _ | .json _ | .vec _ | .expansion
  | .compound _ =>
    rfl

theorem firstChain_congr (h : ∀ name, c.scope.resolve name = c'.scope.resolve name)
    {bindings bindings' : Bindings} (es : List Expr)
    (hcalls : AgreeIn c c' (nodesOfAll (fun _ => true) es))
    (hfree : AgreeOn (freeNamesOfAll es) bindings bindings') :
    firstChain c bindings es = firstChain c' bindings' es := by
  match es with
  | [] => rfl
  | e :: rest =>
    obtain ⟨hcalls, hcallsRest⟩ := hcalls.of_append
    obtain ⟨hfree, hfreeRest⟩ := hfree.of_append
    rw [firstChain, firstChain, chain_congr h e hcalls hfree,
      firstChain_congr h rest hcallsRest hfreeRest]

theorem chainOfFirst_congr (h : ∀ name, c.scope.resolve name = c'.scope.resolve name)
    {bindings bindings' : Bindings} (es : List Expr)
    (hcalls : AgreeIn c c' (nodesOfAll (fun _ => true) es))
    (hfree : AgreeOn (freeNamesOfAll es) bindings bindings') :
    chainOfFirst c bindings es = chainOfFirst c' bindings' es := by
  match es with
  | [] => rfl
  | e :: rest => exact chain_congr h e hcalls.of_append.1 hfree.of_append.1

theorem chainOfSecond_congr (h : ∀ name, c.scope.resolve name = c'.scope.resolve name)
    {bindings bindings' : Bindings} (es : List Expr)
    (hcalls : AgreeIn c c' (nodesOfAll (fun _ => true) es))
    (hfree : AgreeOn (freeNamesOfAll es) bindings bindings') :
    chainOfSecond c bindings es = chainOfSecond c' bindings' es := by
  match es with
  | [] => rfl
  | e :: rest => exact chainOfFirst_congr h rest hcalls.of_append.2 hfree.of_append.2

theorem chainOfBody_congr (h : ∀ name, c.scope.resolve name = c'.scope.resolve name)
    {bindings bindings' : Bindings} (body : List Stmt) (last : Option String)
    (hcalls : AgreeIn c c' (nodesOfStmts (fun _ => true) body))
    (hfree : AgreeOn (freeNamesOfBody body) bindings bindings')
    (hlast : AgreeOn last.toList bindings bindings') :
    chainOfBody c bindings last body = chainOfBody c' bindings' last body := by
  match body with
  | [] =>
    cases last with
    | none => rfl
    | some name =>
      have hname : List.lookup name bindings = List.lookup name bindings' := hlast name (by simp)
      rw [chainOfBody, chainOfBody, Option.bind_some, Option.bind_some, hname]
  | .bind pattern inner (some value) otherwise :: rest =>
    obtain ⟨hcalls, hcallsRest⟩ := hcalls.of_append
    obtain ⟨hfree, hfreeRest⟩ := hfree.of_append
    have hvalue := chain_congr h value hcalls.of_append.1.of_append.2 hfree
    rw [chainOfBody, chainOfBody, hvalue]
    cases hname : boundName? pattern with
    | none =>
      rw [hname] at hfreeRest
      exact chainOfBody_congr h rest last hcallsRest hfreeRest.of_filter_none hlast
    | some name =>
      rw [hname] at hfreeRest
      exact chainOfBody_congr h rest _ hcallsRest (.bind _ hfreeRest) (.last _ hlast)
  | .bind pattern inner none otherwise :: rest =>
    exact chainOfBody_congr h rest last hcalls.of_append.2 hfree hlast
  | .item item :: rest => exact chainOfBody_congr h rest last hcalls.of_append.2 hfree hlast
  | .expansion e closed :: rest => exact chainOfBody_congr h rest last hcalls hfree hlast
  | .expr e closed :: rest =>
    obtain ⟨hcalls, hcallsRest⟩ := hcalls.of_append
    by_cases hoperand : isOperand e = true
    · rw [freeNamesOfBody_expr hoperand] at hfree
      obtain ⟨hfree, hfreeRest⟩ := hfree.of_append
      rw [chainOfBody_expr c _ _ hoperand, chainOfBody_expr c' _ _ hoperand,
        chain_congr h e hcalls hfree, chainOfBody_congr h rest last hcallsRest hfreeRest hlast]
    · cases e with
      | assign left right =>
        obtain ⟨hfree, hfreeRest⟩ := hfree.of_append
        have hvalue := chain_congr h right hcalls.inside.of_append.2 hfree
        rw [chainOfBody, chainOfBody, hvalue]
        cases hname : assignedName? left with
        | none =>
          rw [hname] at hfreeRest
          exact chainOfBody_congr h rest last hcallsRest hfreeRest.of_filter_none hlast
        | some name =>
          rw [hname] at hfreeRest
          exact chainOfBody_congr h rest _ hcallsRest (.bind _ hfreeRest) (.last _ hlast)
      | ret value =>
        cases value with
        | none => rfl
        | some e => exact chain_congr h e hcalls.inside hfree.of_append.1
      | _ => exact absurd rfl hoperand

end

/-- An expression that adds no routes itself: it registers none, and is no call of a router
function. -/
structure IsIdle (c : ChainContext) (e : Expr) : Prop where
  registers : Routers.registers e = false
  calls : ∀ path inner args,
      e = .call (.path path inner) args → c.isRouter (c.scope.resolve path.text) = false

def IdleIn (c : ChainContext) (nodes : List Expr) : Prop := ∀ x ∈ nodes, IsIdle c x

theorem IdleIn.of_append {nodes more : List Expr} (h : IdleIn c (nodes ++ more)) :
    IdleIn c nodes ∧ IdleIn c more :=
  List.forall_mem_append.mp h

theorem IdleIn.inside {e : Expr} {inside : List Expr}
    (h : IdleIn c (Expr.enter (fun _ => true) e inside)) : IdleIn c inside :=
  fun x hx => h x (List.mem_cons_of_mem _ hx)

def AllEmpty (bindings : Bindings) : Prop := ∀ name, (List.lookup name bindings).getD [] = []

theorem AllEmpty.bind {bindings : Bindings} (h : AllEmpty bindings) (name : String) :
    AllEmpty ((name, []) :: bindings) := by
  intro other
  rw [List.lookup_cons]
  split
  · rfl
  · exact h other

theorem registered_of_idle {scope : Scope} {receiver : Expr} {inner args : List Expr}
    (h : Routers.registers (.method receiver "route" inner args) = false) :
    registered scope args = [] := by
  match args with
  | [] | [_] => rfl
  | path :: handlers :: rest =>
    have htext : textOf? path = none := by simpa [Routers.registers] using h
    rw [registered, htext]

theorem textOf?_of_idle {receiver : Expr} {inner args : List Expr}
    (h : Routers.registers (.method receiver "nest" inner args) = false) :
    args.head?.bind textOf? = none := by
  match args with
  | [] => rfl
  | path :: rest => simpa [Routers.registers] using h

mutual

theorem chain_eq_nil {bindings : Bindings} (hempty : AllEmpty bindings) (e : Expr)
    (h : IdleIn c (e.nodes fun _ => true)) : chain c bindings e = [] := by
  match e with
  | .paren e | .await e | .attempt e | .reference e => exact chain_eq_nil hempty e h.inside
  | .ret (some e) => exact chain_eq_nil hempty e h.inside
  | .ret none => rfl
  | .path path inner =>
    rw [chain]
    cases path.ident? with
    | none => rfl
    | some name => exact hempty name
  | .block body => exact chainOfBody_eq_nil hempty body none h.inside
  | .call callee args =>
    have hargs := firstChain_eq_nil hempty args h.inside.of_append.2
    cases callee with
    | path path inner =>
      have hrouter := (h _ List.mem_cons_self).calls path inner args rfl
      rw [chain, hrouter, hargs]
      rfl
    | _ => exact hargs
  | .method receiver name inner args =>
    obtain ⟨hinside, hargs⟩ := h.inside.of_append
    have hreceiver := chain_eq_nil hempty receiver hinside.of_append.1
    have hfirst := firstChain_eq_nil hempty args hargs
    have hmerged := chainOfFirst_eq_nil hempty args hargs
    have hown := (h _ List.mem_cons_self).registers
    rw [chain, hreceiver, hfirst, hmerged]
    by_cases hroute : name = "route"
    · subst hroute
      rw [if_pos rfl, registered_of_idle hown, List.append_nil]
    by_cases hnest : name = "nest"
    · subst hnest
      rw [if_neg hroute, if_pos rfl, textOf?_of_idle hown]
    by_cases hmerge : name = "merge"
    · rw [if_neg hroute, if_neg hnest, if_pos hmerge, List.append_nil]
    rw [if_neg hroute, if_neg hnest, if_neg hmerge]
    cases args.head? <;> simp
  | .lit _ | .negate _ | .tuple _ | .array _ | .record .. | .field _ | .index .. | .assign ..
  | .closure _ | .async _ | .branch .. | .cases .. | .unchecked _ | .json _ | .vec _ | .expansion
  | .compound _ =>
    rfl

theorem firstChain_eq_nil {bindings : Bindings} (hempty : AllEmpty bindings) (es : List Expr)
    (h : IdleIn c (nodesOfAll (fun _ => true) es)) : firstChain c bindings es = [] := by
  match es with
  | [] => rfl
  | e :: rest =>
    obtain ⟨he, hrest⟩ := h.of_append
    rw [firstChain, chain_eq_nil hempty e he, firstChain_eq_nil hempty rest hrest]
    rfl

theorem chainOfFirst_eq_nil {bindings : Bindings} (hempty : AllEmpty bindings) (es : List Expr)
    (h : IdleIn c (nodesOfAll (fun _ => true) es)) : chainOfFirst c bindings es = [] := by
  match es with
  | [] => rfl
  | e :: rest => exact chain_eq_nil hempty e h.of_append.1

theorem chainOfBody_eq_nil {bindings : Bindings} (hempty : AllEmpty bindings) (body : List Stmt)
    (last : Option String) (h : IdleIn c (nodesOfStmts (fun _ => true) body)) :
    chainOfBody c bindings last body = [] := by
  match body with
  | [] =>
    cases last with
    | none => rfl
    | some name => exact hempty name
  | .bind pattern inner (some value) otherwise :: rest =>
    obtain ⟨h, hrest⟩ := h.of_append
    rw [chainOfBody, chain_eq_nil hempty value h.of_append.1.of_append.2]
    split
    · exact chainOfBody_eq_nil (hempty.bind _) rest _ hrest
    · exact chainOfBody_eq_nil hempty rest last hrest
  | .bind pattern inner none otherwise :: rest =>
    exact chainOfBody_eq_nil hempty rest last h.of_append.2
  | .item item :: rest => exact chainOfBody_eq_nil hempty rest last h.of_append.2
  | .expansion e closed :: rest => exact chainOfBody_eq_nil hempty rest last h
  | .expr e closed :: rest =>
    obtain ⟨h, hrest⟩ := h.of_append
    by_cases hoperand : isOperand e = true
    · rw [chainOfBody_expr c _ _ hoperand, chain_eq_nil hempty e h,
        chainOfBody_eq_nil hempty rest last hrest]
      simp
    · cases e with
      | assign left right =>
        rw [chainOfBody, chain_eq_nil hempty right h.inside.of_append.2]
        split
        · exact chainOfBody_eq_nil (hempty.bind _) rest _ hrest
        · exact chainOfBody_eq_nil hempty rest last hrest
      | ret value =>
        cases value with
        | none => rfl
        | some e => exact chain_eq_nil hempty e h.inside
      | _ => exact absurd rfl hoperand

end

end ApiContract.Route
