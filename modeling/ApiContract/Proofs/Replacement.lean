import ApiContract.Proofs.Chains

namespace ApiContract.Route

open Source

def callOf (name : String) : Expr := .call (.path (.ofIdent name) []) []

def givenNames : Stmt → List String
  | .bind pattern _ (some _) _ => (boundName? pattern).toList
  | .expr (.assign left _) _ => (assignedName? left).toList
  | _ => []

/-- One operand is replaced: it stands where routes are taken from, and no local name that is free
in it has been given routes. -/
inductive Replaces (r r' : Expr) : List String → Expr → Expr → Prop where
  | here {given : List String} (hfree : ∀ name ∈ freeNames r, name ∉ given) :
      Replaces r r' given r r'
  | paren {given : List String} {e e' : Expr} (h : Replaces r r' given e e') :
      Replaces r r' given (.paren e) (.paren e')
  | await {given : List String} {e e' : Expr} (h : Replaces r r' given e e') :
      Replaces r r' given (.await e) (.await e')
  | attempt {given : List String} {e e' : Expr} (h : Replaces r r' given e e') :
    Replaces r r' given (.attempt e) (.attempt e')
  | reference {given : List String} {e e' : Expr} (h : Replaces r r' given e e') :
    Replaces r r' given (.reference e) (.reference e')
  | returned {given : List String} {e e' : Expr} (h : Replaces r r' given e e') :
    Replaces r r' given (.ret (some e)) (.ret (some e'))
  | receiver {given : List String} {e e' : Expr} {name : String} {inner args : List Expr}
      (h : Replaces r r' given e e') :
      Replaces r r' given (.method e name inner args) (.method e' name inner args)
  | nested {given : List String} {e e' receiver path : Expr} {inner rest : List Expr}
      (hpath : (textOf? path).isSome = true) (h : Replaces r r' given e e') :
      Replaces r r' given (.method receiver "nest" inner (path :: e :: rest))
        (.method receiver "nest" inner (path :: e' :: rest))
  | merged {given : List String} {e e' receiver : Expr} {inner rest : List Expr}
      (h : Replaces r r' given e e') : Replaces r r' given
      (.method receiver "merge" inner (e :: rest)) (.method receiver "merge" inner (e' :: rest))
  | argument {given : List String} {e e' receiver : Expr} {name : String}
      {inner before after : List Expr}
      (hname : name ∉ ["route", "nest", "merge", "layer", "route_layer"])
      (h : Replaces r r' given e e') :
      Replaces r r' given (.method receiver name inner (before ++ e :: after))
        (.method receiver name inner (before ++ e' :: after))
  | passed {given : List String} {e e' callee : Expr} {before after : List Expr}
      (h : Replaces r r' given e e') : Replaces r r' given (.call callee (before ++ e :: after))
      (.call callee (before ++ e' :: after))
  | bound {given : List String} {e e' : Expr} {before after : List Stmt} {pattern : Pattern}
      {inner : List Expr} {otherwise : Option Expr}
      (h : Replaces r r' (before.flatMap givenNames ++ given) e e') :
      Replaces r r' given (.block (before ++ .bind pattern inner (some e) otherwise :: after))
        (.block (before ++ .bind pattern inner (some e') otherwise :: after))
  | assigned {given : List String} {e e' left : Expr} {before after : List Stmt} {closed : Bool}
    (h : Replaces r r' (before.flatMap givenNames ++ given) e e') :
    Replaces r r' given (.block (before ++ .expr (.assign left e) closed :: after))
      (.block (before ++ .expr (.assign left e') closed :: after))
  | leaving {given : List String} {e e' : Expr} {before after : List Stmt} {closed : Bool}
    (h : Replaces r r' (before.flatMap givenNames ++ given) e e') :
    Replaces r r' given (.block (before ++ .expr (.ret (some e)) closed :: after))
      (.block (before ++ .expr (.ret (some e')) closed :: after))
  | ending {given : List String} {e e' : Expr} {before : List Stmt} (hoperand : isOperand e = true)
    (h : Replaces r r' (before.flatMap givenNames ++ given) e e') :
    Replaces r r' given (.block (before ++ [.expr e false])) (.block (before ++ [.expr e' false]))

section

variable {c c' : ChainContext}

theorem AgreeOn.refl (names : List String) (bindings : Bindings) :
    AgreeOn names bindings bindings :=
  fun _ _ => rfl

theorem chain_agree (h : ∀ name, c.scope.resolve name = c'.scope.resolve name) (bindings : Bindings)
    (e : Expr) (hcalls : AgreeIn c c' (e.nodes fun _ => true)) :
    chain c bindings e = chain c' bindings e :=
  chain_congr h e hcalls (.refl _ _)

theorem forall_given_bind {given more : List String} {bindings : Bindings}
    (h : ∀ entry ∈ bindings, entry.1 ∈ given) {name : String} (hname : name ∈ more)
    (routes : List Route) : ∀ entry ∈ (name, routes) :: bindings, entry.1 ∈ more ++ given :=
  List.forall_mem_cons.mpr
    ⟨List.mem_append_left _ hname, fun entry hm => List.mem_append_right _ (h entry hm)⟩

theorem chainOfBody_append (h : ∀ name, c.scope.resolve name = c'.scope.resolve name)
    {given : List String} {stmt stmt' : Stmt} {after before : List Stmt}
    (hcalls : AgreeIn c c' (nodesOfStmts (fun _ => true) before)) (hrest :
    ∀ (bindings : Bindings) (last : Option String),
      (∀ entry ∈ bindings, entry.1 ∈ before.flatMap givenNames ++ given) →
        chainOfBody c bindings last (stmt :: after) = chainOfBody c' bindings last (stmt' :: after))
    {bindings : Bindings} (hgiven : ∀ entry ∈ bindings, entry.1 ∈ given) (last : Option String) :
    chainOfBody c bindings last (before ++ stmt :: after) =
      chainOfBody c' bindings last (before ++ stmt' :: after) := by
  -- what a statement gives routes joins the names that may have some before the rest is read
  induction before generalizing given bindings last with
  | nil => exact hrest bindings last (by simpa using hgiven)
  | cons first before ih =>
    have hlater : ∀ (bindings : Bindings) (last : Option String),
        (∀ entry ∈ bindings, entry.1 ∈ before.flatMap givenNames ++ (givenNames first ++ given)) →
          chainOfBody c bindings last (stmt :: after) =
            chainOfBody c' bindings last (stmt' :: after) := by
      intro bindings last hm
      refine hrest bindings last fun entry hentry => ?_
      simpa [or_left_comm, or_assoc] using hm entry hentry
    have hkept : ∀ entry ∈ bindings, entry.1 ∈ givenNames first ++ given :=
      fun entry hm => List.mem_append_right _ (hgiven entry hm)
    match first with
    | .bind pattern inner (some value) otherwise =>
      obtain ⟨hcalls, hcallsRest⟩ := hcalls.of_append
      have hvalue := chain_agree h bindings value hcalls.of_append.1.of_append.2
      rw [List.cons_append, List.cons_append, chainOfBody, chainOfBody, hvalue]
      cases hname : boundName? pattern with
      | none => exact ih hcallsRest hlater hkept last
      | some name =>
        have hm : name ∈ givenNames (.bind pattern inner (some value) otherwise) := by
          simp [givenNames, hname]
        exact ih hcallsRest hlater (forall_given_bind hgiven hm _) _
    | .bind pattern inner none otherwise => exact ih hcalls.of_append.2 hlater hkept last
    | .item item => exact ih hcalls.of_append.2 hlater hkept last
    | .expansion e closed => exact ih hcalls hlater hkept last
    | .expr e closed =>
      obtain ⟨hcalls, hcallsRest⟩ := hcalls.of_append
      by_cases hoperand : isOperand e = true
      · have hmore : ∀ stmt : Stmt, (before ++ stmt :: after).isEmpty = false := by simp
        rw [List.cons_append, List.cons_append, chainOfBody_expr c _ _ hoperand,
          chainOfBody_expr c' _ _ hoperand, hmore, hmore]
        exact ih hcallsRest hlater hkept last
      · cases e with
        | assign left right =>
          have hvalue := chain_agree h bindings right hcalls.inside.of_append.2
          rw [List.cons_append, List.cons_append, chainOfBody, chainOfBody, hvalue]
          cases hname : assignedName? left with
          | none => exact ih hcallsRest hlater hkept last
          | some name =>
            have hm : name ∈ givenNames (.expr (.assign left right) closed) := by
              simp [givenNames, hname]
            exact ih hcallsRest hlater (forall_given_bind hgiven hm _) _
        | ret value =>
          cases value with
          | none => rfl
          | some e => exact chain_agree h bindings e hcalls.inside
        | _ => exact absurd rfl hoperand

theorem nodesOfAll_append (into : Expr → Bool) (es more : List Expr) :
    nodesOfAll into (es ++ more) = nodesOfAll into es ++ nodesOfAll into more := by
  induction es with
  | nil => rfl
  | cons e es ih => rw [List.cons_append, nodesOfAll, nodesOfAll, ih, List.append_assoc]

theorem nodesOfStmts_append (into : Expr → Bool) (body more : List Stmt) :
    nodesOfStmts into (body ++ more) = nodesOfStmts into body ++ nodesOfStmts into more := by
  induction body with
  | nil => rfl
  | cons stmt body ih => cases stmt <;> simp [nodesOfStmts, ih]

theorem firstChain_append (h : ∀ name, c.scope.resolve name = c'.scope.resolve name)
    {bindings : Bindings} {e e' : Expr} {before after : List Expr}
    (hcalls : AgreeIn c c' (nodesOfAll (fun _ => true) before))
    (hcallsAfter : AgreeIn c c' (nodesOfAll (fun _ => true) after))
    (he : chain c bindings e = chain c' bindings e') :
    firstChain c bindings (before ++ e :: after) =
      firstChain c' bindings (before ++ e' :: after) := by
  induction before with
  | nil =>
    rw [List.nil_append, List.nil_append, firstChain, firstChain, he,
      firstChain_congr h after hcallsAfter (.refl _ _)]
  | cons first before ih =>
    rw [List.cons_append, List.cons_append, firstChain, firstChain,
      chain_agree h bindings first hcalls.of_append.1, ih hcalls.of_append.2]

theorem Replaces.isOperand {r r' e e' : Expr} {given : List String} (h : Replaces r r' given e e')
    (hr : isOperand r' = true) (he : isOperand e = true) : isOperand e' = true := by
  cases h with
  | here => exact hr
  | returned => cases he
  | _ => rfl

/-- Where an operand is replaced by one that gives the same routes, the routes stay the same. -/
theorem Replaces.chain_eq {r r' : Expr} (h : ∀ name, c.scope.resolve name = c'.scope.resolve name)
    (hoperand : Route.isOperand r' = true)
    (hroutes : ∀ bindings, chain c' bindings r' = chain c [] r) {given : List String} {e e' : Expr}
    (hreplaces : Replaces r r' given e e') (hcalls : AgreeIn c c' (e.nodes fun _ => true))
    {bindings : Bindings} (hgiven : ∀ entry ∈ bindings, entry.1 ∈ given) :
    chain c bindings e = chain c' bindings e' := by
  induction hreplaces generalizing bindings with
  | here hfree =>
    -- a name that is free in the operand has no routes here, just as where it is read alone
    rw [hroutes]
    refine chain_congr (fun _ => rfl) r (fun _ _ _ _ _ _ => ⟨rfl, fun _ => rfl⟩) fun name hm => ?_
    rw [List.lookup_nil, List.lookup_eq_none_iff]
    intro entry hentry
    rw [bne_iff_ne]
    exact fun heq => hfree name hm (heq ▸ hgiven entry hentry)
  | paren _ ih | await _ ih | attempt _ ih | reference _ ih | returned _ ih =>
    exact ih hcalls.inside hgiven
  | receiver _ ih =>
    obtain ⟨hcalls, hargs⟩ := hcalls.inside.of_append
    rw [chain, chain, ih hcalls.of_append.1 hgiven, registered_congr h,
      firstChain_congr h _ hargs (.refl _ _), chainOfFirst_congr h _ hargs (.refl _ _),
      chainOfSecond_congr h _ hargs (.refl _ _)]
  | nested hpath _ ih =>
    obtain ⟨hcalls, hargs⟩ := hcalls.inside.of_append
    have hreceiver := chain_agree h bindings _ hcalls.of_append.1
    have he := ih hargs.of_append.2.of_append.1 hgiven
    simp [chain, chainOfSecond, chainOfFirst, hreceiver, he]
  | merged _ ih =>
    obtain ⟨hcalls, hargs⟩ := hcalls.inside.of_append
    have hreceiver := chain_agree h bindings _ hcalls.of_append.1
    have he := ih hargs.of_append.1 hgiven
    simp [chain, chainOfFirst, hreceiver, he]
  | argument hname _ ih =>
    obtain ⟨hcalls, hargs⟩ := hcalls.inside.of_append
    rw [nodesOfAll_append] at hargs
    have hreceiver := chain_agree h bindings _ hcalls.of_append.1
    have he := ih hargs.of_append.2.of_append.1 hgiven
    have hfirst := firstChain_append h hargs.of_append.1 hargs.of_append.2.of_append.2 he
    obtain ⟨hroute, hnest, hmerge, hlayer, hrouteLayer⟩ := by simpa using hname
    simp [chain, isLayerMethod, hroute, hnest, hmerge, hlayer, hrouteLayer, hreceiver, hfirst]
  | @passed given e e' callee before after _ ih =>
    have hargs := hcalls.inside.of_append.2
    rw [nodesOfAll_append] at hargs
    have he := ih hargs.of_append.2.of_append.1 hgiven
    have hfirst := firstChain_append h hargs.of_append.1 hargs.of_append.2.of_append.2 he
    cases callee with
    | path path inner =>
      obtain ⟨hrouter, hcalled⟩ := hcalls _ List.mem_cons_self path inner _ rfl
      rw [chain, chain, ← h, ← hrouter, hfirst]
      split
      next hcallee => exact hcalled hcallee
      next => rfl
    | _ => exact hfirst
  | @bound given e e' before after pattern inner otherwise _ ih =>
    have hbody := hcalls.inside
    rw [nodesOfStmts_append] at hbody
    refine chainOfBody_append h hbody.of_append.1 (fun bindings last hgiven => ?_) hgiven none
    obtain ⟨hstmt, hafter⟩ := hbody.of_append.2.of_append
    rw [chainOfBody, chainOfBody, ih hstmt.of_append.1.of_append.2 hgiven]
    cases boundName? pattern with
    | none => exact chainOfBody_congr h after _ hafter (.refl _ _) (.refl _ _)
    | some name => exact chainOfBody_congr h after _ hafter (.refl _ _) (.refl _ _)
  | @assigned given e e' left before after closed _ ih =>
    have hbody := hcalls.inside
    rw [nodesOfStmts_append] at hbody
    refine chainOfBody_append h hbody.of_append.1 (fun bindings last hgiven => ?_) hgiven none
    obtain ⟨hstmt, hafter⟩ := hbody.of_append.2.of_append
    rw [chainOfBody, chainOfBody, ih hstmt.inside.of_append.2 hgiven]
    cases assignedName? left with
    | none => exact chainOfBody_congr h after _ hafter (.refl _ _) (.refl _ _)
    | some name => exact chainOfBody_congr h after _ hafter (.refl _ _) (.refl _ _)
  | leaving _ ih =>
    have hbody := hcalls.inside
    rw [nodesOfStmts_append] at hbody
    refine chainOfBody_append h hbody.of_append.1 (fun bindings last hgiven => ?_) hgiven none
    exact ih hbody.of_append.2.of_append.1.inside hgiven
  | ending he hinside ih =>
    have hbody := hcalls.inside
    rw [nodesOfStmts_append] at hbody
    refine chainOfBody_append h hbody.of_append.1 (fun bindings last hgiven => ?_) hgiven none
    rw [chainOfBody_expr c _ _ he, chainOfBody_expr c' _ _ (hinside.isOperand hoperand he),
      ih hbody.of_append.2.of_append.1 hgiven, chainOfBody, chainOfBody]

end

/-- What an expression calls by a path, and whether it registers a route. -/
def trace : Expr → Option Source.Path × Bool
  | .call (.path path _) _ => (some path, false)
  | e => (none, Routers.registers e)

def DifferIn {α : Type} (part part' whole whole' : List α) : Prop :=
  ∃ before after, whole = before ++ part ++ after ∧ whole' = before ++ part' ++ after

namespace DifferIn

variable {α : Type} {part part' whole whole' : List α}

theorem refl : DifferIn part part' part part' := ⟨[], [], by simp, by simp⟩

theorem append (h : DifferIn part part' whole whole') (more : List α) :
    DifferIn part part' (whole ++ more) (whole' ++ more) := by
  obtain ⟨before, after, rfl, rfl⟩ := h
  exact ⟨before, after ++ more, by simp, by simp⟩

theorem prepend (h : DifferIn part part' whole whole') (more : List α) :
    DifferIn part part' (more ++ whole) (more ++ whole') := by
  obtain ⟨before, after, rfl, rfl⟩ := h
  exact ⟨more ++ before, after, by simp, by simp⟩

theorem cons (h : DifferIn part part' whole whole') (x : α) :
    DifferIn part part' (x :: whole) (x :: whole') :=
  h.prepend [x]

end DifferIn

def tracesOf (nodes : List Expr) : List (Option Source.Path × Bool) := nodes.map trace

theorem tracesOf_cons (e : Expr) (nodes : List Expr) :
    tracesOf (e :: nodes) = trace e :: tracesOf nodes :=
  rfl

theorem tracesOf_append (nodes more : List Expr) :
    tracesOf (nodes ++ more) = tracesOf nodes ++ tracesOf more :=
  List.map_append

theorem Replaces.traces {r r' e e' : Expr} {given : List String} (h : Replaces r r' given e e') :
    DifferIn (tracesOf (r.nodes fun _ => true)) (tracesOf (r'.nodes fun _ => true))
      (tracesOf (e.nodes fun _ => true)) (tracesOf (e'.nodes fun _ => true)) := by
  induction h with
  | here => exact .refl
  | paren _ ih | await _ ih | attempt _ ih | reference _ ih | returned _ ih => exact ih.cons _
  | @receiver given e e' name inner args _ ih =>
    have hown : trace (.method e' name inner args) = trace (.method e name inner args) := by
      cases args <;> rfl
    simp only [Expr.nodes, Expr.enter, tracesOf_cons, tracesOf_append, if_true, hown]
    exact ((ih.append _).append _).cons _
  | nested hpath _ ih =>
    simp only [Expr.nodes, Expr.enter, nodesOfAll, tracesOf_cons, tracesOf_append, if_true]
    exact (((ih.append _).prepend _).prepend _).cons _
  | merged _ ih =>
    simp only [Expr.nodes, Expr.enter, nodesOfAll, tracesOf_cons, tracesOf_append, if_true]
    exact ((ih.append _).prepend _).cons _
  | @argument given e e' receiver name inner before after hname _ ih =>
    have hother : ∀ args, trace (.method receiver name inner args) = (none, false) := by
      intro args
      cases args <;> simp_all [trace, Routers.registers]
    simp only [Expr.nodes, Expr.enter, nodesOfAll_append, nodesOfAll, tracesOf_cons,
      tracesOf_append, if_true, hother]
    exact (((ih.append _).prepend _).prepend _).cons _
  | @passed given e e' callee before after _ ih =>
    have hown : trace (.call callee (before ++ e' :: after)) =
        trace (.call callee (before ++ e :: after)) := by
      cases callee <;> rfl
    simp only [Expr.nodes, Expr.enter, nodesOfAll_append, nodesOfAll, tracesOf_cons,
      tracesOf_append, if_true, hown]
    exact (((ih.append _).prepend _).prepend _).cons _
  | bound _ ih =>
    simp only [Expr.nodes, Expr.enter, nodesOfStmts_append, nodesOfStmts, nodesOfOption,
      tracesOf_cons, tracesOf_append, if_true]
    exact ((((ih.prepend _).append _).append _).prepend _).cons _
  | assigned _ ih =>
    simp only [Expr.nodes, Expr.enter, nodesOfStmts_append, nodesOfStmts, tracesOf_cons,
      tracesOf_append, if_true]
    exact ((((ih.prepend _).cons _).append _).prepend _).cons _
  | leaving _ ih =>
    simp only [Expr.nodes, Expr.enter, nodesOfStmts_append, nodesOfStmts, nodesOfOption,
      tracesOf_cons, tracesOf_append, if_true]
    exact (((ih.cons _).append _).prepend _).cons _
  | ending _ _ ih =>
    simp only [Expr.nodes, Expr.enter, nodesOfStmts_append, nodesOfStmts, tracesOf_cons,
      tracesOf_append, if_true]
    exact ((ih.append _).prepend _).cons _

end ApiContract.Route
