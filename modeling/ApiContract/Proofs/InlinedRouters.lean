import ApiContract.Proofs.CarriedRoutes
import ApiContract.Proofs.NestedRouters

namespace ApiContract.Route

open Source

abbrev Givens := List (String × Expr)

namespace Givens

def hide (name : String) (given : Givens) : Givens := given.filter fun entry => entry.1 ≠ name

theorem lookup_hide (given : Givens) (name other : String) : List.lookup other (given.hide name) =
    if other = name then none else List.lookup other given := by
  induction given with
  | nil => simp [hide]
  | cons entry given ih =>
    rw [hide] at ih ⊢
    by_cases hname : entry.1 = name
    · rw [List.filter_cons_of_neg (by simpa using hname), ih, List.lookup_cons, hname]
      by_cases hother : other = name
      · rw [if_pos hother, if_pos hother]
      · rw [beq_eq_false_iff_ne.mpr hother]
    · rw [List.filter_cons_of_pos (by simpa using hname), List.lookup_cons, List.lookup_cons, ih]
      by_cases hother : other = entry.1
      · rw [hother, beq_self_eq_true, if_neg hname, if_neg hname]
      · rw [beq_eq_false_iff_ne.mpr hother]

end Givens

mutual

/-- An expression in which names are replaced, wherever routes are taken from them. -/
def inlined (given : Givens) : Expr → Expr
  | .method receiver name inner args =>
    .method (inlined given receiver) name inner
      (if name = "route" || isLayerMethod name then args
      else if name = "nest" then inlinedRest given args
      else inlinedAll given args)
  | .call callee args => .call callee (inlinedAll given args)
  | .path path inner =>
    (path.ident?.bind fun name => List.lookup name given).getD (.path path inner)
  | .block body => .block (inlinedBody given body)
  | .paren e => .paren (inlined given e)
  | .await e => .await (inlined given e)
  | .attempt e => .attempt (inlined given e)
  | .reference e => .reference (inlined given e)
  | .ret (some e) => .ret (some (inlined given e))
  | e => e

def inlinedAll (given : Givens) : List Expr → List Expr
  | [] => []
  | e :: rest => inlined given e :: inlinedAll given rest

def inlinedRest (given : Givens) : List Expr → List Expr
  | [] => []
  | e :: rest => e :: inlinedAll given rest

def inlinedBody (given : Givens) : List Stmt → List Stmt
  | [] => []
  | .bind pattern inner (some value) otherwise :: rest =>
    .bind pattern inner (some (inlined given value)) otherwise ::
      (match boundName? pattern with
      | some name => inlinedBody (given.hide name) rest
      | none => inlinedBody given rest)
  | .expr (.assign left right) closed :: rest =>
    .expr (.assign left (inlined given right)) closed ::
      (match assignedName? left with
      | some name => inlinedBody (given.hide name) rest
      | none => inlinedBody given rest)
  | .expr e closed :: rest => .expr (inlined given e) closed :: inlinedBody given rest
  | stmt :: rest => stmt :: inlinedBody given rest

end

/-- An assignment or a `return` is put in parentheses where it stands for a name, so that it does
not become a statement. -/
def asOperand (e : Expr) : Expr := if isOperand e then e else .paren e

theorem isOperand_asOperand (e : Expr) : isOperand (asOperand e) = true := by
  by_cases h : isOperand e = true
  · rwa [asOperand, if_pos h]
  · rw [asOperand, if_neg h]
    rfl

/-- What stands for the names after some have been given expressions, each with the names before it
replaced. -/
def settled (given : Givens) : List (String × Expr) → Givens
  | [] => given
  | (name, e) :: rest => settled ((name, asOperand (inlined given e)) :: given) rest

def bound (c : ChainContext) (bindings : Bindings) : List (String × Expr) → Bindings
  | [] => bindings
  | (name, e) :: rest => bound c ((name, chain c bindings e) :: bindings) rest

def blockNames (nodes : List Expr) : List String :=
  nodes.flatMap fun
    | .block body => body.filterMap fun stmt => (given? stmt).map Prod.fst
    | _ => []

/-- No block among some expressions gives one of these names anything. -/
def Avoids (names : List String) (nodes : List Expr) : Prop :=
  ∀ name ∈ blockNames nodes, name ∉ names

instance (names : List String) (nodes : List Expr) : Decidable (Avoids names nodes) :=
  inferInstanceAs (Decidable (∀ name ∈ blockNames nodes, name ∉ names))

namespace Avoids

variable {names more : List String} {nodes later : List Expr}

theorem of_append (h : Avoids names (nodes ++ later)) :
    Avoids names nodes ∧ Avoids names later := by
  rw [Avoids, blockNames, List.flatMap_append] at h
  exact List.forall_mem_append.mp h

theorem append (h : Avoids names nodes) (h' : Avoids more nodes) :
    Avoids (names ++ more) nodes := by
  intro name hm hname
  obtain hname | hname := List.mem_append.mp hname
  · exact h name hm hname
  · exact h' name hm hname

theorem inside {e : Expr} {inside : List Expr}
    (h : Avoids names (Expr.enter (fun _ => true) e inside)) : Avoids names inside :=
  fun name hm => h name (List.mem_append_right _ hm)

theorem not_mem {body : List Stmt} (h : Avoids names ((Expr.block body).nodes fun _ => true)) :
    ∀ stmt ∈ body, ∀ name e, given? stmt = some (name, e) → name ∉ names := by
  intro stmt hm name e hgiven
  refine h name (List.mem_append_left _ (List.mem_filterMap.mpr ⟨stmt, hm, ?_⟩))
  rw [hgiven]
  rfl

end Avoids

variable {c : ChainContext}

theorem chain_asOperand (bindings : Bindings) (e : Expr) :
    chain c bindings (asOperand e) = chain c bindings e := by
  rw [asOperand]
  split <;> rfl

/-- Expressions that can stand for names in a block that gives none of `names` anything: they are
operands, and their routes depend on no other names. -/
def Fits (c : ChainContext) (names : List String) (given : Givens) : Prop :=
  ∀ entry ∈ given, isOperand entry.2 = true ∧ ∀ bindings bindings',
      AgreeOn names bindings bindings' → chain c bindings entry.2 = chain c bindings' entry.2

/-- The expressions have the routes, under the second bindings, that their names have under the
first. -/
def StandsFor (c : ChainContext) (given : Givens) (bindings bindings' : Bindings) : Prop :=
  ∀ name, (List.lookup name bindings).getD [] =
    match List.lookup name given with
    | some e => chain c bindings' e
    | none => (List.lookup name bindings').getD []

namespace Fits

variable {names : List String} {given : Givens}

theorem hide (h : Fits c names given) (name : String) : Fits c names (given.hide name) :=
  fun entry hm => h entry (List.mem_filter.mp hm).1

theorem of_lookup (h : Fits c names given) {name : String} {e : Expr}
    (hlookup : List.lookup name given = some e) : isOperand e = true ∧ ∀ bindings bindings',
      AgreeOn names bindings bindings' → chain c bindings e = chain c bindings' e := by
  obtain ⟨before, after, rfl, -⟩ := List.lookup_eq_some_iff.mp hlookup
  exact h (name, e) (List.mem_append_right _ List.mem_cons_self)

end Fits

theorem agreeOn_bind_of_not_mem {names : List String} {name : String} (h : name ∉ names)
    (routes : List Route) (bindings : Bindings) :
    AgreeOn names bindings ((name, routes) :: bindings) := by
  intro other hm
  have hne : (other == name) = false := beq_eq_false_iff_ne.mpr fun he => h (he ▸ hm)
  rw [List.lookup_cons, hne]

namespace StandsFor

variable {names : List String} {given : Givens} {bindings bindings' : Bindings}

theorem hide (h : StandsFor c given bindings bindings') (hfits : Fits c names given) {name : String}
    (hname : name ∉ names) (routes : List Route) :
    StandsFor c (given.hide name) ((name, routes) :: bindings) ((name, routes) :: bindings') := by
  intro other
  rw [Givens.lookup_hide]
  by_cases hother : other = name
  · simp [hother]
  · have hne : (other == name) = false := beq_eq_false_iff_ne.mpr hother
    rw [if_neg hother, List.lookup_cons, List.lookup_cons, hne, h other]
    cases hlookup : List.lookup other given with
    | none => rfl
    | some e =>
      exact (hfits.of_lookup hlookup).2 _ _ (agreeOn_bind_of_not_mem hname routes bindings')

end StandsFor

theorem lookup_hide_last {given : Givens} {last : Option String}
    (h : ∀ name, last = some name → List.lookup name given = none) {name : String}
    (routes : List Route) (other : String)
    (hother : (if routes.isEmpty then last else some name) = some other) :
    List.lookup other (given.hide name) = none := by
  rw [Givens.lookup_hide]
  split at hother
  · rw [h other hother, ite_self]
  · rw [if_pos (Option.some.inj hother).symm]

theorem isEmpty_inlinedBody (given : Givens) (body : List Stmt) :
    (inlinedBody given body).isEmpty = body.isEmpty := by
  match body with
  | [] => rfl
  | .bind pattern inner (some value) otherwise :: rest => rfl
  | .bind pattern inner none otherwise :: rest | .item item :: rest | .expansion e closed :: rest =>
    rfl
  | .expr e closed :: rest => cases e <;> rfl

theorem inlinedBody_expr (given : Givens) {e : Expr} (h : isOperand e = true) (closed : Bool)
    (rest : List Stmt) : inlinedBody given (.expr e closed :: rest) =
    .expr (inlined given e) closed :: inlinedBody given rest := by
  cases e with
  | assign => cases h
  | _ => rfl

theorem isOperand_inlined {names : List String} {given : Givens} (hfits : Fits c names given)
    {e : Expr} (h : isOperand e = true) : isOperand (inlined given e) = true := by
  cases e with
  | path path inner =>
    rw [inlined]
    cases hident : path.ident? with
    | none => rfl
    | some name =>
      rw [Option.bind_some]
      cases hlookup : List.lookup name given with
      | none => rfl
      | some e => exact (hfits.of_lookup hlookup).1
  | assign | ret => cases h
  | _ => rfl

theorem head?_inlinedRest (given : Givens) (args : List Expr) :
    (inlinedRest given args).head? = args.head? := by
  cases args <;> rfl

mutual

/-- Names may be replaced by expressions that have the same routes, where no block in between gives
anything to a name that these expressions depend on. -/
theorem chain_inlined {names : List String} {given : Givens} {bindings bindings' : Bindings}
    (hfits : Fits c names given) (hstands : StandsFor c given bindings bindings') (e : Expr)
    (havoids : Avoids names (e.nodes fun _ => true)) :
    chain c bindings' (inlined given e) = chain c bindings e := by
  match e with
  | .paren e | .await e | .attempt e | .reference e =>
    exact chain_inlined hfits hstands e havoids.inside
  | .ret (some e) => exact chain_inlined hfits hstands e havoids.inside
  | .ret none => rfl
  | .path path inner =>
    rw [inlined]
    cases hident : path.ident? with
    | none => rw [Option.bind_none, Option.getD_none, chain, chain, hident]; rfl
    | some name =>
      have hname := hstands name
      rw [Option.bind_some, chain, hident, Option.bind_some, hname]
      cases List.lookup name given with
      | none => rw [Option.getD_none, chain, hident, Option.bind_some]
      | some e => rfl
  | .block body =>
    exact chainOfBody_inlined hfits hstands body none (fun _ h => nomatch h) havoids.inside
      havoids.not_mem
  | .call callee args =>
    have hargs := firstChain_inlined hfits hstands args havoids.inside.of_append.2
    cases callee with
    | path path inner => rw [inlined, chain, chain, hargs]
    | _ => exact hargs
  | .method receiver name inner args =>
    obtain ⟨hreceiver, hargs⟩ := havoids.inside.of_append
    have hbefore := chain_inlined hfits hstands receiver hreceiver.of_append.1
    have hfirst := firstChain_inlined hfits hstands args hargs
    have hmerged := chainOfFirst_inlined hfits hstands args hargs
    have hnested := chainOfSecond_inlined hfits hstands args hargs
    rw [inlined, chain, chain, hbefore]
    by_cases hroute : name = "route"
    · simp [hroute]
    by_cases hnest : name = "nest"
    · simp [hnest, isLayerMethod, head?_inlinedRest, hnested]
    by_cases hmerge : name = "merge"
    · simp [hmerge, isLayerMethod, hmerged]
    by_cases hlayer : isLayerMethod name = true
    · simp [hroute, hnest, hmerge, hlayer]
    · simp [hroute, hnest, hmerge, hlayer, hfirst]
  | .lit _ | .negate _ | .tuple _ | .array _ | .record .. | .field _ | .index .. | .assign ..
  | .closure _ | .async _ | .branch .. | .cases .. | .unchecked _ | .json _ | .vec _ | .expansion
  | .compound _ =>
    rfl

theorem firstChain_inlined {names : List String} {given : Givens} {bindings bindings' : Bindings}
    (hfits : Fits c names given) (hstands : StandsFor c given bindings bindings') (es : List Expr)
    (havoids : Avoids names (nodesOfAll (fun _ => true) es)) :
    firstChain c bindings' (inlinedAll given es) = firstChain c bindings es := by
  match es with
  | [] => rfl
  | e :: rest =>
    obtain ⟨he, hrest⟩ := havoids.of_append
    rw [inlinedAll, firstChain, firstChain, chain_inlined hfits hstands e he,
      firstChain_inlined hfits hstands rest hrest]

theorem chainOfFirst_inlined {names : List String} {given : Givens} {bindings bindings' : Bindings}
    (hfits : Fits c names given) (hstands : StandsFor c given bindings bindings') (es : List Expr)
    (havoids : Avoids names (nodesOfAll (fun _ => true) es)) :
    chainOfFirst c bindings' (inlinedAll given es) = chainOfFirst c bindings es := by
  match es with
  | [] => rfl
  | e :: rest => exact chain_inlined hfits hstands e havoids.of_append.1

theorem chainOfSecond_inlined {names : List String} {given : Givens} {bindings bindings' : Bindings}
    (hfits : Fits c names given) (hstands : StandsFor c given bindings bindings') (es : List Expr)
    (havoids : Avoids names (nodesOfAll (fun _ => true) es)) :
    chainOfSecond c bindings' (inlinedRest given es) = chainOfSecond c bindings es := by
  match es with
  | [] => rfl
  | e :: rest => exact chainOfFirst_inlined hfits hstands rest havoids.of_append.2

theorem chainOfBody_inlined {names : List String} {given : Givens} {bindings bindings' : Bindings}
    (hfits : Fits c names given) (hstands : StandsFor c given bindings bindings') (body : List Stmt)
    (last : Option String) (hlast : ∀ name, last = some name → List.lookup name given = none)
    (havoids : Avoids names (nodesOfStmts (fun _ => true) body))
    (hown : ∀ stmt ∈ body, ∀ name e, given? stmt = some (name, e) → name ∉ names) :
    chainOfBody c bindings' last (inlinedBody given body) = chainOfBody c bindings last body := by
  match body with
  | [] =>
    cases last with
    | none => rfl
    | some name =>
      have hname := hstands name
      rw [hlast name rfl] at hname
      exact hname.symm
  | .bind pattern inner (some value) otherwise :: rest =>
    obtain ⟨hstmt, hrest⟩ := havoids.of_append
    obtain ⟨hfirst, hlater⟩ := List.forall_mem_cons.mp hown
    have hvalue := chain_inlined hfits hstands value hstmt.of_append.1.of_append.2
    rw [inlinedBody, chainOfBody, chainOfBody, hvalue]
    cases hname : boundName? pattern with
    | none => exact chainOfBody_inlined hfits hstands rest last hlast hrest hlater
    | some name =>
      have hnew : name ∉ names := hfirst name value (by rw [given?, hname]; rfl)
      exact chainOfBody_inlined (hfits.hide name) (hstands.hide hfits hnew _) rest _
        (lookup_hide_last hlast _) hrest hlater
  | .bind pattern inner none otherwise :: rest =>
    exact chainOfBody_inlined hfits hstands rest last hlast havoids.of_append.2
      (List.forall_mem_cons.mp hown).2
  | .item item :: rest =>
    exact chainOfBody_inlined hfits hstands rest last hlast havoids.of_append.2
      (List.forall_mem_cons.mp hown).2
  | .expansion e closed :: rest =>
    exact chainOfBody_inlined hfits hstands rest last hlast havoids (List.forall_mem_cons.mp hown).2
  | .expr e closed :: rest =>
    obtain ⟨he, hrest⟩ := havoids.of_append
    obtain ⟨hfirst, hlater⟩ := List.forall_mem_cons.mp hown
    by_cases hoperand : isOperand e = true
    · have hafter := chainOfBody_inlined hfits hstands rest last hlast hrest hlater
      rw [inlinedBody_expr given hoperand, chainOfBody_expr c _ _ hoperand,
        chainOfBody_expr c _ _ (isOperand_inlined hfits hoperand), chain_inlined hfits hstands e he,
        hafter, isEmpty_inlinedBody]
    · cases e with
      | assign left right =>
        have hvalue := chain_inlined hfits hstands right he.inside.of_append.2
        rw [inlinedBody, chainOfBody, chainOfBody, hvalue]
        cases hname : assignedName? left with
        | none => exact chainOfBody_inlined hfits hstands rest last hlast hrest hlater
        | some name =>
          have hnew : name ∉ names := hfirst name right (by rw [given?, hname]; rfl)
          exact chainOfBody_inlined (hfits.hide name) (hstands.hide hfits hnew _) rest _
            (lookup_hide_last hlast _) hrest hlater
      | ret value =>
        cases value with
        | none => rfl
        | some e => exact chain_inlined hfits hstands e he.inside
      | _ => exact absurd rfl hoperand

end

def routesOf (c : ChainContext) (bindings : Bindings) (given : Givens) : Bindings :=
  given.map fun entry => (entry.1, chain c bindings entry.2)

theorem lookup_routesOf (given : Givens) (bindings : Bindings) (name : String) :
    List.lookup name (routesOf c bindings given ++ bindings) =
      match List.lookup name given with
      | some e => some (chain c bindings e)
      | none => List.lookup name bindings := by
  induction given with
  | nil => rfl
  | cons entry given ih =>
    rw [routesOf, List.map_cons, List.cons_append, List.lookup_cons, List.lookup_cons]
    cases name == entry.1 with
    | true => rfl
    | false => exact ih

theorem standsFor_routesOf (given : Givens) (bindings : Bindings) :
    StandsFor c given (routesOf c bindings given ++ bindings) bindings := by
  intro name
  rw [lookup_routesOf]
  cases List.lookup name given <;> rfl

theorem Fits.cons {names : List String} {given : Givens} (hfits : Fits c names given) {e : Expr}
    (havoids : Avoids names (e.nodes fun _ => true)) (name : String) :
    Fits c (names ++ freeNames e) ((name, asOperand (inlined given e)) :: given) := by
  refine List.forall_mem_cons.mpr ⟨⟨isOperand_asOperand _, fun bindings bindings' hagree => ?_⟩, ?_⟩
  · obtain ⟨hnames, hfree⟩ := hagree.of_append
    -- the expression depends on its own names, and those that are replaced on the names before
    have hroutes : AgreeOn (freeNames e) (routesOf c bindings given ++ bindings)
        (routesOf c bindings' given ++ bindings') := by
      intro other hm
      rw [lookup_routesOf, lookup_routesOf]
      cases hlookup : List.lookup other given with
      | none => exact hfree other hm
      | some e => exact congrArg some ((hfits.of_lookup hlookup).2 _ _ hnames)
    rw [chain_asOperand, chain_asOperand,
      chain_inlined hfits (standsFor_routesOf given bindings) e havoids,
      chain_inlined hfits (standsFor_routesOf given bindings') e havoids]
    exact chain_congr (fun _ => rfl) e (fun _ _ _ _ _ _ => ⟨rfl, fun _ => rfl⟩) hroutes
  · intro entry hm
    exact ⟨(hfits entry hm).1,
      fun bindings bindings' hagree => (hfits entry hm).2 _ _ hagree.of_append.1⟩

theorem StandsFor.cons {names : List String} {given : Givens} {bindings : Bindings}
    (hfits : Fits c names given) (hstands : StandsFor c given bindings []) {e : Expr}
    (havoids : Avoids names (e.nodes fun _ => true)) (name : String) : StandsFor c
    ((name, asOperand (inlined given e)) :: given) ((name, chain c bindings e) :: bindings) [] := by
  intro other
  rw [List.lookup_cons, List.lookup_cons]
  cases other == name with
  | true =>
    dsimp only
    rw [Option.getD_some, chain_asOperand, chain_inlined hfits hstands e havoids]
  | false => exact hstands other

theorem chainOfBody_of_givens {stmts : List Stmt} {gives : List (String × Expr)}
    (hgives : stmts.map given? = gives.map some) (bindings : Bindings) (last : Option String)
    (rest : List Stmt) : ∃ last', chainOfBody c bindings last (stmts ++ rest) =
    chainOfBody c (bound c bindings gives) last' rest := by
  induction gives generalizing stmts bindings last with
  | nil =>
    obtain rfl := List.map_eq_nil_iff.mp hgives
    exact ⟨last, rfl⟩
  | cons entry gives ih =>
    obtain ⟨stmt, stmts, rfl, hstmt, hstmts⟩ := List.map_eq_cons_iff.mp hgives
    rw [List.cons_append, chainOfBody_of_given hstmt]
    exact ih hstmts _ _

theorem chain_settled {names : List String} {given : Givens} {bindings : Bindings}
    (hfits : Fits c names given) (hstands : StandsFor c given bindings [])
    {gives : List (String × Expr)} {e : Expr}
    (havoids : ∀ x ∈ gives.map Prod.snd ++ [e], Avoids names (x.nodes fun _ => true))
    (hnested : (gives.map Prod.snd ++ [e]).Pairwise fun x later =>
        Avoids (freeNames x) (later.nodes fun _ => true)) :
    chain c [] (inlined (settled given gives) e) = chain c (bound c bindings gives) e := by
  induction gives generalizing names given bindings with
  | nil => exact chain_inlined hfits hstands e (havoids e (by simp))
  | cons entry gives ih =>
    obtain ⟨hvalue, hrest⟩ := List.forall_mem_cons.mp havoids
    obtain ⟨hlater, hnested⟩ := List.pairwise_cons.mp hnested
    refine ih (hfits.cons hvalue entry.1) (hstands.cons hfits hvalue entry.1)
      (fun x hm => ?_) hnested
    exact (hrest x hm).append (hlater x hm)

/-- A body that gives names routers and finds the routes of its last expression has the routes of
that expression alone, in which every name is replaced by what it was given. The names may be given
something again, and what they are given may use the names before. No block inside may give anything
to a name that an expression before it uses. -/
theorem chainOfBody_eq_inlined {stmts : List Stmt} {gives : List (String × Expr)} {e : Expr}
    (hgives : stmts.map given? = gives.map some) (hnested : (gives.map Prod.snd ++ [e]).Pairwise
      fun x later => Avoids (freeNames x) (later.nodes fun _ => true))
    (hfound : chain c (bound c [] gives) e ≠ []) :
    chainOfBody c [] none (stmts ++ [.expr e false]) =
      chain c [] (inlined (settled [] gives) e) := by
  have hfits : Fits c [] [] := fun entry hm => nomatch hm
  have hstands : StandsFor c [] [] [] := fun _ => rfl
  have hsettled : chain c [] (inlined (settled [] gives) e) = chain c (bound c [] gives) e :=
    chain_settled hfits hstands (fun _ _ _ _ => List.not_mem_nil) hnested
  obtain ⟨last, hread⟩ := chainOfBody_of_givens hgives [] none [.expr e false]
  rw [hread, hsettled]
  by_cases hoperand : isOperand e = true
  · rw [chainOfBody_expr c _ _ hoperand]
    simp [hfound]
  · cases e with
    | assign left right => exact absurd rfl hfound
    | ret value =>
      cases value with
      | none => exact absurd rfl hfound
      | some e => rfl
    | _ => exact absurd rfl hoperand

open Routers.Extraction

def nameOf (name : String) : Expr := .path (.ofIdent name) []

def letOf (name : String) (e : Expr) : Stmt := .bind (.name name) [] (some e) none

def assignOf (name : String) (e : Expr) : Stmt := .expr (.assign (nameOf name) e) true

def mergedWith (receiver router : Expr) : Expr := .method receiver "merge" [] [router]

/-- What `app` was given keeps the first router of `api`, and the block the second one. -/
theorem chainOfBody_reassigned :
    chainOfBody servingContext [] none ([letOf "api" (routerOf "/a" "a"),
          letOf "app" (nestedIn newRouter "/v1" (nameOf "api")), assignOf "api" (callOf "sub"),
          assignOf "app" (.block [letOf "inner" (nameOf "app"),
            .expr (mergedWith (nameOf "inner") (nameOf "api")) false])] ++
        [.expr (layered (nameOf "app")) false]) =
      chain servingContext [] (layered (.block
        [letOf "inner" (nestedIn newRouter "/v1" (routerOf "/a" "a")),
          .expr (mergedWith (nameOf "inner") (callOf "sub")) false])) := by
  have hgives :
      [letOf "api" (routerOf "/a" "a"), letOf "app" (nestedIn newRouter "/v1" (nameOf "api")),
          assignOf "api" (callOf "sub"), assignOf "app" (.block [letOf "inner" (nameOf "app"),
            .expr (mergedWith (nameOf "inner") (nameOf "api")) false])].map given? =
        [("api", routerOf "/a" "a"), ("app", nestedIn newRouter "/v1" (nameOf "api")),
          ("api", callOf "sub"), ("app", .block [letOf "inner" (nameOf "app"),
              .expr (mergedWith (nameOf "inner") (nameOf "api")) false])].map some := rfl
  refine chainOfBody_eq_inlined hgives ?_ ?_
  · decide
  · rw [servingContext, serving, ofFiles_app_sub]
    decide

end ApiContract.Route
