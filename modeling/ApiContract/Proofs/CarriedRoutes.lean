import ApiContract.Proofs.NestedUris
import ApiContract.Proofs.Replacement

namespace ApiContract.Route

open Source

/-- The second route is the first one, below some path. -/
structure Nests (route nested : Route) : Prop where
  methods : nested.methods = route.methods
  handler : nested.handler = route.handler
  uri : Uri.EndsWith nested.uri route.uri

theorem Nests.refl (route : Route) : Nests route route := ⟨rfl, rfl, .refl _⟩

theorem Nests.trans {route middle nested : Route} (h : Nests route middle)
    (h' : Nests middle nested) : Nests route nested :=
  ⟨h'.methods.trans h.methods, h'.handler.trans h.handler, h'.uri.trans h.uri⟩

theorem nests_nestUnder (start : String) (route : Route) : Nests route (nestUnder start route) :=
  ⟨rfl, rfl, Uri.endsWith_combine start route.uri⟩

theorem nests_addLayer (name : String) (route : Route) : Nests route (addLayer name route) :=
  ⟨rfl, rfl, .refl _⟩

def IsAmong (route : Route) (routes : List Route) : Prop := ∃ nested ∈ routes, Nests route nested

namespace IsAmong

variable {route : Route} {routes : List Route}

theorem of_mem (h : route ∈ routes) : route.IsAmong routes := ⟨route, h, .refl route⟩

theorem ne_nil (h : route.IsAmong routes) : routes ≠ [] := by
  obtain ⟨nested, hm, -⟩ := h
  exact List.ne_nil_of_mem hm

theorem append_left (h : route.IsAmong routes) (more : List Route) :
    route.IsAmong (routes ++ more) := by
  obtain ⟨nested, hm, hnests⟩ := h
  exact ⟨nested, List.mem_append_left _ hm, hnests⟩

theorem append_right (h : route.IsAmong routes) (before : List Route) :
    route.IsAmong (before ++ routes) := by
  obtain ⟨nested, hm, hnests⟩ := h
  exact ⟨nested, List.mem_append_right _ hm, hnests⟩

theorem map (h : route.IsAmong routes) {change : Route → Route}
    (hchange : ∀ route, Nests route (change route)) : route.IsAmong (routes.map change) := by
  obtain ⟨nested, hm, hnests⟩ := h
  exact ⟨change nested, List.mem_map_of_mem hm, hnests.trans (hchange nested)⟩

end IsAmong

variable {c : ChainContext} {bindings : Bindings}

def given? : Stmt → Option (String × Expr)
  | .bind pattern _ (some value) _ => (boundName? pattern).map fun name => (name, value)
  | .expr (.assign left right) _ => (assignedName? left).map fun name => (name, right)
  | _ => none

theorem chainOfBody_of_given {stmt : Stmt} {name : String} {e : Expr}
    (h : given? stmt = some (name, e)) (last : Option String) (rest : List Stmt) :
    chainOfBody c bindings last (stmt :: rest) =
      chainOfBody c ((name, chain c bindings e) :: bindings)
        (if (chain c bindings e).isEmpty then last else some name) rest := by
  unfold given? at h
  split at h
  case h_3 => cases h
  all_goals
    obtain ⟨_, hname, hpair⟩ := Option.map_eq_some_iff.mp h
    obtain ⟨rfl, rfl⟩ := Prod.mk.inj hpair
    rw [chainOfBody, hname]

/-- Whether a body is read on after a statement. -/
def goesOn (c : ChainContext) (bindings : Bindings) (rest : List Stmt) : Stmt → Bool
  | .expr (.ret _) _ => false
  | .expr e closed => closed || !rest.isEmpty || (chain c bindings e).isEmpty
  | _ => true

theorem chainOfBody_of_goesOn {stmt : Stmt} {rest : List Stmt} (hgiven : given? stmt = none)
    (h : goesOn c bindings rest stmt = true) (last : Option String) :
    chainOfBody c bindings last (stmt :: rest) = chainOfBody c bindings last rest := by
  match stmt with
  | .bind pattern inner (some value) otherwise =>
    have hname : boundName? pattern = none := by simpa [given?] using hgiven
    rw [chainOfBody, hname]
  | .bind pattern inner none otherwise | .item item | .expansion e closed => rfl
  | .expr e closed =>
    by_cases hoperand : isOperand e = true
    · have hgoes : closed = true ∨ rest ≠ [] ∨ chain c bindings e = [] := by
        cases e with
        | assign | ret => cases hoperand
        | _ => simpa [goesOn, or_assoc] using h
      rw [chainOfBody_expr c _ _ hoperand]
      obtain hclosed | hrest | hempty := hgoes
      · simp [hclosed]
      · simp [hrest]
      · simp [hempty]
    · cases e with
      | assign left right =>
        have hname : assignedName? left = none := by simpa [given?] using hgiven
        rw [chainOfBody, hname]
      | ret => cases h
      | _ => exact absurd rfl hoperand

theorem firstChain_eq {before after : List Expr} {e : Expr}
    (h : ∀ x ∈ before, chain c bindings x = []) (hne : chain c bindings e ≠ []) :
    firstChain c bindings (before ++ e :: after) = chain c bindings e := by
  induction before with
  | nil => simp [firstChain, hne]
  | cons x before ih =>
    obtain ⟨hx, hbefore⟩ := List.forall_mem_cons.mp h
    rw [List.cons_append, firstChain, hx, ih hbefore]
    rfl

/-- Where routes are read: at an expression, or at the rest of a body, with the name whose routes it
has if nothing follows. -/
inductive Place where
  | expr (e : Expr)
  | body (last : Option String) (stmts : List Stmt)

def Place.routes (c : ChainContext) (bindings : Bindings) : Place → List Route
  | expr e => chain c bindings e
  | body last stmts => chainOfBody c bindings last stmts

/-- The routes of `callee` are carried on: a call of it stands where the routes of a place are taken
from, or one of the local names `held` does, which have them already. -/
inductive Carries (c : ChainContext) (callee : String) : Bindings → List String → Place → Prop where
  | call {bindings : Bindings} {held : List String} {path : Source.Path} {inner args : List Expr}
    (hcallee : c.scope.resolve path.text = callee) (hrouter : c.isRouter callee = true) :
    Carries c callee bindings held (.expr (.call (.path path inner) args))
  | name {bindings : Bindings} {held : List String} {path : Source.Path} {inner : List Expr}
      {name : String} (hname : path.ident? = some name) (hheld : name ∈ held) :
      Carries c callee bindings held (.expr (.path path inner))
  | paren {bindings : Bindings} {held : List String} {e : Expr}
      (h : Carries c callee bindings held (.expr e)) :
      Carries c callee bindings held (.expr (.paren e))
  | await {bindings : Bindings} {held : List String} {e : Expr}
      (h : Carries c callee bindings held (.expr e)) :
      Carries c callee bindings held (.expr (.await e))
  | attempt {bindings : Bindings} {held : List String} {e : Expr}
      (h : Carries c callee bindings held (.expr e)) :
      Carries c callee bindings held (.expr (.attempt e))
  | reference {bindings : Bindings} {held : List String} {e : Expr}
      (h : Carries c callee bindings held (.expr e)) :
      Carries c callee bindings held (.expr (.reference e))
  | returned {bindings : Bindings} {held : List String} {e : Expr}
      (h : Carries c callee bindings held (.expr e)) :
      Carries c callee bindings held (.expr (.ret (some e)))
  | block {bindings : Bindings} {held : List String} {body : List Stmt}
      (h : Carries c callee bindings held (.body none body)) :
      Carries c callee bindings held (.expr (.block body))
  | receiver {bindings : Bindings} {held : List String} {receiver : Expr} {name : String}
      {inner args : List Expr} (h : Carries c callee bindings held (.expr receiver)) :
      Carries c callee bindings held (.expr (.method receiver name inner args))
  | nested {bindings : Bindings} {held : List String} {receiver path e : Expr}
      {inner rest : List Expr} {start : String} (hpath : textOf? path = some start)
      (h : Carries c callee bindings held (.expr e)) :
      Carries c callee bindings held (.expr (.method receiver "nest" inner (path :: e :: rest)))
  | merged {bindings : Bindings} {held : List String} {receiver e : Expr} {inner rest : List Expr}
    (h : Carries c callee bindings held (.expr e)) :
    Carries c callee bindings held (.expr (.method receiver "merge" inner (e :: rest)))
  | argument {bindings : Bindings} {held : List String} {receiver e : Expr} {name : String}
      {inner before after : List Expr}
      (hname : name ∉ ["route", "nest", "merge", "layer", "route_layer"])
      (hreceiver : chain c bindings receiver = []) (hbefore : ∀ x ∈ before, chain c bindings x = [])
      (h : Carries c callee bindings held (.expr e)) :
      Carries c callee bindings held (.expr (.method receiver name inner (before ++ e :: after)))
  | passed {bindings : Bindings} {held : List String} {function e : Expr} {before after : List Expr}
      (hfunction :
        ∀ path inner, function = .path path inner → c.isRouter (c.scope.resolve path.text) = false)
      (hbefore : ∀ x ∈ before, chain c bindings x = [])
      (h : Carries c callee bindings held (.expr e)) :
      Carries c callee bindings held (.expr (.call function (before ++ e :: after)))
  | ending {bindings : Bindings} {held : List String} {last : Option String} {e : Expr}
      (hoperand : isOperand e = true) (h : Carries c callee bindings held (.expr e)) :
      Carries c callee bindings held (.body last [.expr e false])
  | leaving {bindings : Bindings} {held : List String} {last : Option String} {e : Expr}
      {closed : Bool} {rest : List Stmt} (h : Carries c callee bindings held (.expr e)) :
      Carries c callee bindings held (.body last (.expr (.ret (some e)) closed :: rest))
  | bound {bindings : Bindings} {held : List String} {last : Option String} {stmt : Stmt}
      {name : String} {e : Expr} {rest : List Stmt} (hgiven : given? stmt = some (name, e))
      (h : Carries c callee bindings held (.expr e)) (hrest : Carries c callee
        ((name, chain c bindings e) :: bindings) (name :: held) (.body (some name) rest)) :
      Carries c callee bindings held (.body last (stmt :: rest))
  | hidden {bindings : Bindings} {held : List String} {last : Option String} {stmt : Stmt}
      {name : String} {e : Expr} {rest : List Stmt} (hgiven : given? stmt = some (name, e))
      (hrest : Carries c callee ((name, chain c bindings e) :: bindings) (held.filter fun other =>
          other ≠ name) (.body (if (chain c bindings e).isEmpty then last else some name) rest)) :
      Carries c callee bindings held (.body last (stmt :: rest))
  | later {bindings : Bindings} {held : List String} {last : Option String} {stmt : Stmt}
      {rest : List Stmt} (hgiven : given? stmt = none) (hgoes : goesOn c bindings rest stmt = true)
      (hrest : Carries c callee bindings held (.body last rest)) :
      Carries c callee bindings held (.body last (stmt :: rest))
  | last {bindings : Bindings} {held : List String} {name : String} (hheld : name ∈ held) :
    Carries c callee bindings held (.body (some name) [])

theorem Carries.isAmong {callee : String} {held : List String} {place : Place}
    (h : Carries c callee bindings held place) {route : Route} (hm : route ∈ c.called callee)
    (hheld : ∀ name ∈ held, route.IsAmong ((List.lookup name bindings).getD [])) :
    route.IsAmong (place.routes c bindings) := by
  -- where routes arrive there are some, so nothing later is looked at in their place
  induction h with
  | call hcallee hrouter =>
    subst hcallee
    rw [Place.routes, chain, if_pos hrouter]
    exact .of_mem hm
  | name hname hmem =>
    rw [Place.routes, chain, hname]
    exact hheld _ hmem
  | paren _ ih | await _ ih | attempt _ ih | reference _ ih | returned _ ih | block _ ih =>
    exact ih hheld
  | @receiver bindings held receiver name inner args _ ih =>
    have hbefore := ih hheld
    have hne : (chain c bindings receiver).isEmpty = false :=
      List.isEmpty_eq_false_iff.mpr hbefore.ne_nil
    rw [Place.routes, chain]
    split
    · exact hbefore.append_left _
    split
    · split
      · exact hbefore.append_left _
      · exact hbefore
    split
    · exact hbefore.append_left _
    split
    · split
      · exact hbefore.map (nests_addLayer _)
      · exact hbefore
    · rw [hne]
      exact hbefore
  | @nested bindings held receiver path e inner rest start hpath _ ih =>
    have hnested := (ih hheld).map (nests_nestUnder start)
    simpa [Place.routes, chain, hpath, chainOfSecond, chainOfFirst] using hnested.append_right _
  | merged _ ih =>
    simpa [Place.routes, chain, chainOfFirst] using (ih hheld).append_right _
  | @argument bindings held receiver e name inner before after hname hreceiver hbefore _ ih =>
    obtain ⟨hroute, hnest, hmerge, hlayer, hrouteLayer⟩ := by simpa using hname
    have hfirst : firstChain c bindings (before ++ e :: after) = chain c bindings e :=
      firstChain_eq hbefore (ih hheld).ne_nil
    have hroutes : chain c bindings (.method receiver name inner (before ++ e :: after)) =
        chain c bindings e := by
      simp [chain, isLayerMethod, hroute, hnest, hmerge, hlayer, hrouteLayer, hreceiver, hfirst]
    rw [Place.routes, hroutes]
    exact ih hheld
  | @passed bindings held function e before after hfunction hbefore _ ih =>
    have hfirst : firstChain c bindings (before ++ e :: after) = chain c bindings e :=
      firstChain_eq hbefore (ih hheld).ne_nil
    have hroutes :
        chain c bindings (.call function (before ++ e :: after)) = chain c bindings e := by
      cases function with
      | path path inner =>
        rw [chain, hfunction path inner rfl, hfirst]
        rfl
      | _ => exact hfirst
    rw [Place.routes, hroutes]
    exact ih hheld
  | @ending bindings held last e hoperand _ ih =>
    have hne : chain c bindings e ≠ [] := (ih hheld).ne_nil
    rw [Place.routes, chainOfBody_expr c _ _ hoperand]
    simpa [hne, Place.routes] using ih hheld
  | leaving _ ih => exact ih hheld
  | @bound bindings held last stmt name e rest hgiven _ _ ih ihrest =>
    have hvalue := ih hheld
    have hne : chain c bindings e ≠ [] := hvalue.ne_nil
    rw [Place.routes, chainOfBody_of_given hgiven]
    simp only [List.isEmpty_iff, hne, if_false]
    refine ihrest fun other hother => ?_
    rw [List.lookup_cons]
    split
    · exact hvalue
    · next hother' =>
      obtain rfl | hother := List.mem_cons.mp hother
      · simp at hother'
      · exact hheld other hother
  | @hidden bindings held last stmt name e rest hgiven _ ihrest =>
    rw [Place.routes, chainOfBody_of_given hgiven]
    refine ihrest fun other hother => ?_
    obtain ⟨hother, hne⟩ : other ∈ held ∧ other ≠ name := by simpa using hother
    rw [List.lookup_cons, beq_eq_false_iff_ne.mpr hne]
    exact hheld other hother
  | later hgiven hgoes _ ihrest =>
    rw [Place.routes, chainOfBody_of_goesOn hgiven hgoes]
    exact ihrest hheld
  | last hmem => exact hheld _ hmem

end ApiContract.Route
