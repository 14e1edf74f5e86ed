import ApiContract.Proofs.CarriedRoutes
import ApiContract.Proofs.Extraction

namespace ApiContract.Routers

open Source Route

variable {r : Routers}

/-- A router function is reached within a depth: it is a root, or a function that is reached carries
on the routes of a call of it. -/
inductive Reached (r : Routers) : Nat → String → Prop where
  | root {name : String} (h : name ∈ r.roots) : Reached r depthLimit name
  | call {depth : Nat} {caller callee : String} {f : DeclaredFunction}
      (hcaller : Reached r (depth + 1) caller) (hget : r.functions.get? caller = some f)
      (hcarries : Carries ⟨f.scope, r.names.contains, r.routesWithin r.names depth⟩ callee [] []
          (.body none f.body)) : Reached r depth callee

theorem Reached.depth_le {depth : Nat} {name : String} (h : r.Reached depth name) :
    depth ≤ depthLimit := by
  induction h with
  | root => exact Nat.le_refl _
  | call _ _ _ ih => omega

theorem Reached.isAmong {depth : Nat} {name : String} (h : r.Reached depth name) {route : Route}
    (hm : route ∈ r.routesWithin r.names depth name) : route.IsAmong r.routes := by
  induction h generalizing route with
  | root hroot => exact .of_mem (List.mem_flatMap.mpr ⟨_, hroot, hm⟩)
  | @call depth caller callee f _ hget hcarries ih =>
    obtain ⟨nested, hnested, hnests⟩ :=
      hcarries.isAmong hm fun _ hheld => absurd hheld List.not_mem_nil
    have hcaller : nested ∈ r.routesWithin r.names (depth + 1) caller := by
      rw [routesWithin_of_some hget]
      exact hnested
    obtain ⟨outer, houter, hnests'⟩ := ih hcaller
    exact ⟨outer, houter, hnests.trans hnests'⟩

theorem Settled.routesWithin_eq {depth : Nat} {name : String} (h : r.Settled depth name)
    {more : Nat} (hle : depth ≤ more) :
    r.routesWithin r.names depth name = r.routesWithin r.names more name := by
  induction depth generalizing name more with
  | zero => exact h.elim
  | succ depth ih =>
    obtain ⟨more, rfl⟩ : ∃ less, more = less + 1 := ⟨more - 1, by omega⟩
    cases hget : r.functions.get? name with
    | none => rw [routesWithin, routesWithin, hget]
    | some f =>
      rw [routesWithin_of_some hget more]
      exact (h f hget _ fun other hother => (ih hother (by omega)).symm).symm

/-- Router functions call one another neither in a circle nor beyond the limit, and the routes of
each that another one calls are carried on by some caller. -/
structure Ranked (r : Routers) (rank : String → Nat) : Prop where
  falls : ∀ name f, r.functions.get? name = some f →
      ∀ callee ∈ calls f, callee ∈ r.names → rank callee < rank name
  bounded : ∀ name ∈ r.names, rank name < depthLimit
  carried : ∀ name ∈ r.nested, ∃ caller ∈ r.names, ∃ f,
      r.functions.get? caller = some f ∧ name ∈ calls f ∧ ∀ depth, Carries
          ⟨f.scope, r.names.contains, r.routesWithin r.names depth⟩ name [] [] (.body none f.body)

theorem Ranked.exists_reached {rank : String → Nat} (h : Ranked r rank) {name : String}
    (hm : name ∈ r.names) : ∃ depth, rank name < depth ∧ r.Reached depth name := by
  -- callers rank higher, below the limit, until one is a root
  induction hleft : depthLimit - rank name using Nat.strongRecOn generalizing name with
  | ind left ih =>
    by_cases hnested : name ∈ r.nested
    · obtain ⟨caller, hcaller, f, hget, hcall, hcarries⟩ := h.carried name hnested
      have hfalls := h.falls caller f hget name hcall hm
      have hbounded := h.bounded caller hcaller
      obtain ⟨depth, hdepth, hreached⟩ := ih (depthLimit - rank caller) (by omega) hcaller rfl
      obtain ⟨depth, rfl⟩ : ∃ less, depth = less + 1 := ⟨depth - 1, by omega⟩
      exact ⟨depth, by omega, .call hreached hget (hcarries depth)⟩
    · exact ⟨depthLimit, h.bounded name hm, .root (mem_roots.mpr ⟨hm, hnested⟩)⟩

theorem isAmong_of_settled {depth : Nat} {name : String} (h : r.Reached depth name)
    (hsettled : r.Settled depth name) {route : Route}
    (hm : route ∈ r.routesWithin r.names depthLimit name) : route.IsAmong r.routes := by
  rw [← hsettled.routesWithin_eq h.depth_le] at hm
  exact h.isAmong hm

/-- The project has, below some path, every route of a router function that is reached, if the
function has it within that depth or is settled; and where the router functions are ranked, all
routes of each. -/
theorem routes_kept (r : Routers) :
    (∀ depth name, r.Reached depth name → ∀ route ∈ r.routesWithin r.names depthLimit name,
      r.Settled depth name ∨ route ∈ r.routesWithin r.names depth name → route.IsAmong r.routes) ∧
    ∀ rank, Ranked r rank → ∀ name ∈ r.names, ∀ route ∈ r.routesWithin r.names depthLimit name,
      route.IsAmong r.routes := by
  constructor
  · intro depth name hreached route hm hdepth
    obtain hsettled | hwithin := hdepth
    · exact isAmong_of_settled hreached hsettled hm
    · exact hreached.isAmong hwithin
  · intro rank hranked name hrouter route hm
    obtain ⟨depth, hdepth, hreached⟩ := hranked.exists_reached hrouter
    exact isAmong_of_settled hreached (.of_rank rank hranked.falls hdepth) hm

open Extraction

def nestingSub : Routers :=
  ofFiles (crateOf [appOf (nesting (callOf "sub")), subOf (routerOf "/c" "c")])

theorem ranked_nestingSub : Ranked nestingSub rankOf where
  falls := rankOf_lt_of_call (by rw [ofFiles_app_sub]; decide)
    (by rw [ofFiles_app_sub]; decide)
  bounded := fun name _ => rankOf_lt name
  carried := by
    intro name hm
    have hnested : nestingSub.nested = ["crate::sub"] := by
      rw [nestingSub, ofFiles_app_sub]
      decide
    rw [hnested, List.mem_singleton] at hm
    subst hm
    have hnames : nestingSub.names = ["crate::app", "crate::sub"] := by
      rw [nestingSub, ofFiles_app_sub]
      decide
    have hget : nestingSub.functions.get? "crate::app" =
        some ⟨scopeOf [appOf (nesting (callOf "sub")), subOf (routerOf "/c" "c")],
          [.expr (nesting (callOf "sub")) false]⟩ := by
      rw [nestingSub, ofFiles_app_sub]
      rfl
    have hcallee : (scopeOf [appOf (nesting (callOf "sub")), subOf (routerOf "/c" "c")]).resolve
        (Source.Path.ofIdent "sub").text = "crate::sub" := by
      decide
    rw [hnames]
    refine ⟨"crate::app", List.mem_cons_self, _, hget, by decide, fun depth => ?_⟩
    exact .ending rfl (.nested rfl (.call hcallee rfl))

theorem routes_kept_nestingSub :
    ({ uri := "/c", methods := ["GET"], handler := some ⟨"crate", "c"⟩ } : Route).IsAmong
      nestingSub.routes := by
  have hm : { uri := "/c", methods := ["GET"], handler := some ⟨"crate", "c"⟩ } ∈
      nestingSub.routesWithin nestingSub.names depthLimit "crate::sub" := by
    rw [nestingSub, ofFiles_app_sub]
    decide
  have hrouter : "crate::sub" ∈ nestingSub.names := by
    rw [nestingSub, ofFiles_app_sub]
    decide
  exact (routes_kept nestingSub).2 rankOf ranked_nestingSub _ hrouter _ hm

def falling (part : Expr) : Expr := .method (routerOf "/a" "a") "fallback_service" [] [part]

/-- What a router falls back to is not looked at once there are routes, though it is called and so
is no root. -/
theorem not_routes_kept :
    ¬ ∀ (files : List ParsedFile) (name : String), name ∈ (ofFiles files).names →
      ∀ route ∈ (ofFiles files).routesWithin (ofFiles files).names depthLimit name,
        ∃ kept ∈ (ofFiles files).routes, kept.methods = route.methods ∧
          kept.handler = route.handler ∧ Uri.EndsWith kept.uri route.uri := by
  intro h
  have hkept := h (crateOf [appOf (falling (callOf "sub")), subOf (routerOf "/c" "c")]) "crate::sub"
  rw [ofFiles_app_sub] at hkept
  have hroute := hkept (by decide)
    { uri := "/c", methods := ["GET"], handler := some ⟨"crate", "c"⟩ } (by decide)
  obtain ⟨kept, hm, -, hhandler, -⟩ := hroute
  revert kept
  decide

end ApiContract.Routers
