import ApiContract.Proofs.Replacement
import ApiContract.Proofs.Table
import Mathlib.Data.List.Basic

namespace ApiContract.Routers

open Source Route

section

variable {r : Routers} {name : String}

theorem mem_names (h : r.functions.Sorted) :
    name ∈ r.names ↔ ∃ f, r.functions.get? name = some f ∧ isRouterBody f.body = true := by
  rw [names, Table.keys, List.mem_map]
  constructor
  · rintro ⟨⟨name, f⟩, hm, rfl⟩
    obtain ⟨hm, hrouter⟩ := List.mem_filter.mp hm
    exact ⟨f, h.get?_of_mem hm, hrouter⟩
  · rintro ⟨f, hget, hrouter⟩
    exact ⟨(name, f), List.mem_filter.mpr ⟨Table.mem_of_get? hget, hrouter⟩, rfl⟩

def Calls (r : Routers) (caller callee : String) : Prop :=
  caller ∈ r.names ∧ ∃ f, r.functions.get? caller = some f ∧ callee ∈ calls f

theorem mem_nested (h : r.functions.Sorted) :
    name ∈ r.nested ↔ name ∈ r.names ∧ ∃ caller, caller ≠ name ∧ r.Calls caller name := by
  rw [nested, List.mem_flatMap]
  constructor
  · rintro ⟨⟨caller, f⟩, hm, hname⟩
    simp only [List.contains_iff_mem] at hname
    split at hname
    next hrouter =>
      obtain ⟨hcall, hne, hrouter'⟩ := by simpa using hname
      exact ⟨hrouter', caller, Ne.symm hne, hrouter, f, h.get?_of_mem hm, hcall⟩
    next => cases hname
  · rintro ⟨hrouter', caller, hne, hrouter, f, hget, hcall⟩
    refine ⟨(caller, f), Table.mem_of_get? hget, ?_⟩
    simpa [hrouter, hrouter', hcall] using Ne.symm hne

theorem mem_roots : name ∈ r.roots ↔ name ∈ r.names ∧ name ∉ r.nested := by
  simp [roots]

theorem pairwise_roots (h : r.functions.Sorted) : r.roots.Pairwise (· < ·) := by
  have hnames : r.names.Pairwise (· < ·) := List.pairwise_map.mpr (h.filter _)
  exact hnames.filter _

theorem routesWithin_of_some {names : List String} {f : DeclaredFunction}
    (hget : r.functions.get? name = some f) (depth : Nat) : r.routesWithin names (depth + 1) name =
    chainOfBody ⟨f.scope, names.contains, r.routesWithin names depth⟩ [] none f.body := by
  rw [routesWithin, hget]

end

/-- Within a depth the routes of a function are settled: they stay the same, whatever those calls
give that are not settled within one less. -/
def Settled (r : Routers) : Nat → String → Prop
  | 0, _ => False
  | depth + 1, name =>
    ∀ f, r.functions.get? name = some f → ∀ called : String → List Route,
        (∀ other, r.Settled depth other → called other = r.routesWithin r.names depth other) →
          chainOfBody ⟨f.scope, r.names.contains, called⟩ [] none f.body =
            r.routesWithin r.names (depth + 1) name

def calledIn (scope : Scope) (traces : List (Option Source.Path × Bool)) : List String :=
  traces.filterMap fun trace => trace.1.map fun path => scope.resolve path.text

theorem calledIn_append (scope : Scope) (traces more : List (Option Source.Path × Bool)) :
    calledIn scope (traces ++ more) = calledIn scope traces ++ calledIn scope more :=
  List.filterMap_append

theorem calledIn_congr {scope scope' : Scope} (h : ∀ text, scope.resolve text = scope'.resolve text)
    (traces : List (Option Source.Path × Bool)) :
    calledIn scope traces = calledIn scope' traces := by
  simp only [calledIn, h]

theorem calls_eq (f : DeclaredFunction) : calls f = calledIn f.scope (tracesOf (nodes f.body)) := by
  rw [calls, calledIn, tracesOf, List.filterMap_map]
  congr 1
  funext e
  cases e with
  | call callee args => cases callee <;> rfl
  | _ => rfl

theorem isRouterBody_eq (body : List Stmt) :
    isRouterBody body = (tracesOf (nodes body)).any Prod.snd := by
  rw [isRouterBody, tracesOf, List.any_map]
  congr 1
  funext e
  unfold Function.comp trace
  split <;> rfl

theorem mem_calls {f : DeclaredFunction} {path : Source.Path} {inner args : List Expr}
    (h : .call (.path path inner) args ∈ nodes f.body) : f.scope.resolve path.text ∈ calls f :=
  List.mem_filterMap.mpr ⟨_, h, rfl⟩

section

variable {c c' : ChainContext} {f : DeclaredFunction}

theorem agreeIn_of_calls (hscope : ∀ text, c.scope.resolve text = f.scope.resolve text)
    (h : ∀ name ∈ calls f, AgreeFor c c' name) : AgreeIn c c' (nodes f.body) := by
  rintro x hx path inner args rfl
  rw [hscope]
  exact h _ (mem_calls hx)

theorem agreeIn_block {body : List Stmt} (h : AgreeIn c c' (nodes body)) :
    AgreeIn c c' ((Expr.block body).nodes fun _ => true) := by
  intro x hx
  obtain rfl | hx := Expr.mem_enter hx
  · intro path inner args he
    cases he
  · exact h x hx

theorem idleIn_of_calls (hscope : ∀ text, c.scope.resolve text = f.scope.resolve text)
    (hown : isRouterBody f.body = false) (h : ∀ name ∈ calls f, c.isRouter name = false) :
    IdleIn c (nodes f.body) := by
  intro x hx
  refine ⟨List.any_eq_false.mp hown x hx |> eq_false_of_ne_true, ?_⟩
  rintro path inner args rfl
  rw [hscope]
  exact h _ (mem_calls hx)

end

theorem Settled.of_calls {r : Routers} {depth : Nat} {name : String}
    (h : ∀ f, r.functions.get? name = some f →
        ∀ callee ∈ calls f, callee ∈ r.names → r.Settled depth callee) :
    r.Settled (depth + 1) name := by
  intro f hget called hcalled
  rw [routesWithin_of_some hget]
  have hscope : ∀ text, f.scope.resolve text = f.scope.resolve text := fun _ => rfl
  refine chainOfBody_congr hscope f.body none (agreeIn_of_calls hscope ?_) (.refl _ _) (.nil _ _)
  intro callee hm
  refine ⟨rfl, fun hrouter => hcalled callee (h f hget callee hm ?_)⟩
  exact List.contains_iff_mem.mp hrouter

/-- Router functions that never call one of their rank or above are settled within a depth above
theirs. -/
theorem Settled.of_rank {r : Routers} (rank : String → Nat)
    (h : ∀ name f, r.functions.get? name = some f →
        ∀ callee ∈ calls f, callee ∈ r.names → rank callee < rank name) {depth : Nat}
    {name : String} (hrank : rank name < depth) : r.Settled depth name := by
  induction depth generalizing name with
  | zero => exact absurd hrank (Nat.not_lt_zero _)
  | succ depth ih =>
    refine .of_calls fun f hget callee hm hrouter => ih ?_
    have := h name f hget callee hm hrouter
    omega

theorem chainOfBody_single (c : ChainContext) {e : Expr} (h : isOperand e = true) :
    chainOfBody c [] none [.expr e false] = chain c [] e := by
  rw [chainOfBody_expr c [] none h]
  cases hroutes : chain c [] e <;> simp [chainOfBody]

/-- Functions with the same body, which mean the same by it. -/
structure Alike (d d' : DeclaredFunction) : Prop where
  body : d.body = d'.body
  resolve : ∀ text, d.scope.resolve text = d'.scope.resolve text

theorem Alike.calls {d d' : DeclaredFunction} (h : Alike d d') : calls d = calls d' := by
  rw [calls_eq, calls_eq, h.body, calledIn_congr h.resolve]

/-- An operand `e` of the function `name` becomes the function `sub`, which is new and is called
there by its `short` name. -/
structure Extracts (r r' : Routers) (name sub short : String) (f f' g : DeclaredFunction)
    (e : Expr) : Prop where
  sorted : r.functions.Sorted
  sorted' : r'.functions.Sorted
  before : r.functions.get? name = some f
  after : r'.functions.get? name = some f'
  added : r'.functions.get? sub = some g
  others : ∀ key,
      key ≠ name → key ≠ sub → Option.Rel Alike (r.functions.get? key) (r'.functions.get? key)
  body : g.body = [.expr e false]
  resolve : ∀ text, f.scope.resolve text = f'.scope.resolve text
  resolve' : ∀ text, f.scope.resolve text = g.scope.resolve text
  called : f.scope.resolve short = sub
  operand : isOperand e = true
  replaces : Replaces e (callOf short) [] (.block f.body) (.block f'.body)
  undeclared : r.functions.get? sub = none
  uncalled : ∀ key d, r.functions.get? key = some d → sub ∉ calls d

/-- A part can be taken out of a function if it is a router function itself, and calls the function
only where other router functions do so too; or if it calls no router function. -/
def Keeps (r : Routers) (name : String) (g : DeclaredFunction) : Prop :=
  (isRouterBody g.body = true ∧ (name ∈ calls g → name ∈ r.nested)) ∨
    ∀ callee ∈ calls g, callee ∉ r.names

namespace Extracts

variable {r r' : Routers} {name sub short : String} {f f' g : DeclaredFunction} {e : Expr}

theorem ne (h : Extracts r r' name sub short f f' g e) : name ≠ sub := by
  rintro rfl
  exact Option.some_ne_none f (h.before.symm.trans h.undeclared)

theorem nodes_body (h : Extracts r r' name sub short f f' g e) :
    nodes g.body = e.nodes fun _ => true := by
  rw [h.body]
  exact List.append_nil _

/-- The new function calls and registers its part of what its caller did, and is called in its
place. -/
theorem parts (h : Extracts r r' name sub short f f' g e) : ∃ left right own,
    calls f = left ++ calls g ++ right ∧ calls f' = left ++ sub :: right ∧
      isRouterBody f.body = (own || isRouterBody g.body) ∧ isRouterBody f'.body = own := by
  obtain ⟨before, after, hbefore, hafter⟩ := h.replaces.traces
  refine ⟨calledIn f.scope before, calledIn f.scope after,
    before.any Prod.snd || after.any Prod.snd, ?_, ?_, ?_, ?_⟩
  · calc
      calls f = calledIn f.scope (tracesOf ((Expr.block f.body).nodes fun _ => true)) := calls_eq f
      _ = calledIn f.scope before ++ calledIn f.scope (tracesOf (e.nodes fun _ => true)) ++
          calledIn f.scope after := by
        rw [hbefore, calledIn_append, calledIn_append]
      _ = calledIn f.scope before ++ calls g ++ calledIn f.scope after := by
        rw [calls_eq g, h.nodes_body, calledIn_congr h.resolve' (tracesOf _)]
  · calc
      calls f' = calledIn f'.scope (tracesOf ((Expr.block f'.body).nodes fun _ => true)) :=
        calls_eq f'
      _ = calledIn f.scope before ++ [f.scope.resolve (Path.ofIdent short).text] ++
          calledIn f.scope after := by
        rw [hafter, ← calledIn_congr h.resolve, calledIn_append, calledIn_append]
        rfl
      _ = calledIn f.scope before ++ sub :: calledIn f.scope after := by
        rw [show (Path.ofIdent short).text = short from rfl, h.called, List.append_assoc,
          List.singleton_append]
  · calc
      isRouterBody f.body = (tracesOf ((Expr.block f.body).nodes fun _ => true)).any Prod.snd :=
        isRouterBody_eq f.body
      _ = (before.any Prod.snd || after.any Prod.snd || isRouterBody g.body) := by
        rw [hbefore, isRouterBody_eq g.body, h.nodes_body, List.any_append, List.any_append,
          Bool.or_right_comm]
  · calc
      isRouterBody f'.body = (tracesOf ((Expr.block f'.body).nodes fun _ => true)).any Prod.snd :=
        isRouterBody_eq f'.body
      _ = (before.any Prod.snd || after.any Prod.snd) := by
        rw [hafter, List.any_append, List.any_append]
        simp [tracesOf, trace, callOf, Expr.nodes, Expr.enter, nodesOfAll, Routers.registers]

theorem mem_calls (h : Extracts r r' name sub short f f' g e) {callee : String}
    (hne : callee ≠ sub) : callee ∈ calls f ↔ callee ∈ calls f' ∨ callee ∈ calls g := by
  obtain ⟨left, right, _, hf, hf', -⟩ := h.parts
  rw [hf, hf']
  simp only [List.mem_append, List.mem_cons, hne, false_or]
  constructor
  · rintro ((hm | hm) | hm) <;> simp [hm]
  · rintro ((hm | hm) | hm) <;> simp [hm]

theorem mem_calls_of_part (h : Extracts r r' name sub short f f' g e) {callee : String}
    (hm : callee ∈ calls g) : callee ∈ calls f := by
  obtain ⟨left, right, _, hf, -⟩ := h.parts
  rw [hf]
  exact List.mem_append_left _ (List.mem_append_right _ hm)

theorem sub_mem_calls (h : Extracts r r' name sub short f f' g e) : sub ∈ calls f' := by
  obtain ⟨left, right, _, -, hf', -⟩ := h.parts
  rw [hf']
  exact List.mem_append_right _ List.mem_cons_self

theorem alike (h : Extracts r r' name sub short f f' g e) {key : String} (hname : key ≠ name)
    (hsub : key ≠ sub) : (r.functions.get? key = none ∧ r'.functions.get? key = none) ∨
    ∃ d d', r.functions.get? key = some d ∧ r'.functions.get? key = some d' ∧ Alike d d' := by
  have hothers := h.others key hname hsub
  generalize r.functions.get? key = found, r'.functions.get? key = found' at hothers
  cases hothers with
  | none => exact .inl ⟨rfl, rfl⟩
  | some halike => exact .inr ⟨_, _, rfl, rfl, halike⟩

theorem ne_of_mem_calls (h : Extracts r r' name sub short f f' g e) {key callee : String}
    {d : DeclaredFunction} (hget : r.functions.get? key = some d) (hm : callee ∈ calls d) :
    callee ≠ sub := by
  rintro rfl
  exact h.uncalled key d hget hm

theorem sub_not_mem_names (h : Extracts r r' name sub short f f' g e) : sub ∉ r.names := by
  rw [Routers.mem_names h.sorted]
  simp [h.undeclared]

theorem sub_mem_names (h : Extracts r r' name sub short f f' g e) :
    sub ∈ r'.names ↔ isRouterBody g.body = true := by
  rw [Routers.mem_names h.sorted']
  simp [h.added]

theorem mem_names_other (h : Extracts r r' name sub short f f' g e) {key : String}
    (hname : key ≠ name) (hsub : key ≠ sub) : key ∈ r'.names ↔ key ∈ r.names := by
  rw [Routers.mem_names h.sorted, Routers.mem_names h.sorted']
  obtain ⟨hget, hget'⟩ | ⟨d, d', hget, hget', halike⟩ := h.alike hname hsub
  · simp [hget, hget']
  · simp [hget, hget', halike.body]

theorem calls_sub (h : Extracts r r' name sub short f f' g e) {callee : String} :
    r'.Calls sub callee ↔ isRouterBody g.body = true ∧ callee ∈ calls g := by
  simp [Calls, h.sub_mem_names, h.added]

theorem calls_other (h : Extracts r r' name sub short f f' g e) {caller callee : String}
    (hname : caller ≠ name) (hsub : caller ≠ sub) :
    r'.Calls caller callee ↔ r.Calls caller callee := by
  obtain ⟨hget, hget'⟩ | ⟨d, d', hget, hget', halike⟩ := h.alike hname hsub
  · simp [Calls, hget, hget']
  · simp [Calls, h.mem_names_other hname hsub, hget, hget', halike.calls]

section

variable (h : Extracts r r' name sub short f f' g e) (hrouter : isRouterBody f'.body = true)

include h hrouter

theorem mem_names {key : String} (hne : key ≠ sub) : key ∈ r'.names ↔ key ∈ r.names := by
  by_cases hname : key = name
  · subst hname
    obtain ⟨_, _, own, -, -, hown, hown'⟩ := h.parts
    have hrouter' : isRouterBody f.body = true := by rw [hown, ← hown', hrouter, Bool.true_or]
    rw [Routers.mem_names h.sorted, Routers.mem_names h.sorted']
    simp [h.before, h.after, hrouter, hrouter']
  · exact h.mem_names_other hname hne

theorem calls_name {callee : String} (hne : callee ≠ sub) :
    r.Calls name callee ↔ r'.Calls name callee ∨ callee ∈ calls g := by
  have hname : name ∈ r'.names := (Routers.mem_names h.sorted').mpr ⟨f', h.after, hrouter⟩
  have hname' := (h.mem_names hrouter h.ne).mp hname
  simp [Calls, hname, hname', h.before, h.after, h.mem_calls hne]

theorem mem_nested (hkeeps : Keeps r name g) {key : String} (hne : key ≠ sub) :
    key ∈ r'.nested ↔ key ∈ r.nested := by
  rw [Routers.mem_nested h.sorted', Routers.mem_nested h.sorted, h.mem_names hrouter hne]
  refine and_congr_right fun hkey => ⟨?_, ?_⟩
  · rintro ⟨caller, hother, hcall⟩
    by_cases hsub : caller = sub
    · -- what the new function calls its caller called before, unless that is the caller
      obtain ⟨-, hcall⟩ := h.calls_sub.mp (hsub ▸ hcall)
      by_cases hname : key = name
      · obtain ⟨-, hnested⟩ | hnone := hkeeps
        · exact ((Routers.mem_nested h.sorted).mp (hname ▸ hnested (hname ▸ hcall))).2
        · exact absurd hkey (hnone key hcall)
      · exact ⟨name, Ne.symm hname, (h.calls_name hrouter hne).mpr (.inr hcall)⟩
    · by_cases hname : caller = name
      · subst hname
        exact ⟨caller, hother, (h.calls_name hrouter hne).mpr (.inl hcall)⟩
      · exact ⟨caller, hother, (h.calls_other hname hsub).mp hcall⟩
  · rintro ⟨caller, hother, hcall⟩
    have hsub : caller ≠ sub := by
      rintro rfl
      exact h.sub_not_mem_names hcall.1
    by_cases hname : caller = name
    · subst hname
      obtain hcall | hcall := (h.calls_name hrouter hne).mp hcall
      · exact ⟨caller, hother, hcall⟩
      · obtain ⟨hown, -⟩ | hnone := hkeeps
        · exact ⟨sub, Ne.symm hne, h.calls_sub.mpr ⟨hown, hcall⟩⟩
        · exact absurd hkey (hnone key hcall)
    · exact ⟨caller, hother, (h.calls_other hname hsub).mpr hcall⟩

/-- The new function is never a root, and which others are stays as it was. -/
theorem roots_eq (hkeeps : Keeps r name g) : r'.roots = r.roots := by
  refine NameSet.ext_of_pairwise (pairwise_roots h.sorted') (pairwise_roots h.sorted) fun key => ?_
  rw [mem_roots, mem_roots]
  by_cases hne : key = sub
  · subst hne
    have hname : name ∈ r'.names := (Routers.mem_names h.sorted').mpr ⟨f', h.after, hrouter⟩
    have hnested : key ∈ r'.names → key ∈ r'.nested := fun hm =>
      (Routers.mem_nested h.sorted').mpr ⟨hm, name, h.ne, hname, f', h.after, h.sub_mem_calls⟩
    exact ⟨fun hroot =>
      absurd (hnested hroot.1) hroot.2, fun hroot => absurd hroot.1 h.sub_not_mem_names⟩
  · rw [h.mem_names hrouter hne, h.mem_nested hrouter hkeeps hne]

theorem contains_eq {key : String} (hne : key ≠ sub) :
    r.names.contains key = r'.names.contains key := by
  rw [Bool.eq_iff_iff, List.contains_iff_mem, List.contains_iff_mem, h.mem_names hrouter hne]

def given (r : Routers) (f : DeclaredFunction) (sub : String) (e : Expr) (depth : Nat)
    (key : String) : List Route :=
  if key = sub then chain ⟨f.scope, r.names.contains, r.routesWithin r.names depth⟩ [] e
  else r.routesWithin r.names depth key

theorem agreeIn {d : DeclaredFunction} (hnew : ∀ callee ∈ calls d, callee ≠ sub)
    {scope scope' : Scope} (hscope : ∀ text, scope.resolve text = d.scope.resolve text)
    {called : String → List Route} {depth : Nat}
    (hcalled : ∀ other, other ≠ sub → r.routesWithin r.names depth other = called other) :
    AgreeIn ⟨scope, r.names.contains, r.routesWithin r.names depth⟩
      ⟨scope', r'.names.contains, called⟩ (nodes d.body) := by
  refine agreeIn_of_calls hscope fun callee hm => ?_
  exact ⟨h.contains_eq hrouter (hnew callee hm), fun _ => hcalled callee (hnew callee hm)⟩

omit hrouter in
theorem chain_callOf (hkeeps : Keeps r name g) (depth : Nat) (bindings : Bindings) :
    chain ⟨f'.scope, r'.names.contains, given r f sub e depth⟩ bindings (callOf short) =
      chain ⟨f.scope, r.names.contains, r.routesWithin r.names depth⟩ [] e := by
  have hcallee : f'.scope.resolve (Path.ofIdent short).text = sub :=
    (h.resolve short).symm.trans h.called
  rw [callOf, chain, hcallee]
  split
  next => exact if_pos rfl
  next hcontains =>
    -- what is not followed is not a router function, and calls none
    have hown : isRouterBody g.body = false := by
      refine eq_false_of_ne_true fun hown => hcontains ?_
      exact List.contains_iff_mem.mpr (h.sub_mem_names.mpr hown)
    have hnone : ∀ callee ∈ calls g, r.names.contains callee = false := by
      obtain ⟨hown', -⟩ | hnone := hkeeps
      · exact absurd (hown.symm.trans hown') Bool.false_ne_true
      · exact fun callee hm =>
          eq_false_of_ne_true fun hm' => hnone callee hm (List.contains_iff_mem.mp hm')
    have hidle := idleIn_of_calls (c := ⟨f.scope, r.names.contains, r.routesWithin r.names depth⟩)
      h.resolve' hown hnone
    rw [h.nodes_body] at hidle
    exact (chain_eq_nil (fun _ => rfl) e hidle).symm

theorem chainOfBody_eq (hkeeps : Keeps r name g) {key : String} (hne : key ≠ sub)
    {d' : DeclaredFunction} (hget : r'.functions.get? key = some d') (depth : Nat) :
    chainOfBody ⟨d'.scope, r'.names.contains, given r f sub e depth⟩ [] none d'.body =
      r.routesWithin r.names (depth + 1) key := by
  have hgiven :
      ∀ other, other ≠ sub → r.routesWithin r.names depth other = given r f sub e depth other :=
    fun other hother => (if_neg hother).symm
  by_cases hname : key = name
  · subst hname
    obtain rfl : f' = d' := Option.some.inj (h.after.symm.trans hget)
    rw [routesWithin_of_some h.before]
    have hcalls : AgreeIn ⟨f.scope, r.names.contains, r.routesWithin r.names depth⟩ ⟨f'.scope,
        r'.names.contains, given r f sub e depth⟩ ((Expr.block f.body).nodes fun _ => true) :=
      agreeIn_block (h.agreeIn hrouter (fun _ => h.ne_of_mem_calls h.before) (fun _ => rfl) hgiven)
    have hroutes := h.chain_callOf hkeeps depth
    have hnone : ∀ entry ∈ ([] : Bindings), entry.1 ∈ ([] : List String) :=
      fun _ hm => absurd hm List.not_mem_nil
    exact (h.replaces.chain_eq h.resolve rfl hroutes hcalls hnone).symm
  · obtain ⟨-, hnone⟩ | ⟨d, other, hget', hget'', halike⟩ := h.alike hname hne
    · exact absurd (hget.symm.trans hnone) (Option.some_ne_none d')
    · obtain rfl : other = d' := Option.some.inj (hget''.symm.trans hget)
      rw [routesWithin_of_some hget', ← halike.body]
      have hcalls : AgreeIn _ ⟨other.scope, _, _⟩ _ :=
        h.agreeIn hrouter (fun _ => h.ne_of_mem_calls hget') (fun _ => rfl) hgiven
      exact (chainOfBody_congr halike.resolve d.body none hcalls (.refl _ _) (.nil _ _)).symm

theorem routesWithin_sub {depth more : Nat} (hsettled : r'.Settled (depth + 1) sub)
    (hothers : ∀ other, other ≠ sub → r'.Settled depth other →
      r'.routesWithin r'.names depth other = r.routesWithin r.names more other) :
    r'.routesWithin r'.names (depth + 1) sub =
      chain ⟨f.scope, r.names.contains, r.routesWithin r.names more⟩ [] e := by
  -- the operand does not call the new function, so whatever that has does not show
  let called (other : String) : List Route :=
    if other = sub then r'.routesWithin r'.names depth sub else r.routesWithin r.names more other
  have hcalled : ∀ other, other ≠ sub → r.routesWithin r.names more other = called other :=
    fun other hne => (if_neg hne).symm
  have hagree :
      ∀ other, r'.Settled depth other → called other = r'.routesWithin r'.names depth other := by
    intro other hother
    by_cases hne : other = sub
    · subst hne
      exact if_pos rfl
    · rw [← hcalled other hne, hothers other hne hother]
  have hcalls : AgreeIn ⟨f.scope, r.names.contains, r.routesWithin r.names more⟩
      ⟨g.scope, r'.names.contains, called⟩ (nodes g.body) :=
    h.agreeIn hrouter (fun _ hm => h.ne_of_mem_calls h.before (h.mem_calls_of_part hm))
      h.resolve' hcalled
  rw [h.nodes_body] at hcalls
  rw [← hsettled g h.added called hagree, h.body, chainOfBody_single _ h.operand]
  exact (chain_agree h.resolve' [] e hcalls).symm

theorem routesWithin_eq (hkeeps : Keeps r name g) (depth : Nat) :
    ∀ key ≠ sub, r'.Settled depth key → ∀ more ≥ depth,
      r'.routesWithin r'.names depth key = r.routesWithin r.names more key := by
  -- the operand now stands one call further down, so the statement is used for two depths below
  induction depth using Nat.strongRecOn with
  | ind depth ih =>
    intro key hne hsettled more hle
    obtain _ | depth := depth
    · exact hsettled.elim
    obtain ⟨more, rfl⟩ : ∃ less, more = less + 1 := ⟨more - 1, by omega⟩
    have hmore : depth ≤ more := by omega
    cases hget : r'.functions.get? key with
    | none =>
      have hname : key ≠ name := by
        rintro rfl
        exact Option.some_ne_none f' (h.after.symm.trans hget)
      have hnone : r.functions.get? key = none := by
        obtain ⟨hnone, -⟩ | ⟨d, d', -, hget', -⟩ := h.alike hname hne
        · exact hnone
        · exact absurd (hget'.symm.trans hget) (Option.some_ne_none d')
      rw [routesWithin, routesWithin, hget, hnone]
    | some d' =>
      rw [← h.chainOfBody_eq hrouter hkeeps hne hget more]
      refine (hsettled d' hget _ fun other hother => ?_).symm
      by_cases hsub : other = sub
      · subst hsub
        rw [given, if_pos rfl]
        obtain _ | depth := depth
        · exact hother.elim
        · refine (h.routesWithin_sub hrouter hother fun other hne' hsettled' => ?_).symm
          exact ih depth (by omega) other hne' hsettled' more (by omega)
      · rw [given, if_neg hsub]
        exact (ih depth (by omega) other hsub hother more hmore).symm

theorem routes_eq (hkeeps : Keeps r name g)
    (hlimit : ∀ root ∈ r'.roots, r'.Settled depthLimit root) : r'.routes = r.routes := by
  have hroots := h.roots_eq hrouter hkeeps
  rw [routes, routes, hroots]
  refine List.flatMap_congr fun root hm => ?_
  have hne : root ≠ sub := by
    rintro rfl
    exact h.sub_not_mem_names (mem_roots.mp hm).1
  exact h.routesWithin_eq hrouter hkeeps depthLimit root hne (hlimit root (hroots ▸ hm)) depthLimit
    (Nat.le_refl _)

end

end Extracts

end ApiContract.Routers
