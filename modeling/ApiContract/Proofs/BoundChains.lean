import Mathlib.Data.List.DropRight
import ApiContract.Proofs.LastAssignment
import ApiContract.Proofs.PaginatedShapes

namespace ApiContract

namespace Shape

def pagedBy (shape : Shape) (pages : Bool) : Shape := if pages then shape.paginate else shape

theorem paginate_paginate (shape : Shape) : shape.paginate.paginate = shape.paginate := by
  cases shape <;> rfl

theorem pagedBy_pagedBy (shape : Shape) (pages more : Bool) :
    (shape.pagedBy pages).pagedBy more = shape.pagedBy (more || pages) := by
  cases pages <;> cases more <;> first | rfl | exact shape.paginate_paginate

theorem pagedBy_eq_self {shape : Shape} {pages : Bool} :
    shape.pagedBy pages = shape ↔ (pages = true → shape.paginate = shape) := by
  cases pages with
  | false => simp [pagedBy]
  | true => simp [pagedBy]

theorem pagedBy_literal (value : Json) (pages : Bool) :
    (literal value).pagedBy pages = literal value := by
  cases pages <;> rfl

theorem pagedBy_raw (type : String) (collection paginated pages : Bool) :
    (raw type collection paginated).pagedBy pages =
      raw type (pages || collection) (pages || paginated) := by
  cases pages <;> rfl

theorem pagedBy_eq_literal {shape : Shape} {pages : Bool} {value : Json} :
    shape.pagedBy pages = literal value ↔ shape = literal value := by
  cases pages <;> cases shape <;> simp [pagedBy, paginate]

end Shape

namespace Handler

open Source

/-- A call of a method, apart from what it is called on. -/
structure MethodCall where
  name : String
  inner : List Expr := []
  args : List Expr := []

namespace MethodCall

def on (m : MethodCall) (e : Expr) : Expr := .method e m.name m.inner m.args

def chain (ms : List MethodCall) (e : Expr) : Expr := ms.foldl (fun receiver m => m.on receiver) e

def isTransparent (m : MethodCall) : Bool := m.args.length ≤ 1 && transparentMethods.contains m.name

def keepsValue (m : MethodCall) : Bool := m.args.isEmpty && valueMethods.contains m.name

/-- The calls that are left without the transparent ones at the end. -/
def kept (ms : List MethodCall) : List MethodCall := ms.rdropWhile isTransparent

theorem chain_concat (ms : List MethodCall) (m : MethodCall) (e : Expr) :
    chain (ms ++ [m]) e = m.on (chain ms e) := by
  rw [chain, List.foldl_append]
  rfl

theorem exists_chain_eq {ms : List MethodCall} (h : ms ≠ []) (e : Expr) :
    ∃ before m, ms = before ++ [m] ∧ chain ms e = m.on (chain before e) := by
  obtain ⟨before, m, rfl⟩ := (List.eq_nil_or_concat' ms).resolve_left h
  exact ⟨before, m, rfl, chain_concat before m e⟩

theorem peel_on (m : MethodCall) (e : Expr) :
    peel (m.on e) = if m.isTransparent then peel e else m.on e := by
  rw [on, peel]
  rfl

theorem peel_chain (ms : List MethodCall) (e : Expr) :
    peel (chain ms e) = if kept ms = [] then peel e else chain (kept ms) e := by
  induction ms using List.reverseRecOn with
  | nil => rfl
  | append_singleton ms m ih =>
    rw [chain_concat, peel_on, kept, List.rdropWhile_concat]
    by_cases h : m.isTransparent = true
    · rw [if_pos h, if_pos h, ih, kept]
    · rw [if_neg h, if_neg h, if_neg (by simp), chain_concat]

theorem value?_on (c : Context) (env : Environment) (m : MethodCall) (e : Expr) :
    value? c env (m.on e) = if m.keepsValue then value? c env e else none := by
  obtain ⟨name, inner, args⟩ := m
  cases args with
  | nil => rw [on, value?, keepsValue, List.isEmpty_nil, Bool.true_and]
  | cons => rfl

theorem value?_chain (c : Context) (env : Environment) (ms : List MethodCall) (e : Expr) :
    value? c env (chain ms e) = if ms.all keepsValue then value? c env e else none := by
  induction ms using List.reverseRecOn with
  | nil => rfl
  | append_singleton ms m ih =>
    rw [chain_concat, value?_on, ih, List.all_append, List.all_cons, List.all_nil, Bool.and_true]
    cases m.keepsValue <;> cases ms.all keepsValue <;> rfl

theorem chainRoot_chain (ms : List MethodCall) (e : Expr) :
    chainRoot (chain ms e) = chainRoot e := by
  induction ms using List.reverseRecOn with
  | nil => rfl
  | append_singleton ms m ih => rw [chain_concat, on, chainRoot, ih]

theorem any_chainMethods_chain (p : String → Bool) (ms : List MethodCall) (e : Expr) :
    (chainMethods (chain ms e)).any p = ((ms.any fun m => p m.name) || (chainMethods e).any p) := by
  induction ms using List.reverseRecOn with
  | nil => rfl
  | append_singleton ms m ih =>
    rw [chain_concat, on, chainMethods, List.any_cons, ih, List.any_append, List.any_cons,
      List.any_nil, Bool.or_false, Bool.or_assoc, Bool.or_left_comm]

theorem firstConstruction?_chain {c : Context} {e : Expr} {found : Construction}
    (ms : List MethodCall) (h : firstConstruction? c e = some found) :
    firstConstruction? c (chain ms e) = some found := by
  induction ms using List.reverseRecOn with
  | nil => exact h
  | append_singleton ms m ih =>
    have hnodes : (m.on (chain ms e)).nodes isImmediate =
        m.on (chain ms e) :: ((chain ms e).nodes isImmediate ++ nodesOfAll isImmediate m.inner ++
          nodesOfAll isImmediate m.args) := rfl
    have hself : constructionAt? c (m.on (chain ms e)) = none := rfl
    rw [chain_concat, firstConstruction?, hnodes, List.findSome?_cons, hself, List.findSome?_append,
      List.findSome?_append, ← firstConstruction?, ih]
    rfl

end MethodCall

open MethodCall

theorem fromOwner?_of_transparent {callee : Expr} (h : isTransparentCall callee = true) :
    fromOwner? callee = none := by
  unfold fromOwner?
  split
  next path inner =>
    split
    next owner before hnames =>
      have hfront : path.names = (owner :: before).reverse ++ ["from"] := by
        rw [← List.reverse_cons, ← hnames, List.reverse_reverse]
      have hends : "from".toList <:+ path.text.toList := by
        rcases text_eq_or hfront with htext | htext
        · exact htext ▸ List.suffix_rfl
        · rw [htext, Name.toList_append]
          exact ((List.suffix_cons _ _).trans (List.suffix_cons _ _)).trans (List.suffix_append _ _)
      have hall : ∀ name ∈ transparentCalls, ¬ "from".toList <:+ name.toList := by decide
      exact absurd hends (hall path.text (List.contains_iff_mem.mp h))
    next => rfl
  next => rfl

theorem value?_peel {c : Context} {env : Environment} {e : Expr} {value : Json}
    (h : value? c env e = some value) : value? c env (peel e) = some value := by
  fun_induction peel e with
  | case1 e ih | case2 e ih =>
    rw [value?] at h
    exact ih h
  | case3 e | case4 e => cases h
  | case5 callee arg htransparent ih =>
    rw [value?, fromOwner?_of_transparent htransparent] at h
    cases h
  | case7 receiver name inner args _ ih =>
    have hon := value?_on c env ⟨name, inner, args⟩ receiver
    rw [on, h] at hon
    split at hon
    · exact ih hon.symm
    · cases hon
  | case6 | case8 | case9 => exact h

namespace Evaluator

variable (v : Evaluator)

def withLocal (x : String) (shape : Shape) : Evaluator :=
  { v with environment := v.environment.bind x shape }

def pages (ms : List MethodCall) : Bool := ms.any fun m => v.context.conventions.isPaginator m.name

def asksForPage (e : Expr) : Bool := (chainMethods e).any v.context.conventions.isPaginator

/-- What an expression constructs first, by itself and inside the transparent forms around it, where
it is nothing else that an evaluation knows. -/
structure Constructs (e : Expr) (found : Construction) : Prop where
  no_value : v.value? (peel e) = none
  no_chain : v.chainShape? (peel e) = none
  no_name : v.named? (chainRoot e) = none
  inside : firstConstruction? v.context (peel e) = some found
  whole : firstConstruction? v.context e = some found

/-- A chain on a local name, `bound`, beside the same chain on what was assigned to the name,
`direct`. -/
structure ChainReadings (e : Expr) (ms : List MethodCall) (bound direct : Shape) : Prop where
  /-- A chain on a name asks for a page at most. -/
  bound_eq : bound = (v.evaluate e).pagedBy (v.pages (kept ms))
  nothing_kept : kept ms = [] → bound = direct
  /-- A value is kept by the calls, or the chain goes back to a local name that stands for it. -/
  value : kept ms ≠ [] → ∀ value, v.value? (peel e) = some value →
    (bound = direct ↔ v.value? (chain (kept ms) e) = some value ∨
      v.value? (chain (kept ms) e) = none ∧ v.named? (chainRoot e) = some (.literal value))
  /-- A chain that goes back to a local name has the shape of that name. -/
  direct_of_name : kept ms ≠ [] → v.value? (peel e) = none →
      ∀ root, v.named? (chainRoot e) = some root →
        direct = root.pagedBy (v.pages (kept ms) || v.asksForPage e)
  /-- Such a chain is told apart by nothing but pages that a transparent form in the expression asks
  for. -/
  named : kept ms ≠ [] → v.value? (peel e) = none → ∀ root, v.named? (chainRoot e) = some root →
        (v.chainShape? (peel e)).isSome = true → (bound = direct ↔ v.pages (kept ms) = true ∨
            root.pagedBy (v.asksForPage (peel e)) = root.pagedBy (v.asksForPage e))
  /-- Any other chain has the shape of what is constructed first in it. -/
  direct_of_no_name : kept ms ≠ [] → v.value? (peel e) = none → v.named? (chainRoot e) = none →
      direct = ((firstConstruction? v.context (chain (kept ms) e)).map
          (v.read (chain (kept ms) e))).getD .unresolved
  fixed : kept ms ≠ [] → ∀ found, v.Constructs e found → v.Fixed found →
    (bound = direct ↔ (v.pages (kept ms) = true → (v.evaluate e).paginate = v.evaluate e))
  /-- A domain object is a collection or a page if any call in the whole expression says so. -/
  gathered : kept ms ≠ [] → ∀ found, v.Constructs e found → ¬ v.Fixed found → (bound = direct ↔
          ∀ has ∈ [v.context.conventions.isCollection, v.context.conventions.isPaginator],
            (calledNames (chain (kept ms) e)).any has =
              (v.pages (kept ms) || (calledNames (peel e)).any has))
  unresolved : kept ms ≠ [] → v.value? (peel e) = none → v.named? (chainRoot e) = none →
    v.chainShape? (peel e) = none → firstConstruction? v.context (peel e) = none →
    (bound = direct ↔ firstConstruction? v.context (chain (kept ms) e) = none)

variable {v} {e : Expr} {ms : List MethodCall}

theorem chainShape?_chain (h : ms ≠ []) : v.chainShape? (chain ms e) =
    (v.named? (chainRoot e)).map fun root => root.pagedBy (v.pages ms || v.asksForPage e) := by
  obtain ⟨before, m, rfl, hchain⟩ := exists_chain_eq h e
  have hshape : v.chainShape? (m.on (chain before e)) =
      (v.named? (chainRoot (m.on (chain before e)))).map fun root =>
        root.pagedBy
            ((chainMethods (m.on (chain before e))).any v.context.conventions.isPaginator) :=
          rfl
  rw [hchain, hshape, ← chain_concat, chainRoot_chain, any_chainMethods_chain]
  rfl

theorem peel_chain_kept (h : kept ms ≠ []) : peel (chain ms e) = chain (kept ms) e := by
  rw [peel_chain, if_neg h]

theorem value?_chain_kept (h : v.value? (peel e) = none) : v.value? (chain ms e) = none := by
  have hnone : v.value? e = none := by
    cases hvalue : v.value? e with
    | none => rfl
    | some value => rw [value?, value?_peel hvalue] at h; cases h
  rw [value?, value?_chain, ← value?, hnone, ite_self]

theorem named?_withLocal {x : String} (hself : x ≠ "self") (shape : Shape) :
    (v.withLocal x shape).named? (localNamed x) = some shape := by
  refine (if_neg hself).trans ?_
  rw [withLocal, Environment.lookup_bind_self]

theorem eq_literal_of_value?_withLocal {x : String} (hnone : x ≠ "None") {shape : Shape}
    {value : Json} (h : (v.withLocal x shape).value? (localNamed x) = some value) :
    shape = .literal value := by
  change localValue? (v.environment.bind x shape) x = some value at h
  rw [localValue?, if_neg hnone, Environment.lookup_bind_self] at h
  cases shape <;> cases h
  rfl

/-- A chain on a local name has the shape of the name, as a page if a call that is kept asks for
one. -/
theorem evaluate_chain_localNamed {x : String} (hself : x ≠ "self") (hnone : x ≠ "None")
    (shape : Shape) : (v.withLocal x shape).evaluate (chain ms (localNamed x)) =
    shape.pagedBy (v.pages (kept ms)) := by
  by_cases hkept : kept ms = []
  · have hpeel : peel (chain ms (localNamed x)) = peel (localNamed x) := by
      rw [peel_chain, if_pos hkept]
    have hlookup : (v.withLocal x shape).environment.lookup x = some shape :=
      Environment.lookup_bind_self _ _ _
    rw [evaluate_congr_peel hpeel, evaluate_localNamed _ hself hnone, hlookup, hkept]
    rfl
  have hpeel : peel (chain ms (localNamed x)) = chain (kept ms) (localNamed x) :=
    peel_chain_kept hkept
  -- the calls keep a value only if the name stands for one
  cases hvalue : (v.withLocal x shape).value? (chain (kept ms) (localNamed x)) with
  | none =>
    refine evaluate_of_chain (by rw [hpeel, hvalue]) ?_
    have hroot : chainRoot (localNamed x) = localNamed x := rfl
    rw [hpeel, chainShape?_chain hkept, hroot, named?_withLocal hself, Option.map_some]
    exact congrArg (fun pages => some (shape.pagedBy pages)) (Bool.or_false _)
  | some value =>
    have hlocal : (v.withLocal x shape).value? (localNamed x) = some value := by
      rw [Evaluator.value?, value?_chain] at hvalue
      split at hvalue
      · exact hvalue
      · cases hvalue
    rw [evaluate_of_value (by rw [hpeel, hvalue]), eq_literal_of_value?_withLocal hnone hlocal,
      Shape.pagedBy_literal]

theorem evaluate_chain_of_name (hkept : kept ms ≠ []) (hvalue : v.value? (chain (kept ms) e) = none)
    {root : Shape} (hroot : v.named? (chainRoot e) = some root) :
    v.evaluate (chain ms e) = root.pagedBy (v.pages (kept ms) || v.asksForPage e) := by
  refine evaluate_of_chain (by rw [peel_chain_kept hkept, hvalue]) ?_
  rw [peel_chain_kept hkept, chainShape?_chain hkept, hroot, Option.map_some]

theorem evaluate_chain_of_no_name (hkept : kept ms ≠ [])
    (hvalue : v.value? (chain (kept ms) e) = none) (hroot : v.named? (chainRoot e) = none) :
    v.evaluate (chain ms e) = ((firstConstruction? v.context (chain (kept ms) e)).map
        (v.read (chain (kept ms) e))).getD .unresolved := by
  have hpeel : peel (chain ms e) = chain (kept ms) e := peel_chain_kept hkept
  rw [← hpeel]
  refine evaluate_of_first (by rw [hpeel, hvalue]) ?_
  rw [hpeel, chainShape?_chain hkept, hroot, Option.map_none]

theorem read_cases (v : Evaluator) (scope : Expr) (found : Construction) :
    (∃ transformer collection paginated source,
        v.read scope found = .wrapped transformer collection paginated source) ∨
      ∃ type collection paginated, v.read scope found = .raw type collection paginated := by
  rw [read, constructed]
  dsimp only
  split
  · exact .inl ⟨_, _, _, _, rfl⟩
  · split
    · exact .inr ⟨_, _, _, rfl⟩
    · exact .inr ⟨_, _, _, rfl⟩

theorem exists_path_of_named {root : Shape} (h : v.named? e = some root) :
    ∃ path inner, e = .path path inner := by
  cases e with
  | path path inner => exact ⟨path, inner, rfl⟩
  | _ => cases h

/-- An expression that goes back to a local name, and is read by it, has the shape of the name. -/
theorem eq_of_chainShape? {shape root : Shape} (h : v.chainShape? e = some shape)
    (hroot : v.named? (chainRoot e) = some root) : shape = root.pagedBy (v.asksForPage e) := by
  cases e with
  | path path inner =>
    have hself : chainRoot (.path path inner) = .path path inner := rfl
    rw [hself] at hroot
    rw [chainShape?, hroot] at h
    exact (Option.some.inj h).symm
  | field base | index base =>
    obtain ⟨path, inner, rfl⟩ := exists_path_of_named (show v.named? base = some shape from h)
    exact Option.some.inj (Eq.trans (Eq.symm h) hroot)
  | method receiver name inner args =>
    rw [chainShape?, hroot] at h
    exact (Option.some.inj h).symm
  | _ => cases h

theorem chainRoot_peel (h : (v.named? (chainRoot e)).isSome = true) :
    chainRoot (peel e) = chainRoot e := by
  fun_induction peel e with
  | case1 e ih | case3 e ih | case4 e ih | case7 receiver name inner args _ ih => exact ih h
  | case2 | case5 => cases h
  | case6 | case8 | case9 => rfl

/-- What is constructed first in an expression is constructed first in a chain on it. -/
theorem Constructs.evaluate_chain {found : Construction} (h : v.Constructs e found)
    (hkept : kept ms ≠ []) : v.evaluate e = v.read (peel e) found ∧
    v.evaluate (chain ms e) = v.read (chain (kept ms) e) found := by
  constructor
  · rw [evaluate_of_first h.no_value h.no_chain, h.inside]
    rfl
  · rw [evaluate_chain_of_no_name hkept (value?_chain_kept h.no_value) h.no_name,
      firstConstruction?_chain _ h.whole]
    rfl

section

variable {bound : Shape} (hbound : bound = (v.evaluate e).pagedBy (v.pages (kept ms)))
  (hkept : kept ms ≠ [])

include hbound hkept

theorem eq_chain_iff_of_value {value : Json} (h : v.value? (peel e) = some value) :
    bound = v.evaluate (chain ms e) ↔ v.value? (chain (kept ms) e) = some value ∨
      v.value? (chain (kept ms) e) = none ∧ v.named? (chainRoot e) = some (.literal value) := by
  rw [hbound, evaluate_of_value h, Shape.pagedBy_literal]
  cases hvalue : v.value? (chain (kept ms) e) with
  | some found =>
    rw [evaluate_of_value (by rw [peel_chain_kept hkept, hvalue])]
    simp [eq_comm]
  | none =>
    cases hroot : v.named? (chainRoot e) with
    | some root =>
      rw [evaluate_chain_of_name hkept hvalue hroot, eq_comm, Shape.pagedBy_eq_literal]
      simp
    | none =>
      rw [evaluate_chain_of_no_name hkept hvalue hroot]
      cases firstConstruction? v.context (chain (kept ms) e) with
      | none => simp
      | some found =>
        obtain ⟨_, _, _, _, hread⟩ | ⟨_, _, _, hread⟩ := v.read_cases (chain (kept ms) e) found
        · simp [hread]
        · simp [hread]

theorem eq_chain_iff_of_name (h : v.value? (peel e) = none) {root : Shape}
    (hroot : v.named? (chainRoot e) = some root) (hshape : (v.chainShape? (peel e)).isSome = true) :
    bound = v.evaluate (chain ms e) ↔ v.pages (kept ms) = true ∨
        root.pagedBy (v.asksForPage (peel e)) = root.pagedBy (v.asksForPage e) := by
  obtain ⟨shape, hshape⟩ := Option.isSome_iff_exists.mp hshape
  have hsame : chainRoot (peel e) = chainRoot e := chainRoot_peel (by rw [hroot]; rfl)
  have heq : shape = root.pagedBy (v.asksForPage (peel e)) :=
    eq_of_chainShape? hshape (hsame ▸ hroot)
  rw [hbound, evaluate_of_chain h hshape, evaluate_chain_of_name hkept (value?_chain_kept h) hroot,
    heq, Shape.pagedBy_pagedBy]
  cases v.pages (kept ms) <;> simp

theorem eq_chain_iff_of_fixed {found : Construction} (h : v.Constructs e found)
    (hfixed : v.Fixed found) : bound = v.evaluate (chain ms e) ↔
    (v.pages (kept ms) = true → (v.evaluate e).paginate = v.evaluate e) := by
  obtain ⟨hself, hchain⟩ := h.evaluate_chain hkept
  have hsame : v.evaluate (chain ms e) = v.evaluate e := by
    rw [hself, hchain, (Agree.refl found).read_eq_of_fixed hfixed]
  rw [hbound, hsame, Shape.pagedBy_eq_self]

theorem eq_chain_iff_of_gathered {found : Construction} (h : v.Constructs e found)
    (hgathered : ¬ v.Fixed found) : bound = v.evaluate (chain ms e) ↔
    ∀ has ∈ [v.context.conventions.isCollection, v.context.conventions.isPaginator],
      (calledNames (chain (kept ms) e)).any has =
        (v.pages (kept ms) || (calledNames (peel e)).any has) := by
  obtain ⟨hself, hchain⟩ := h.evaluate_chain hkept
  obtain ⟨htransformer, hdomain⟩ := not_or.mp hgathered
  have hread : ∀ scope, v.read scope found =
      .raw found.type ((calledNames scope).any v.context.conventions.isCollection)
        ((calledNames scope).any v.context.conventions.isPaginator) := by
    intro scope
    rw [read, constructed]
    dsimp only
    rw [if_neg htransformer, if_pos (by simpa using hdomain)]
  rw [hbound, hself, hchain, hread, hread, Shape.pagedBy_raw, Shape.raw.injEq]
  simp [eq_comm]

theorem eq_chain_iff_of_unresolved (h : v.value? (peel e) = none)
    (hroot : v.named? (chainRoot e) = none) (hshape : v.chainShape? (peel e) = none)
    (hfirst : firstConstruction? v.context (peel e) = none) :
    bound = v.evaluate (chain ms e) ↔ firstConstruction? v.context (chain (kept ms) e) = none := by
  have hself : bound = .unresolved := by
    rw [hbound, evaluate_of_first h hshape, hfirst]
    cases v.pages (kept ms) <;> rfl
  rw [hself, evaluate_chain_of_no_name hkept (value?_chain_kept h) hroot]
  cases firstConstruction? v.context (chain (kept ms) e) with
  | none => simp
  | some found =>
    obtain ⟨_, _, _, _, hread⟩ | ⟨_, _, _, hread⟩ := v.read_cases (chain (kept ms) e) found
    · simp [hread]
    · simp [hread]

end

variable (v e ms)

/-- A chain of calls on a local name has the shape of what was assigned to the name, as a page if a
call that is kept asks for one. How far the same chain on what was assigned has this shape too is
told for every way in which an evaluation can know it. -/
theorem chainReadings {x : String} (hself : x ≠ "self") (hnone : x ≠ "None") :
    v.ChainReadings e ms ((v.withLocal x (v.evaluate e)).evaluate (chain ms (localNamed x)))
      (v.evaluate (chain ms e)) := by
  have hbound := @evaluate_chain_localNamed v ms x hself hnone (v.evaluate e)
  refine {
    bound_eq := hbound
    nothing_kept := fun hkept => ?_
    value := fun hkept _ => eq_chain_iff_of_value hbound hkept
    direct_of_name := fun hkept hvalue _ => evaluate_chain_of_name hkept (value?_chain_kept hvalue)
    named := fun hkept hvalue _ => eq_chain_iff_of_name hbound hkept hvalue
    direct_of_no_name := fun hkept hvalue => evaluate_chain_of_no_name hkept
      (value?_chain_kept hvalue)
    fixed := fun hkept _ => eq_chain_iff_of_fixed hbound hkept
    gathered := fun hkept _ => eq_chain_iff_of_gathered hbound hkept
    unresolved := fun hkept hvalue hroot => eq_chain_iff_of_unresolved hbound hkept hvalue hroot }
  have hpeel : peel (chain ms e) = peel e := by rw [peel_chain, if_pos hkept]
  rw [hbound, hkept, evaluate_congr_peel hpeel]
  rfl

end Evaluator

def query : Expr := .call (.path (pathTo ["User", "query"]) []) []

def takenPage : List MethodCall := [{ name := "paginate" }, { name := "unwrap" }]

theorem chain_of_page : ("found" ≠ "self" ∧ "found" ≠ "None") ∧ (presenter.withLocal "found"
        (presenter.evaluate query)).evaluate (chain takenPage (localNamed "found")) =
      presenter.evaluate (chain takenPage query) := by
  have hself : "found" ≠ "self" := by decide
  have hnone : "found" ≠ "None" := by decide
  have hkept : kept takenPage = [{ name := "paginate" }] := rfl
  have hfirst :
      firstConstruction? presenter.context query = some ⟨"crate::User", some "query", none⟩ := rfl
  have hconstructs : presenter.Constructs query ⟨"crate::User", some "query", none⟩ :=
    ⟨rfl, rfl, rfl, hfirst, hfirst⟩
  have hgathered : ¬ presenter.Fixed ⟨"crate::User", some "query", none⟩ := by
    rw [Evaluator.Fixed]
    decide
  have hreadings := presenter.chainReadings query takenPage hself hnone
  refine ⟨⟨hself, hnone⟩,
    (hreadings.gathered (hkept ▸ List.cons_ne_nil _ _) _ hconstructs hgathered).mpr ?_⟩
  rw [hkept]
  simp only [List.forall_mem_cons, List.not_mem_nil, false_imp_iff, implies_true, and_true]
  exact ⟨by decide, by decide⟩

/-- A call that gives a collection is not seen in a chain on a local name. -/
theorem not_evaluate_chain_localNamed :
    ¬ ∀ (v : Evaluator) (e : Expr) (ms : List MethodCall) (x : String), x ≠ "self" → x ≠ "None" →
      (∀ inside ∈ (chain ms e).nodes fun _ => true, localName? inside ≠ some x) →
      (v.withLocal x (v.evaluate e)).evaluate (chain ms (localNamed x)) =
        v.evaluate (chain ms e) := by
  intro h
  have hsame := h presenter query [{ name := "list" }] "found" (by decide) (by decide) (by decide)
  have hcollection : ((presenter.withLocal "found" (presenter.evaluate query)).evaluate
      (chain [{ name := "list" }] (localNamed "found"))).isCollection ≠
        (presenter.evaluate (chain [{ name := "list" }] query)).isCollection := by decide +kernel
  exact hcollection (congrArg Shape.isCollection hsame)

end Handler

end ApiContract
