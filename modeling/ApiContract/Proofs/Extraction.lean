import ApiContract.Proofs.DelegatedRouter
import ApiContract.Proofs.Scopes
import Mathlib.Data.List.Forall2

namespace ApiContract

open Source Route

namespace Scope

theorem resolve_congr {scope scope' : Scope} (hmodule : scope.module = scope'.module)
    (himports : scope.imports = scope'.imports) (hmodules : scope.modules = scope'.modules)
    (text : String) : scope.resolve text = scope'.resolve text := by
  simp only [resolve, moduleName, hmodule, himports, hmodules]

/-- What names mean does not depend on the functions that are declared. -/
theorem resolve_insert_function (path : String) (module : List String) (before after : List Item)
    (f : Function) (text : String) :
    (ofItems path module (before ++ .function f :: after)).resolve text =
      (ofItems path module (before ++ after)).resolve text := by
  apply resolve_congr
  · rfl
  · simp [ofItems, Imports.ofItems]
  · simp [ofItems]

theorem resolve_module (path : String) (module : List String)
    (before after content content' : List Item) (name : String) (text : String) :
    (ofItems path module (before ++ .module name (some content) :: after)).resolve text =
      (ofItems path module (before ++ .module name (some content') :: after)).resolve text := by
  apply resolve_congr
  · rfl
  · simp [ofItems, Imports.ofItems]
  · simp [ofItems]

theorem nested_insert_function (path : String) (module : List String) (before after : List Item)
    (f : Function) :
    nested path module (before ++ .function f :: after) = nested path module (before ++ after) := by
  have hskip : nested path module (.function f :: after) = nested path module after := by
    simp [nested]
  rw [nested_append, nested_append, hskip]

/-- Among some items, or in a module that is written out there, `f` becomes `f'` and `g` is
declared: `scope` is where this happens, and `scope'` what it becomes. -/
inductive Edits (path : String) (f f' g : Function) :
    List String → List Item → List Item → Scope → Scope → Prop where
  | here {module : List String} {before after before' after' : List Item}
      (h : before ++ .function f' :: after = before' ++ after') :
      Edits path f f' g module (before ++ .function f :: after) (before' ++ .function g :: after')
        (ofItems path module (before ++ .function f :: after))
        (ofItems path module (before' ++ .function g :: after'))
  | inside {module : List String} {name : String} {before after content content' : List Item}
      {scope scope' : Scope}
      (h : Edits path f f' g (module ++ [name]) content content' scope scope') :
      Edits path f f' g module (before ++ .module name (some content) :: after)
        (before ++ .module name (some content') :: after) scope scope'

end Scope

namespace Routers

open Scope

def Matches (name : String) (entry entry' : String × DeclaredFunction) : Prop :=
  entry.1 = entry'.1 ∧ (entry.1 ≠ name → Alike entry.2 entry'.2)

theorem Matches.refl (name : String) (entry : String × DeclaredFunction) :
    Matches name entry entry :=
  ⟨rfl, fun _ => ⟨rfl, fun _ => rfl⟩⟩

theorem forall₂_matches_refl (name : String) (entries : List (String × DeclaredFunction)) :
    List.Forall₂ (Matches name) entries entries :=
  List.forall₂_same.mpr fun entry _ => .refl name entry

theorem get?_matches {name key : String} {entries entries' : Table DeclaredFunction}
    (h : List.Forall₂ (Matches name) entries entries') (hne : key ≠ name) :
    Option.Rel Alike (entries.get? key) (entries'.get? key) := by
  induction h with
  | nil => exact .none
  | @cons entry entry' entries entries' hentry _ ih =>
    rw [Table.get?_cons, Table.get?_cons, ← hentry.1]
    by_cases hkey : key = entry.1
    · rw [if_pos hkey, if_pos hkey]
      exact .some (hentry.2 (hkey ▸ hne))
    · rw [if_neg hkey, if_neg hkey]
      exact ih

def Grows (name : String) (added : String × DeclaredFunction)
    (entries entries' : List (String × DeclaredFunction)) : Prop :=
  ∃ before after,
    entries' = before ++ added :: after ∧ List.Forall₂ (Matches name) entries (before ++ after)

section

variable {name : String} {added : String × DeclaredFunction}
  {entries entries' more more' : List (String × DeclaredFunction)}

theorem Grows.append (h : Grows name added entries entries')
    (hmore : List.Forall₂ (Matches name) more more') :
    Grows name added (entries ++ more) (entries' ++ more') := by
  obtain ⟨before, after, rfl, hmatches⟩ := h
  refine ⟨before, after ++ more', by rw [List.append_assoc, List.cons_append], ?_⟩
  rw [← List.append_assoc]
  exact List.rel_append hmatches hmore

theorem Grows.prepend (h : Grows name added entries entries')
    (hmore : List.Forall₂ (Matches name) more more') :
    Grows name added (more ++ entries) (more' ++ entries') := by
  obtain ⟨before, after, rfl, hmatches⟩ := h
  refine ⟨more' ++ before, after, by rw [List.append_assoc], ?_⟩
  rw [List.append_assoc]
  exact List.rel_append hmore hmatches

theorem Grows.get? (h : Grows name added entries entries') {key : String} (hname : key ≠ name)
    (hadded : key ≠ added.1) : Option.Rel Alike (Table.get? (Table.ofList entries) key)
    (Table.get? (Table.ofList entries') key) := by
  obtain ⟨before, after, rfl, hmatches⟩ := h
  have hskip : Table.get? (before ++ added :: after).reverse key =
      Table.get? (before ++ after).reverse key := by
    simp [Table.get?_append, Table.get?_cons, hadded]
  rw [Table.get?_ofList_reverse, Table.get?_ofList_reverse, hskip]
  exact get?_matches (List.forall₂_reverse_iff.mpr hmatches) hname

theorem Grows.get?_added (h : Grows name added entries entries')
    (hnew : Table.get? (Table.ofList entries) added.1 = none) :
    Table.get? (Table.ofList entries') added.1 = some added.2 := by
  obtain ⟨before, after, rfl, hmatches⟩ := h
  refine Table.get?_ofList before after added.2 fun hm => ?_
  have hkeys : ∀ {xs ys : List (String × DeclaredFunction)}, List.Forall₂ (Matches name) xs ys →
      xs.map Prod.fst = ys.map Prod.fst := by
    intro xs ys hxy
    induction hxy with
    | nil => rfl
    | cons hentry _ ih => rw [List.map_cons, List.map_cons, hentry.1, ih]
  have hm' : added.1 ∈ entries.map Prod.fst := by
    rw [hkeys hmatches, List.map_append]
    exact List.mem_append_right _ hm
  obtain ⟨value, hvalue, -⟩ := Table.exists_get?_ofList hm'
  exact Option.some_ne_none value (hvalue.symm.trans hnew)

end

def declared? (scope : Scope) : Item → Option (String × DeclaredFunction)
  | .function f => some (scope.moduleName ++ "::" ++ f.name, ⟨scope, f.body⟩)
  | _ => none

theorem functionsOf_ofItems (path : String) (module : List String) (items : List Item) :
    functionsOf (ofItems path module items) =
      items.filterMap (declared? (ofItems path module items)) :=
  rfl

theorem forall₂_entries (name path : String) (module : List String) {own own' : List Item}
    (hresolve :
      ∀ text, (ofItems path module own).resolve text = (ofItems path module own').resolve text)
    (items : List Item) :
    List.Forall₂ (Matches name) (items.filterMap (declared? (ofItems path module own)))
      (items.filterMap (declared? (ofItems path module own'))) := by
  induction items with
  | nil => exact .nil
  | cons item items ih =>
    cases item with
    | function f => exact .cons ⟨rfl, fun _ => ⟨rfl, hresolve⟩⟩ ih
    | _ => exact ih

def functionsIn (path : String) (module : List String) (items : List Item) :
    List (String × DeclaredFunction) :=
  (ofItems path module items :: Scope.nested path module items).flatMap functionsOf

theorem functionsIn_module (path : String) (module : List String) (before after content : List Item)
    (name : String) : functionsIn path module (before ++ .module name (some content) :: after) =
    functionsOf (ofItems path module (before ++ .module name (some content) :: after)) ++
      (Scope.nested path module after).flatMap functionsOf ++
      functionsIn path (module ++ [name]) content ++
      (Scope.nested path module before).flatMap functionsOf := by
  rw [functionsIn, functionsIn, nested_append, nested_module]
  simp only [List.flatMap_cons, List.flatMap_append, List.append_assoc]

variable {path : String} {f f' g : Function} {module : List String} {items items' : List Item}
  {scope scope' : Scope}

theorem resolve_of_edits (h : Edits path f f' g module items items' scope scope') :
    scope.moduleName = scope'.moduleName ∧ ∀ text, scope.resolve text = scope'.resolve text := by
  induction h with
  | here h =>
    refine ⟨rfl, fun text => ?_⟩
    rw [resolve_insert_function, resolve_insert_function, ← h, resolve_insert_function]
  | inside _ ih => exact ih

theorem grows_of_edits (h : Edits path f f' g module items items' scope scope')
    (hname : f'.name = f.name) :
    Grows (scope.moduleName ++ "::" ++ f.name) (scope.moduleName ++ "::" ++ g.name,
      ⟨scope', g.body⟩) (functionsIn path module items) (functionsIn path module items') := by
  have hresolve := (resolve_of_edits h).2
  induction h with
  | @here module before after before' after' h =>
    have hnested : Scope.nested path module (before ++ .function f :: after) =
        Scope.nested path module (before' ++ .function g :: after') := by
      rw [nested_insert_function, nested_insert_function, ← h, nested_insert_function]
    rw [functionsIn, functionsIn, List.flatMap_cons, List.flatMap_cons, hnested]
    -- only the scope itself changes; the modules written out in it are those from before
    refine Grows.append ?_ (forall₂_matches_refl _ _)
    let renewed := declared? (ofItems path module (before' ++ .function g :: after'))
    refine ⟨before'.filterMap renewed, after'.filterMap renewed, ?_, ?_⟩
    · rw [functionsOf_ofItems, List.filterMap_append]
      rfl
    · rw [functionsOf_ofItems, ← List.filterMap_append, ← h, List.filterMap_append,
        List.filterMap_append]
      have hentries := forall₂_entries (Name.join module ++ "::" ++ f.name) path module hresolve
      refine List.rel_append (hentries before)
        (List.Forall₂.cons ⟨?_, fun hne => absurd rfl hne⟩ (hentries after))
      rw [hname]
      rfl
  | @inside module name before after content content' scope scope' _ ih =>
    have hentries := forall₂_entries (scope.moduleName ++ "::" ++ f.name) path module
      (resolve_module path module before after content content' name)
    have houter : List.Forall₂ (Matches (scope.moduleName ++ "::" ++ f.name))
        (functionsOf (ofItems path module (before ++ .module name (some content) :: after)))
        (functionsOf (ofItems path module (before ++ .module name (some content') :: after))) := by
      rw [functionsOf_ofItems, functionsOf_ofItems, List.filterMap_append, List.filterMap_append]
      exact List.rel_append (hentries before) (hentries after)
    rw [functionsIn_module, functionsIn_module]
    exact ((ih hresolve).prepend (List.rel_append houter (forall₂_matches_refl _ _))).append
      (forall₂_matches_refl _ _)

def declarations (files : List ParsedFile) : List (String × DeclaredFunction) :=
  files.flatMap fun file => functionsIn file.path file.module file.items

theorem ofFiles_eq (files : List ParsedFile) :
    ofFiles files = ⟨Table.ofList (declarations files)⟩ := by
  rw [ofFiles, ofScopes, List.flatMap_assoc]
  rfl

/-- An operand of a function is taken out of it: it becomes the body of a new function without
parameters, which stands in the same module and is called in its place. -/
structure Extraction (files files' : List ParsedFile) where
  before : List ParsedFile
  after : List ParsedFile
  path : String
  module : List String
  items : List Item
  items' : List Item
  scope : Scope
  scope' : Scope
  /-- The function before and after, and the new one. -/
  f : Function
  f' : Function
  g : Function
  operand : Expr
  files_eq : files = before ++ ⟨path, module, items⟩ :: after
  files'_eq : files' = before ++ ⟨path, module, items'⟩ :: after
  edits : Edits path f f' g module items items' scope scope'
  name_eq : f'.name = f.name
  params : g.params = []
  body : g.body = [.expr operand false]
  isOperand : Route.isOperand operand = true
  replaces : Replaces operand (callOf g.name) [] (.block f.body) (.block f'.body)
  /-- The function is the one that its name stands for. -/
  indexed :
      (ofFiles files).functions.get? (scope.moduleName ++ "::" ++ f.name) = some ⟨scope, f.body⟩
  indexed' :
      (ofFiles files').functions.get? (scope.moduleName ++ "::" ++ f.name) = some ⟨scope', f'.body⟩
  /-- The name of the new function is new: nothing is declared by it and nothing calls it. -/
  resolved : scope.resolve g.name = scope.moduleName ++ "::" ++ g.name
  undeclared : (ofFiles files).functions.get? (scope.moduleName ++ "::" ++ g.name) = none
  uncalled : ∀ name d,
      (ofFiles files).functions.get? name = some d → scope.moduleName ++ "::" ++ g.name ∉ calls d

namespace Extraction

variable {files files' : List ParsedFile}

def name (x : Extraction files files') : String := x.scope.moduleName ++ "::" ++ x.f.name

def part (x : Extraction files files') : DeclaredFunction := ⟨x.scope', x.g.body⟩

theorem grows (x : Extraction files files') :
    Grows x.name (x.scope.moduleName ++ "::" ++ x.g.name, x.part) (declarations files)
      (declarations files') := by
  have hfiles := congrArg declarations x.files_eq
  have hfiles' := congrArg declarations x.files'_eq
  rw [hfiles, hfiles', declarations, declarations, List.flatMap_append, List.flatMap_append,
    List.flatMap_cons, List.flatMap_cons]
  have hfile := grows_of_edits x.edits x.name_eq
  exact (hfile.append (forall₂_matches_refl _ _)).prepend (forall₂_matches_refl _ _)

theorem extracts (x : Extraction files files') :
    Extracts (ofFiles files) (ofFiles files') x.name (x.scope.moduleName ++ "::" ++ x.g.name)
      x.g.name ⟨x.scope, x.f.body⟩ ⟨x.scope', x.f'.body⟩ x.part x.operand where
  sorted := Table.sorted_ofList _
  sorted' := Table.sorted_ofList _
  before := x.indexed
  after := x.indexed'
  added := by
    have hnew := x.undeclared
    rw [ofFiles_eq] at hnew ⊢
    exact x.grows.get?_added hnew
  others := by
    intro key hname hsub
    rw [ofFiles_eq, ofFiles_eq]
    exact x.grows.get? hname hsub
  body := x.body
  resolve := (resolve_of_edits x.edits).2
  resolve' := (resolve_of_edits x.edits).2
  called := x.resolved
  operand := x.isOperand
  replaces := x.replaces
  undeclared := x.undeclared
  uncalled := x.uncalled

/-- The routes of a project stay when an operand is taken out of a router function, as long as the
nesting stays below the limit: if the function remains a router function and the new one is safe
beside it, or if it was a root and hands all of its routes over. -/
theorem routes_unchanged (x : Extraction files files')
    (hrouters : isRouterBody x.f'.body = true ∧ (ofFiles files).Keeps x.name x.part ∨
      (ofFiles files).HandsOver x.name ⟨x.scope, x.f.body⟩ ⟨x.scope', x.f'.body⟩ x.part x.operand)
    (hlimit : ∀ root ∈ (ofFiles files').roots, (ofFiles files').Settled depthLimit root) :
    (ofFiles files').routes.Perm (ofFiles files).routes := by
  obtain ⟨hrouter, hkeeps⟩ | hover := hrouters
  · rw [x.extracts.routes_eq hrouter hkeeps hlimit]
  · exact x.extracts.routes_perm hover hlimit

def routerOf (uri handler : String) : Expr :=
  .method (.call (.path (.mk false [.mk "Router" .none, .mk "new" .none]) []) []) "route" []
    [.lit (.string uri), .call (.path (.ofIdent "get") []) [.path (.ofIdent handler) []]]

def appOf (e : Expr) : Function := .mk [] "app" [] [] [.expr e false]

def subOf (e : Expr) : Function := .mk [] "sub" [] [] [.expr e false]

def crateOf (functions : List Function) : List ParsedFile :=
  [⟨"src/lib.rs", ["crate"], functions.map .function⟩]

def scopeOf (functions : List Function) : Scope :=
  Scope.ofItems "src/lib.rs" ["crate"] (functions.map .function)

theorem moduleName_scopeOf (functions : List Function) :
    (scopeOf functions).moduleName = "crate" := by
  change Name.join ["crate"] = "crate"
  decide

theorem declarations_crateOf (functions : List Function) : declarations (crateOf functions) =
    functions.map fun f => ("crate" ++ "::" ++ f.name, ⟨scopeOf functions, f.body⟩) := by
  have hnested : ∀ functions : List Function,
      Scope.nested "src/lib.rs" ["crate"] (functions.map .function) = [] := by
    intro functions
    induction functions with
    | nil => rw [List.map_nil, Scope.nested]
    | cons f functions ih => exact (nested_insert_function "src/lib.rs" ["crate"] [] _ f).trans ih
  rw [declarations, crateOf, List.flatMap_singleton, functionsIn, hnested, List.flatMap_singleton]
  change (functions.map Item.function).filterMap (declared? (scopeOf functions)) = _
  simp [List.filterMap_map, Function.comp_def, declared?, moduleName_scopeOf]

theorem ofFiles_app (e : Expr) :
    ofFiles (crateOf [appOf e]) = ⟨[("crate::app", ⟨scopeOf [appOf e], [.expr e false]⟩)]⟩ := by
  rw [ofFiles_eq, declarations_crateOf]
  rfl

theorem ofFiles_app_sub (e operand : Expr) :
    ofFiles (crateOf [appOf e, subOf operand]) =
      ⟨[("crate::app", ⟨scopeOf [appOf e, subOf operand], [.expr e false]⟩),
        ("crate::sub", ⟨scopeOf [appOf e, subOf operand], [.expr operand false]⟩)]⟩ := by
  have hlt : ¬ "crate::sub" < "crate::app" := by decide
  rw [ofFiles_eq, declarations_crateOf]
  simp [appOf, subOf, Function.name, Function.body, Table.ofList, Table.insert, hlt]

def ofApp {e e' operand : Expr} (hoperand : Route.isOperand operand = true) (hreplaces :
    Replaces operand (callOf "sub") [] (.block [.expr e false]) (.block [.expr e' false]))
    (hcalls : "crate::sub" ∉ calls ⟨scopeOf [appOf e], [.expr e false]⟩) :
    Extraction (crateOf [appOf e]) (crateOf [appOf e', subOf operand]) where
  before := []
  after := []
  path := "src/lib.rs"
  module := ["crate"]
  items := [.function (appOf e)]
  items' := [.function (appOf e'), .function (subOf operand)]
  scope := scopeOf [appOf e]
  scope' := scopeOf [appOf e', subOf operand]
  f := appOf e
  f' := appOf e'
  g := subOf operand
  operand := operand
  files_eq := rfl
  files'_eq := rfl
  edits := @Edits.here _ _ _ _ _ [] [] [.function (appOf e')] [] rfl
  name_eq := rfl
  params := rfl
  body := rfl
  isOperand := hoperand
  replaces := hreplaces
  indexed := by
    rw [ofFiles_app, moduleName_scopeOf]
    rfl
  indexed' := by
    rw [ofFiles_app_sub, moduleName_scopeOf]
    rfl
  resolved := by
    have hempty :
        (Scope.ofItems "src/lib.rs" ["crate"] []).resolve "sub" = "crate" ++ "::" ++ "sub" := by
      rfl
    rw [moduleName_scopeOf]
    exact (resolve_insert_function "src/lib.rs" ["crate"] [] [] (appOf e) "sub").trans hempty
  undeclared := by
    rw [ofFiles_app, moduleName_scopeOf]
    rfl
  uncalled := by
    intro name d hget
    rw [ofFiles_app, Table.get?_cons] at hget
    split at hget
    next =>
      cases hget
      rw [moduleName_scopeOf]
      exact hcalls
    next => cases hget

theorem settled_app {e : Expr} (h : ∀ callee ∈ calls ⟨scopeOf [appOf e], [.expr e false]⟩,
      callee ∉ (ofFiles (crateOf [appOf e])).names) (name : String) :
    (ofFiles (crateOf [appOf e])).Settled depthLimit name := by
  refine .of_calls fun f hget callee hm hrouter => ?_
  rw [ofFiles_app, Table.get?_cons] at hget
  split at hget
  next =>
    cases hget
    exact absurd hrouter (h callee hm)
  next => cases hget

def rankOf (name : String) : Nat := if name = "crate::app" then 1 else 0

theorem rankOf_lt (name : String) : rankOf name < depthLimit := by
  by_cases hname : name = "crate::app" <;> simp [rankOf, hname, depthLimit]

theorem rankOf_lt_of_call {e operand : Expr}
    (happ : ∀ callee ∈ calls ⟨scopeOf [appOf e, subOf operand], [.expr e false]⟩,
        callee ∈ (ofFiles (crateOf [appOf e, subOf operand])).names → callee = "crate::sub")
    (hsub : ∀ callee ∈ calls ⟨scopeOf [appOf e, subOf operand], [.expr operand false]⟩,
        callee ∉ (ofFiles (crateOf [appOf e, subOf operand])).names) (name : String)
    (f : DeclaredFunction)
    (hget : (ofFiles (crateOf [appOf e, subOf operand])).functions.get? name = some f)
    (callee : String) (hm : callee ∈ calls f)
    (hrouter : callee ∈ (ofFiles (crateOf [appOf e, subOf operand])).names) :
    rankOf callee < rankOf name := by
  rw [ofFiles_app_sub, Table.get?_cons] at hget
  split at hget
  next hname =>
    cases hget
    obtain rfl := happ callee hm hrouter
    simp [rankOf, hname]
  next =>
    rw [Table.get?_cons] at hget
    split at hget
    next =>
      cases hget
      exact absurd hrouter (hsub callee hm)
    next => cases hget

theorem settled_app_sub {e operand : Expr}
    (happ : ∀ callee ∈ calls ⟨scopeOf [appOf e, subOf operand], [.expr e false]⟩,
      callee ∈ (ofFiles (crateOf [appOf e, subOf operand])).names → callee = "crate::sub")
    (hsub : ∀ callee ∈ calls ⟨scopeOf [appOf e, subOf operand], [.expr operand false]⟩,
      callee ∉ (ofFiles (crateOf [appOf e, subOf operand])).names)
    (name : String) : (ofFiles (crateOf [appOf e, subOf operand])).Settled depthLimit name :=
  .of_rank rankOf (rankOf_lt_of_call happ hsub) (rankOf_lt name)

def nesting (part : Expr) : Expr :=
  .method (routerOf "/a" "a") "nest" [] [.lit (.string "/b"), part]

/-- What is nested can be taken out, and so can all of a root. -/
theorem routes_of_parts :
    (ofFiles (crateOf [appOf (nesting (callOf "sub")), subOf (routerOf "/c" "c")])).routes.Perm
        (ofFiles (crateOf [appOf (nesting (routerOf "/c" "c"))])).routes ∧
      (ofFiles (crateOf [appOf (callOf "sub"), subOf (routerOf "/c" "c")])).routes.Perm
        (ofFiles (crateOf [appOf (routerOf "/c" "c")])).routes := by
  constructor
  · have hreplaces : Replaces (routerOf "/c" "c") (callOf "sub") []
        (.block ([] ++ [.expr (nesting (routerOf "/c" "c")) false]))
        (.block ([] ++ [.expr (nesting (callOf "sub")) false])) :=
      .ending rfl (.nested rfl (.here fun _ _ => List.not_mem_nil))
    have hrouter : isRouterBody [.expr (nesting (callOf "sub")) false] = true := by decide
    have hown : isRouterBody [.expr (routerOf "/c" "c") false] = true := by decide +kernel
    have hother : (scopeOf [appOf (nesting (routerOf "/c" "c"))]).moduleName ++ "::" ++ "app" ∉
        calls ⟨scopeOf [appOf (nesting (callOf "sub")), subOf (routerOf "/c" "c")],
          [.expr (routerOf "/c" "c") false]⟩ := by
      decide
    have hlimit : ∀ name,
        (ofFiles (crateOf [appOf (nesting (callOf "sub")), subOf (routerOf "/c" "c")])).Settled
          depthLimit name :=
      settled_app_sub (by rw [ofFiles_app_sub]; decide)
        (by rw [ofFiles_app_sub]; decide)
    refine (ofApp rfl hreplaces (by decide)).routes_unchanged ?_ fun root _ => hlimit root
    exact .inl ⟨hrouter, .inl ⟨hown, fun hm => absurd hm hother⟩⟩
  · have hreplaces : Replaces (routerOf "/c" "c") (callOf "sub") [] (.block
        ([] ++ [.expr (routerOf "/c" "c") false])) (.block ([] ++ [.expr (callOf "sub") false])) :=
      .ending rfl (.here fun _ _ => List.not_mem_nil)
    have hlimit :
        ∀ name, (ofFiles (crateOf [appOf (callOf "sub"), subOf (routerOf "/c" "c")])).Settled
          depthLimit name :=
      settled_app_sub (by rw [ofFiles_app_sub]; decide)
        (by rw [ofFiles_app_sub]; decide)
    have hroot : (scopeOf [appOf (routerOf "/c" "c")]).moduleName ++ "::" ++ "app" ∈
        (ofFiles (crateOf [appOf (routerOf "/c" "c")])).roots := by
      rw [ofFiles_app]
      decide +kernel
    have houtside : ∀ callee ∈ calls
        ⟨scopeOf [appOf (callOf "sub"), subOf (routerOf "/c" "c")], [.expr (callOf "sub") false]⟩,
        callee ∉ (ofFiles (crateOf [appOf (routerOf "/c" "c")])).names := by
      rw [ofFiles_app]
      decide +kernel
    have hinside : (scopeOf [appOf (routerOf "/c" "c")]).moduleName ++ "::" ++ "app" ∉
        calls ⟨scopeOf [appOf (callOf "sub"), subOf (routerOf "/c" "c")],
          [.expr (routerOf "/c" "c") false]⟩ := by
      decide
    have hregistered : isRouterBody [.expr (callOf "sub") false] = false := by decide
    refine (ofApp rfl hreplaces (by decide)).routes_unchanged ?_ fun root _ => hlimit root
    exact .inr ⟨hroot, hregistered, fun _ => chainOfBody_single _ rfl, houtside, hinside⟩

def layered (part : Expr) : Expr := .method part "layer" [] [.path (.ofIdent "Trace") []]

/-- A function whose only registration is taken out is no router function any more, and its layer is
lost. -/
theorem not_routes_of_layered_part :
    ¬ ∀ (files files' : List ParsedFile) (x : Extraction files files'),
      isRouterBody x.f.body = true →
        (∀ root ∈ (ofFiles files).roots, (ofFiles files).Settled depthLimit root) →
        (∀ root ∈ (ofFiles files').roots, (ofFiles files').Settled depthLimit root) →
        (ofFiles files').routes.Perm (ofFiles files).routes := by
  intro hall
  have hreplaces : Replaces (routerOf "/a" "a") (callOf "sub") []
      (.block ([] ++ [.expr (layered (routerOf "/a" "a")) false]))
      (.block ([] ++ [.expr (layered (callOf "sub")) false])) :=
    .ending rfl (.receiver (.here fun _ _ => List.not_mem_nil))
  have hrouter : isRouterBody [.expr (layered (routerOf "/a" "a")) false] = true := by
    decide
  have hlimit :=
    settled_app (e := layered (routerOf "/a" "a")) (by rw [ofFiles_app]; decide)
  have hlimit' : ∀ name,
      (ofFiles (crateOf [appOf (layered (callOf "sub")), subOf (routerOf "/a" "a")])).Settled
        depthLimit name :=
    settled_app_sub (by rw [ofFiles_app_sub]; decide)
      (by rw [ofFiles_app_sub]; decide)
  have hperm := hall _ _ (ofApp rfl hreplaces (by decide)) hrouter
    (fun root _ => hlimit root) fun root _ => hlimit' root
  rw [ofFiles_app, ofFiles_app_sub] at hperm
  exact absurd hperm (by decide)

end Extraction

end Routers

end ApiContract
