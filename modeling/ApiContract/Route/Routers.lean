import ApiContract.Route.Chain
import ApiContract.Source.Traversal

namespace ApiContract

open Source

structure DeclaredFunction where
  scope : Scope
  body : List Stmt

structure Routers where
  functions : Table DeclaredFunction

namespace Routers

def functionsOf (scope : Scope) : List (String × DeclaredFunction) :=
  scope.items.filterMap fun
    | .function f => some (scope.moduleName ++ "::" ++ f.name, ⟨scope, f.body⟩)
    | _ => none

def ofScopes (scopes : List Scope) : Routers := ⟨Table.ofList (scopes.flatMap functionsOf)⟩

def ofFiles (files : List ParsedFile) : Routers := ofScopes (files.flatMap Scope.ofFile)

def nodes (body : List Stmt) : List Expr := nodesOfStmts (fun _ => true) body

def registers : Expr → Bool
  | .method _ name _ (path :: _) => (name = "route" || name = "nest") && (Route.textOf? path).isSome
  | _ => false

def isRouterBody (body : List Stmt) : Bool := (nodes body).any registers

def names (r : Routers) : List String :=
  Table.keys (r.functions.filter fun entry => isRouterBody entry.2.body)

def calls (f : DeclaredFunction) : List String :=
  (nodes f.body).filterMap fun
    | .call (.path path _) _ => some (f.scope.resolve path.text)
    | _ => none

def nested (r : Routers) : List String :=
  let routers := r.names
  r.functions.flatMap fun (name, f) =>
    if routers.contains name then
      (calls f).filter fun callee => callee ≠ name && routers.contains callee else []

def roots (r : Routers) : List String :=
  let inner := r.nested
  r.names.filter fun name => !inner.contains name

/-- The routes of a router function; `depth` bounds how far router functions call one another. -/
def routesWithin (r : Routers) (routers : List String) : Nat → String → List Route
  | 0, _ => []
  | depth + 1, name =>
    match r.functions.get? name with
    | none => []
    | some f =>
      Route.chainOfBody ⟨f.scope, routers.contains, routesWithin r routers depth⟩ [] none f.body

def depthLimit : Nat := 17

/-- The routes of the router functions that no other router function calls, by the names of these
functions. -/
def routes (r : Routers) : List Route :=
  let routers := r.names
  r.roots.flatMap (r.routesWithin routers depthLimit)

end Routers

end ApiContract
