import ApiContract.Module.Scope
import ApiContract.Route.Argument
import ApiContract.Route.Basic
import ApiContract.Route.Uri

namespace ApiContract.Route

open Source

structure ChainContext where
  scope : Scope
  isRouter : String → Bool
  called : String → List Route

abbrev Bindings := List (String × List Route)

def handlerOf? (scope : Scope) : Expr → Option HandlerId
  | .path path _ => HandlerId.parse? (scope.resolve path.text)
  | .paren e => handlerOf? scope e
  | .reference e => handlerOf? scope e
  | _ => none

def registered (scope : Scope) : List Expr → List Route
  | path :: handlers :: _ =>
    match textOf? path with
    | some uri =>
      (verbHandlers handlers).map fun (verb, handler) =>
        { uri, methods := [verb.text], handler := handlerOf? scope handler,
          middleware := verbLayers handlers }
    | none => []
  | _ => []

/-- A route below a path, which also becomes the first part of its tag. -/
def nestUnder (start : String) (route : Route) : Route :=
  let part := Text.stripped Uri.isSlash start
  { route with
    uri := Uri.combine start route.uri
    tag :=
      if part.isEmpty then route.tag
      else
        match route.tag with
        | some inner => some (part ++ "/" ++ inner)
        | none => some part }

def addLayer (name : String) (route : Route) : Route :=
  { route with middleware := route.middleware ++ [name] }

def boundName? : Pattern → Option String
  | .name ident => some ident
  | .typed pattern _ => boundName? pattern
  | _ => none

def assignedName? : Expr → Option String
  | .path path _ => path.ident?
  | _ => none

mutual

/-- The routes of a router expression. -/
def chain (c : ChainContext) (bindings : Bindings) : Expr → List Route
  | .method receiver name _ args =>
    let before := chain c bindings receiver
    if name = "route" then before ++ registered c.scope args
    else if name = "nest" then
      match args.head?.bind textOf? with
      | some start => before ++ (chainOfSecond c bindings args).map (nestUnder start)
      | none => before
    else if name = "merge" then before ++ chainOfFirst c bindings args
    else if isLayerMethod name then
      match args.head? with
      | some layer => before.map (addLayer (layerName layer))
      | none => before
    else if before.isEmpty then firstChain c bindings args
    else before
  | .call (.path path _) args =>
    let callee := c.scope.resolve path.text
    if c.isRouter callee then c.called callee else firstChain c bindings args
  | .call _ args => firstChain c bindings args
  | .path path _ => (path.ident?.bind fun name => List.lookup name bindings).getD []
  | .block body => chainOfBody c bindings none body
  | .paren e => chain c bindings e
  | .await e => chain c bindings e
  | .attempt e => chain c bindings e
  | .reference e => chain c bindings e
  | .ret (some e) => chain c bindings e
  | _ => []

def firstChain (c : ChainContext) (bindings : Bindings) : List Expr → List Route
  | [] => []
  | e :: rest =>
    let found := chain c bindings e
    if found.isEmpty then firstChain c bindings rest else found

def chainOfFirst (c : ChainContext) (bindings : Bindings) : List Expr → List Route
  | [] => []
  | e :: _ => chain c bindings e

def chainOfSecond (c : ChainContext) (bindings : Bindings) : List Expr → List Route
  | [] => []
  | _ :: rest => chainOfFirst c bindings rest

/-- The routes of a body: what it returns, what its last expression has, or else what the last local
name has that was given routes. -/
def chainOfBody (c : ChainContext) (bindings : Bindings) (last : Option String) :
    List Stmt → List Route
  | [] => (last.bind fun name => List.lookup name bindings).getD []
  | .bind pattern _ (some value) _ :: rest =>
    match boundName? pattern with
    | some name =>
      let found := chain c bindings value
      chainOfBody c ((name, found) :: bindings) (if found.isEmpty then last else some name) rest
    | none => chainOfBody c bindings last rest
  | .expr (.assign left right) _ :: rest =>
    match assignedName? left with
    | some name =>
      let found := chain c bindings right
      chainOfBody c ((name, found) :: bindings) (if found.isEmpty then last else some name) rest
    | none => chainOfBody c bindings last rest
  | .expr (.ret none) _ :: _ => []
  | .expr (.ret (some e)) _ :: _ => chain c bindings e
  | .expr e closed :: rest =>
    if rest.isEmpty && !closed then
      let found := chain c bindings e
      if found.isEmpty then chainOfBody c bindings last rest else found
    else chainOfBody c bindings last rest
  | _ :: rest => chainOfBody c bindings last rest

end

end ApiContract.Route
