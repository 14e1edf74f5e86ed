import ApiContract.Route.Verb
import ApiContract.Source.Tree

namespace ApiContract.Route

open Source

def textOf? : Expr → Option String
  | .lit (.string s) => some s
  | _ => none

def startsWith (start text : String) : Bool := start.toList.isPrefixOf text.toList

def givenType? (segment : Segment) : Option String :=
  match segment.arguments with
  | .angled (.type (.path path) :: _) => path.last?.map Segment.name
  | _ => none

def lastName? : Expr → Option String
  | .path path _ => path.last?.map Segment.name
  | _ => none

/-- Name of the layer that a call makes: the function that `from_fn` is given, the type that an
extractor is made of, or else the type whose function is called. -/
def calledLayer (path : Path) (args : List Expr) : String :=
  match path.segments.reverse with
  | [] => "layer"
  | last :: before =>
    if startsWith "from_fn" last.name || startsWith "from_extractor" last.name then
      ((givenType? last).or (args.reverse.findSome? lastName?)).getD last.name
    else
      match before with
      | [] => last.name
      | owner :: _ => owner.name

def layerName : Expr → String
  | .call (.path path _) args => calledLayer path args
  | .method receiver _ _ _ => layerName receiver
  | .path path _ => (path.last?.map Segment.name).getD "layer"
  | .paren e => layerName e
  | _ => "layer"

def isLayerMethod (name : String) : Bool := name = "layer" || name = "route_layer"

def verbHandlers : Expr → List (Verb × Expr)
  | .call (.path path _) (handler :: _) =>
    (((path.last?.map Segment.name).bind Verb.parse?).map fun verb => (verb, handler)).toList
  | .method receiver name _ args =>
    verbHandlers receiver ++
      (match Verb.parse? name, args with
        | some verb, handler :: _ => [(verb, handler)]
        | _, _ => [])
  | .paren e => verbHandlers e
  | _ => []

def verbLayers : Expr → List String
  | .method receiver name _ args =>
    verbLayers receiver ++
      (match args with
        | layer :: _ => if isLayerMethod name then [layerName layer] else []
        | [] => [])
  | .paren e => verbLayers e
  | _ => []

end ApiContract.Route
