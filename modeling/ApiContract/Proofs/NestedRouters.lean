import ApiContract.Proofs.Extraction
import ApiContract.Proofs.NestedUris

namespace ApiContract

open Text

namespace Uri

theorem normalize_eq_of_strip {uri other : String}
    (h : strip isSlash uri.toList = strip isSlash other.toList) :
    normalize uri = normalize other := by
  rw [normalize, normalize, normalizeChars, normalizeChars, h]

theorem normalize_combine_combine (outer inner path : String) :
    normalize (combine outer (combine inner path)) =
      normalize (combine (combine outer inner) path) := by
  apply normalize_eq_of_strip
  rw [strip_combine, strip_combine, strip_combine, strip_combine, below_assoc]

end Uri

namespace Route

open Source

def tidied (route : Route) : Route := { route with uri := Uri.normalize route.uri }

/-- The tag of a route below a part of a path. -/
def tagBelow (part : List Char) (tag : Option String) : Option String :=
  if part = [] then tag
  else some (String.ofList (part ++ (tag.map fun inner => '/' :: inner.toList).getD []))

theorem tag_nestUnder (start : String) (route : Route) :
    (nestUnder start route).tag = tagBelow (strip Uri.isSlash start.toList) route.tag := by
  rw [nestUnder, tagBelow, stripped]
  dsimp only
  have hempty : (String.ofList (strip Uri.isSlash start.toList)).isEmpty = true ↔
      strip Uri.isSlash start.toList = [] := by
    rw [String.isEmpty_iff, ← String.toList_inj, String.toList_ofList, String.toList_empty]
  simp only [hempty]
  cases route.tag <;> simp [String.append_assoc]

theorem tagBelow_below (outer inner : List Char) (tag : Option String) :
    tagBelow (Uri.below outer inner) tag = tagBelow outer (tagBelow inner tag) := by
  by_cases houter : outer = []
  · simp [Uri.below, tagBelow, houter]
  by_cases hinner : inner = [] <;> simp [Uri.below, tagBelow, houter, hinner]

theorem tidied_nestUnder (outer inner : String) (route : Route) :
    (nestUnder outer (nestUnder inner route)).tidied =
      (nestUnder (Uri.combine outer inner) route).tidied := by
  have htag : (nestUnder outer (nestUnder inner route)).tag =
      (nestUnder (Uri.combine outer inner) route).tag := by
    rw [tag_nestUnder, tag_nestUnder, tag_nestUnder, Uri.strip_combine, tagBelow_below]
  have huri : Uri.normalize (nestUnder outer (nestUnder inner route)).uri =
      Uri.normalize (nestUnder (Uri.combine outer inner) route).uri :=
    Uri.normalize_combine_combine outer inner route.uri
  rw [tidied, tidied, htag, huri]
  rfl

def nestedIn (receiver : Expr) (start : String) (router : Expr) : Expr :=
  .method receiver "nest" [] [.lit (.string start), router]

def newRouter : Expr := .call (.path (.mk false [.mk "Router" .none, .mk "new" .none]) []) []

theorem chain_nestedIn (c : ChainContext) (bindings : Bindings) (receiver : Expr) (start : String)
    (router : Expr) : chain c bindings (nestedIn receiver start router) =
    chain c bindings receiver ++ (chain c bindings router).map (nestUnder start) :=
  rfl

theorem chain_newRouter {c : ChainContext}
    (hnew : c.isRouter (c.scope.resolve "Router::new") = false) (bindings : Bindings) :
    chain c bindings newRouter = [] := by
  have htext :
      (Source.Path.mk false [.mk "Router" .none, .mk "new" .none]).text = "Router::new" := by
    decide
  rw [newRouter, chain, htext]
  simp only [hnew]
  rfl

/-- Nesting a router below one path, and that below another, gives the routes of nesting it below
both paths together: as many and in the same order, each with the same methods, handler, tag and
layers, and with the same path up to its normal form. -/
theorem chain_nestedIn_nestedIn {c : ChainContext}
    (hnew : c.isRouter (c.scope.resolve "Router::new") = false) (bindings : Bindings)
    (receiver router : Expr) (outer inner : String) :
    (chain c bindings (nestedIn receiver outer (nestedIn newRouter inner router))).map tidied =
        (chain c bindings (nestedIn receiver (Uri.combine outer inner) router)).map tidied ∧
      ∀ outer inner path : String, Uri.normalize (Uri.combine outer (Uri.combine inner path)) =
        Uri.normalize (Uri.combine (Uri.combine outer inner) path) := by
  refine ⟨?_, Uri.normalize_combine_combine⟩
  have hroutes :
      (tidied ∘ nestUnder outer) ∘ nestUnder inner = tidied ∘ nestUnder (Uri.combine outer inner) :=
    funext (tidied_nestUnder outer inner)
  rw [chain_nestedIn, chain_nestedIn, chain_newRouter hnew, List.nil_append, chain_nestedIn,
    List.map_append, List.map_append, List.map_map, List.map_map, List.map_map, ← hroutes]

open Routers.Extraction

def serving : Routers := .ofFiles (crateOf [appOf (callOf "sub"), subOf (routerOf "/c" "c")])

def servingContext : ChainContext :=
  ⟨scopeOf [appOf (callOf "sub"), subOf (routerOf "/c" "c")], serving.names.contains,
    serving.routesWithin serving.names Routers.depthLimit⟩

theorem chain_nestedIn_sub : (chain servingContext []
      (nestedIn (routerOf "/a" "a") "api//" (nestedIn newRouter "/v1" (callOf "sub")))).map tidied =
    [{ uri := "/a", methods := ["GET"], handler := some ⟨"crate", "a"⟩ },
      { uri := "/api/v1/c", methods := ["GET"], handler := some ⟨"crate", "c"⟩,
        tag := some "api/v1" }] := by
  have hnew : servingContext.isRouter (servingContext.scope.resolve "Router::new") = false := by
    rw [servingContext, serving, ofFiles_app_sub]
    decide
  rw [(chain_nestedIn_nestedIn hnew [] (routerOf "/a" "a") (callOf "sub") "api//" "/v1").1]
  rw [servingContext, serving, ofFiles_app_sub]
  decide +kernel

end Route

end ApiContract
