import ApiContract.Decimal.Nearest
import ApiContract.Handler.Basic
import ApiContract.Handler.Peel
import ApiContract.Json.Printer

namespace ApiContract

namespace Source.Literal

def value? : Literal → Option Json
  | string s => some (.string s)
  | char c => some (.string (String.ofList [c]))
  | bool b => some (.bool b)
  | integer n _ => if n < Nat.pow 2 64 then some (.number (.int n)) else none
  | fraction digits exponent _ => (Decimal.nearest? digits exponent).map fun x => .number (.float x)
  | opaqueText => none

end Source.Literal

namespace Handler

open Source

/-- An integer of the signed range stays an integer. -/
def negate : Json → Option Json
  | .number n =>
    match n.toSigned? with
    | some i => some (.number (.int (-i)))
    | none => some (.number (.float (-n.toFloat)))
  | _ => none

def keyOf : Json → String
  | .string s => s
  | other => other.compact

def mapTypes : List String := ["HashMap", "BTreeMap", "IndexMap", "Map"]

def fromOwner? (callee : Expr) : Option String :=
  match callee with
  | .path path _ =>
    match path.names.reverse with
    | "from" :: owner :: _ => some owner
    | _ => none
  | _ => none

def valueMethods : List String := ["to_string", "to_owned", "into"]

def localValue? (env : Environment) (name : String) : Option Json :=
  if name = "None" then some .null
  else
    match env.lookup name with
    | some (.literal value) => some value
    | _ => none

mutual

/-- The value of an expression, if it has one. A record of a classified type has none. -/
def value? (c : Context) (env : Environment) : Expr → Option Json
  | .lit l => l.value?
  | .paren e => value? c env e
  | .reference e => value? c env e
  | .negate e => (value? c env e).bind negate
  | .path path _ => path.ident?.bind (localValue? env)
  | .tuple [] => some .null
  | .tuple (e :: rest) => some (.array (values c env (e :: rest)))
  | .array elements => some (.array (values c env elements))
  | .vec elements => some (.array (values c env elements))
  | .json template => templateValue? c env template
  | .record path _ fields _ =>
    if c.isClassified (c.resolve path.text) then none
    else some (.object (Members.ofList (fieldValues c env fields)))
  | .call callee [arg] =>
    match fromOwner? callee with
    | some owner =>
      if owner = "String" then value? c env arg
      else if mapTypes.contains owner then (entriesIn c env arg).map fun es =>
        .object (Members.ofList es)
      else none
    | none => none
  | .method receiver name _ [] => if valueMethods.contains name then value? c env receiver else none
  | _ => none

def values (c : Context) (env : Environment) : List Expr → List Json
  | [] => []
  | e :: rest => (value? c env e).toList ++ values c env rest

def fieldValues (c : Context) (env : Environment) : List FieldInit → List (String × Json)
  | [] => []
  | .mk (some name) e :: rest =>
    ((value? c env e).map fun v => (name, v)).toList ++ fieldValues c env rest
  | .mk none _ :: rest => fieldValues c env rest

def entriesIn (c : Context) (env : Environment) : Expr → Option (List (String × Json))
  | .array entries => some (pairValues c env entries)
  | _ => none

def pairValues (c : Context) (env : Environment) : List Expr → List (String × Json)
  | [] => []
  | e :: rest => (pairValue? c env e).toList ++ pairValues c env rest

def pairValue? (c : Context) (env : Environment) : Expr → Option (String × Json)
  | .tuple [k, v] =>
    match value? c env k, value? c env v with
    | some k, some v => some (keyOf k, v)
    | _, _ => none
  | _ => none

def templateValue? (c : Context) (env : Environment) : Template → Option Json
  | .null => some .null
  | .value e => value? c env e
  | .array items => some (.array (templateValues c env items))
  | .object entries => some (.object (Members.ofList (templateEntries c env entries)))

def templateValues (c : Context) (env : Environment) : List Template → List Json
  | [] => []
  | t :: rest => (templateValue? c env t).toList ++ templateValues c env rest

def templateEntries (c : Context) (env : Environment) : List TemplateEntry → List (String × Json)
  | [] => []
  | .mk key value :: rest =>
    (match templateKey? c env key, templateValue? c env value with
      | some k, some v => [(k, v)]
      | _, _ => []) ++ templateEntries c env rest

def templateKey? (c : Context) (env : Environment) : TemplateKey → Option String
  | .text name => some name
  | .value e => (value? c env e).map keyOf

end

end Handler

end ApiContract
