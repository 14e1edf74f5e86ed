import ApiContract.Capability
import ApiContract.Shape

namespace ApiContract

inductive ParameterKind where
  /-- A plain value. -/
  | native
  | validator
  | domainObject
  | other
deriving DecidableEq, Repr

structure Parameter where
  name : String
  kind : ParameterKind
  /-- Canonical name of the declared type, without what wraps it. -/
  type : Option String
deriving DecidableEq, Repr

structure Handler where
  name : String
  /-- First line of the description. -/
  summary : String := ""
  description : String := ""
  /-- Declared parameters, validators aside. -/
  parameters : List Parameter := []
  validator : Option String := none
  /-- One response for every place where the routine returns. -/
  responses : List Response := []

namespace Handler

def parameter? (handler : Handler) (name : String) : Option Parameter :=
  handler.parameters.find? fun p => p.name == name

structure Conventions where
  /-- Calls that respond with a body and a status. -/
  responders : List String := ["json"]
  /-- Calls on a domain object that yield a collection. -/
  collections : List String := ["all", "list", "paginate", "simple_paginate", "get_all", "collect"]
  /-- Calls on a domain object that yield a page of a collection. -/
  paginators : List String := ["paginate", "simple_paginate"]
  /-- Calls on a transformer that yield a collection. -/
  transformerCollections : List String := ["collection"]
  /-- Routine of a validator that returns its rules. -/
  rulesRoutine : String := "rules"
  /-- Field of a domain object that is its key in routes. -/
  keyField : String := "id"
  /-- Types that wrap the declared type of a parameter. -/
  extractors : List String :=
    ["Path", "Json", "Query", "Form", "State", "Extension", "Valid", "Validated"]
deriving DecidableEq, Repr

namespace Conventions

def equalFolded (a b : String) : Bool := Text.lowerAscii a == Text.lowerAscii b

/-- Case does not matter for responders. -/
def isResponder (c : Conventions) (name : String) : Bool := c.responders.any (equalFolded name)

def isCollection (c : Conventions) (name : String) : Bool := c.collections.contains name

def isPaginator (c : Conventions) (name : String) : Bool := c.paginators.contains name

def isTransformerCollection (c : Conventions) (name : String) : Bool :=
  c.transformerCollections.contains name

def isExtractor (c : Conventions) (name : String) : Bool := c.extractors.contains name

end Conventions

structure Context where
  scope : Scope
  capabilities : Classifier
  conventions : Conventions
  /-- The type that `Self` stands for. -/
  self : Option String

namespace Context

def resolve (c : Context) (name : String) : String :=
  match c.self, name.toList with
  | some self, 'S' :: 'e' :: 'l' :: 'f' :: rest =>
    match rest with
    | [] => self
    | ':' :: ':' :: _ => self ++ String.ofList rest
    | _ => c.scope.resolve name
  | _, _ => c.scope.resolve name

def has (c : Context) (type : String) (capability : Capability) : Bool :=
  c.capabilities.has type capability

def isClassified (c : Context) (type : String) : Bool := (c.capabilities.classify type).isSome

end Context

end Handler

/-- Shapes of local names; the latest one of a name comes first. -/
abbrev Environment := List (String × Shape)

namespace Environment

def bind (env : Environment) (name : String) (shape : Shape) : Environment := (name, shape) :: env

def lookup (env : Environment) (name : String) : Option Shape := List.lookup name env

@[simp] theorem lookup_bind_self (env : Environment) (name : String) (shape : Shape) :
    (env.bind name shape).lookup name = some shape := by
  simp [lookup, bind]

theorem lookup_bind_of_ne {env : Environment} {name other : String} {shape : Shape}
    (h : other ≠ name) : (env.bind name shape).lookup other = env.lookup other := by
  have h' : (other == name) = false := by simpa using h
  simp [lookup, bind, List.lookup_cons, h']

end Environment

end ApiContract
