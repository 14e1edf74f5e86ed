import ApiContract.Module.Scope
import ApiContract.Source.Meta

namespace ApiContract

open Source

inductive Capability where
  /-- Renders values into the payload of a response. -/
  | transformer
  /-- Carries the rules that describe the input of a request. -/
  | validator
  /-- A stored entity with a key. -/
  | domainObject
deriving DecidableEq, Repr

namespace Capability

def all : List Capability := [transformer, validator, domainObject]

/-- How capabilities are recognised: names of traits, and types that are listed. -/
structure Conventions where
  transformerMarkers : List String := ["Transformer", "JsonResource", "Resource"]
  validatorMarkers : List String := ["Validator", "FormRequest"]
  domainMarkers : List String := ["Model", "Entity"]
  transformers : List String := []
  validators : List String := []
  domainObjects : List String := []
deriving DecidableEq, Repr

def Conventions.markers (conventions : Conventions) : Capability → List String
  | transformer => conventions.transformerMarkers
  | validator => conventions.validatorMarkers
  | domainObject => conventions.domainMarkers

def Conventions.listed (conventions : Conventions) : Capability → List String
  | transformer => conventions.transformers
  | validator => conventions.validators
  | domainObject => conventions.domainObjects

def derives (attributes : List Attribute) : List String :=
  (Meta.lists "derive" attributes).flatMap fun tokens =>
    Meta.fold (fun path found => return found ++ (path.last?.map Segment.name).toList) [] tokens

/-- Types with the traits that an item says they have. -/
def marks (scope : Scope) : Item → List (String × String)
  | .implementation (some trait) (.path self) _ _ =>
    match trait.last? with
    | some marker => [(scope.resolve self.text, marker.name)]
    | none => []
  | .struct attributes name _ _ =>
    (derives attributes).map fun marker => (scope.resolve name, marker)
  | .enum attributes name _ => (derives attributes).map fun marker => (scope.resolve name, marker)
  | _ => []

end Capability

structure Classifier where
  has : String → Capability → Bool

def Classifier.classify (classifier : Classifier) (type : String) : Option Capability :=
  Capability.all.find? (classifier.has type)

structure CapabilityIndex where
  types : Capability → NameSet

namespace CapabilityIndex

def ofScopes (scopes : List Scope) (conventions : Capability.Conventions) : CapabilityIndex where
  types capability :=
    let marked := scopes.flatMap fun scope => scope.items.flatMap (Capability.marks scope)
    let found :=
      (marked.filter fun mark => (conventions.markers capability).contains mark.2).map Prod.fst
    NameSet.ofList (found ++ conventions.listed capability)

def build (files : List ParsedFile) (conventions : Capability.Conventions) : CapabilityIndex :=
  ofScopes (files.flatMap Scope.ofFile) conventions

/-- Whether a type has a capability. An entry that is a short name speaks of all types of that name,
and a short name asks about all of them. -/
def has (index : CapabilityIndex) (type : String) (capability : Capability) : Bool :=
  let names := index.types capability
  names.contains type ||
    names.any fun n =>
      (!Name.isQualified n && n == Name.short type) ||
        (!Name.isQualified type && Name.short n == Name.short type)

def classifier (index : CapabilityIndex) : Classifier := ⟨index.has⟩

instance : Coe CapabilityIndex Classifier := ⟨classifier⟩

def classify (index : CapabilityIndex) (type : String) : Option Capability :=
  index.classifier.classify type

end CapabilityIndex

end ApiContract
