import ApiContract.Example.Fixtures
import ApiContract.Example.Projection
import ApiContract.Schema.Basic
import ApiContract.Shape

namespace ApiContract

/-- Sources of example instances: the types that they know, and so many instances of a type. -/
class ExampleSource (F : Type) where
  names : F → List String
  instances : F → Bool → String → Nat → Except Failure (List Json)

instance : ExampleSource Fixtures := ⟨Fixtures.names, Fixtures.instances⟩

/-- Renderers show a batch through the transformer of a name. -/
class Renderer (R : Type) where
  render : R → String → Batch → Except Failure Json

instance : Renderer Transformers := ⟨Transformers.render⟩

structure Synthesizer (F : Type := Fixtures) (R : Type := Transformers) where
  fixtures : F
  transformers : R
  /-- Examples of types that are shown as they are. -/
  typeExamples : Table Json
  /-- Models, or examples, that transformers are shown with. -/
  transformerInputs : Table Json
  /-- Whether instances are shown as stored ones. -/
  stored : Bool

structure Definitions where
  table : Table Schema := []
  failures : List Failure := []

namespace Synthesizer

variable {F R : Type}

def typeSchema (s : Synthesizer F R) (type : String) (collection : Bool) : Schema :=
  let sample := (Name.lookup? s.typeExamples type).getD (.string type)
  if collection then .withExample "array" (.array [sample, sample])
    else .withExample "object" sample

inductive Input where
  | model (name : String)
  | value (value : Json)

/-- The longer of two short names wins, and the first of equal ones. -/
def longest : List String → Option String
  | [] => none
  | name :: rest =>
    match longest rest with
    | none => some name
    | some other =>
      if (Name.short name).utf8ByteSize < (Name.short other).utf8ByteSize then some other
      else some name

variable [ExampleSource F] (s : Synthesizer F R)

/-- The model whose short name is part of the transformer's. -/
def modelFor? (transformer : String) : Option String :=
  let inside := (Name.short transformer).toList
  longest ((ExampleSource.names s.fixtures).filter fun name =>
    Text.contains (Name.short name).toList inside)

def sourceInput? : Shape → Option Input
  | .raw type _ _ => some (.model type)
  | .literal value => some (.value value)
  | _ => none

/-- A configured input comes first, then the model that the name tells, then the source. -/
def input? (transformer : String) (source : Shape) : Option Input :=
  match Name.lookup? s.transformerInputs transformer with
  | some (.string model) => some (.model model)
  | some value => some (.value value)
  | none =>
    match s.modelFor? transformer with
    | some model => some (.model model)
    | none => sourceInput? source

def itemCount (collection : Bool) : Nat := if collection then 2 else 1

def batch? (transformer : String) (collection paginated : Bool) (source : Shape) :
    Except Failure Batch :=
  match s.input? transformer source with
  | some (.model model) =>
    (ExampleSource.instances s.fixtures s.stored model (itemCount collection)).map fun items =>
      ⟨items, some model, collection, paginated⟩
  | some (.value value) =>
    .ok ⟨List.replicate (itemCount collection) value, none, collection, paginated⟩
  | none => .error (.exampleUnavailable transformer "no input to build the resource from")

variable [Renderer R]

def transformerSchema (transformer : String) (collection paginated : Bool) (source : Shape) :
    Except Failure Schema := do
  let batch ← s.batch? transformer collection paginated source
  let body ← Renderer.render s.transformers transformer batch
  return .withExample "object" body

/-- Adds a definition unless there is one. A failure leaves a placeholder. -/
def define (key placeholder : String) (schema : Except Failure Schema) (ds : Definitions) :
    Definitions :=
  if ds.table.contains key then ds
  else
    match schema with
    | .ok schema => { ds with table := ds.table.insert key schema }
    | .error f =>
      { table := ds.table.insert key (.withExample "object" (.string placeholder))
        failures := ds.failures ++ [f] }

def build (shape : Option Shape) (ds : Definitions) : Schema × Definitions :=
  match shape with
  | none => (.emptyObject, ds)
  | some .unresolved => (.emptyObject, ds)
  | some (.literal value) => (.withExample (Schema.typeOf value) value, ds)
  | some (.raw type collection _) =>
    let key := Schema.key type collection
    (.toDefinition key, define key type (.ok (s.typeSchema type collection)) ds)
  | some (.wrapped transformer collection paginated source) =>
    let key := Schema.key transformer collection
    (.toDefinition key,
      define key transformer (s.transformerSchema transformer collection paginated source) ds)

end Synthesizer

end ApiContract
