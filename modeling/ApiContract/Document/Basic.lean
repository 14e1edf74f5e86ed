import ApiContract.Route.Verb
import ApiContract.Schema.Basic

namespace ApiContract

namespace Document

structure Info where
  version : String
  title : String
  description : String := ""
deriving DecidableEq, Repr

structure SecurityScheme where
  type : String
  name : String
  /-- Where a request carries the key. -/
  place : String
deriving DecidableEq, Repr

structure Parameter where
  name : String
  place : String
  required : Bool
  type : Option String := none
  description : Option String := none
  items : Option Schema := none
  collectionFormat : Option String := none
  /-- Schema of a body. -/
  schema : Option Schema := none

structure Response where
  description : String
  schema : Schema

structure Operation where
  summary : String := ""
  description : String := ""
  security : List (Table (List String))
  tags : List String := []
  id : String
  consumes : List String
  produces : List String
  parameters : List Parameter := []
  /-- Responses by their status. -/
  responses : Table Response
  middleware : List String := []

structure PathItem where
  get : Option Operation := none
  post : Option Operation := none
  put : Option Operation := none
  patch : Option Operation := none
  delete : Option Operation := none
  options : Option Operation := none
  head : Option Operation := none

namespace PathItem

def operation? (item : PathItem) : Verb → Option Operation
  | .get => item.get
  | .post => item.post
  | .put => item.put
  | .patch => item.patch
  | .delete => item.delete
  | .options => item.options
  | .head => item.head

def insert (item : PathItem) (verb : Verb) (operation : Operation) : PathItem :=
  match verb with
  | .get => { item with get := some operation }
  | .post => { item with post := some operation }
  | .put => { item with put := some operation }
  | .patch => { item with patch := some operation }
  | .delete => { item with delete := some operation }
  | .options => { item with options := some operation }
  | .head => { item with head := some operation }

theorem operation?_insert (item : PathItem) (verb other : Verb) (operation : Operation) :
    (item.insert verb operation).operation? other =
      if other = verb then some operation else item.operation? other := by
  cases verb <;> cases other <;> rfl

end PathItem

end Document

structure Document where
  /-- Version of the format. -/
  swagger : String
  info : Document.Info
  securityDefinitions : Table Document.SecurityScheme
  tags : List String := []
  paths : Table Document.PathItem
  definitions : Table Schema

end ApiContract
