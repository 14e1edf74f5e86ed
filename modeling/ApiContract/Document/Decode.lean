import ApiContract.Datum.Record
import ApiContract.Document.Basic

namespace ApiContract

namespace Schema

def fields : List String :=
  ["type", "properties", "required", "items", "description", "example", "$ref"]

def ofDatum? (d : Datum) : Option Schema :=
  match hr : d.record? fields with
  | none => none
  | some r => do
    let properties ← r.part? "properties" fun p hp =>
      have := Datum.sizeOf_lt_of_record? hp d hr
      p.pairsWithin? fun x hx => have := Nat.lt_trans hx this; ofDatum? x
    let items ← r.part? "items" fun x hx => have := Datum.sizeOf_lt_of_record? hx d hr; ofDatum? x
    return {
      type := ← r.optional? "type" Datum.text?
      properties := properties.map Table.ofList
      required := ← r.optional? "required" (Datum.listOf? Datum.text?)
      items
      description := ← r.optional? "description" Datum.text?
      sample := ← r.optional? "example" Datum.value?
      reference := ← r.optional? "$ref" Datum.text? }
termination_by sizeOf d

end Schema

namespace Document

def Info.ofDatum? (d : Datum) : Option Info := do
  let r ← d.record? ["version", "title", "description"]
  return {
    version := ← r.required? "version" Datum.text?
    title := ← r.required? "title" Datum.text?
    description := ← r.field? "description" "" Datum.text? }

def SecurityScheme.ofDatum? (d : Datum) : Option SecurityScheme := do
  let r ← d.record? ["type", "name", "in"]
  return {
    type := ← r.required? "type" Datum.text?
    name := ← r.required? "name" Datum.text?
    place := ← r.required? "in" Datum.text? }

def tagOfDatum? (d : Datum) : Option String := do
  (← d.record? ["name"]).required? "name" Datum.text?

def Parameter.fields : List String :=
  ["name", "in", "required", "type", "description", "items", "collectionFormat", "schema"]

def Parameter.ofDatum? (d : Datum) : Option Parameter := do
  let r ← d.record? fields
  return {
    name := ← r.required? "name" Datum.text?
    place := ← r.required? "in" Datum.text?
    required := ← r.required? "required" Datum.truth?
    type := ← r.optional? "type" Datum.text?
    description := ← r.optional? "description" Datum.text?
    items := ← r.optional? "items" Schema.ofDatum?
    collectionFormat := ← r.optional? "collectionFormat" Datum.text?
    schema := ← r.optional? "schema" Schema.ofDatum? }

def Response.ofDatum? (d : Datum) : Option Response := do
  let r ← d.record? ["description", "schema"]
  return {
    description := ← r.required? "description" Datum.text?
    schema := ← r.required? "schema" Schema.ofDatum? }

def Operation.fields : List String :=
  ["summary", "description", "security", "tags", "operationId", "consumes", "produces",
    "parameters", "responses", "x-middleware"]

def Operation.ofDatum? (d : Datum) : Option Operation := do
  let r ← d.record? fields
  let texts := Datum.listOf? Datum.text?
  return {
    summary := ← r.field? "summary" "" Datum.text?
    description := ← r.field? "description" "" Datum.text?
    security := ← r.required? "security" (Datum.listOf? (Datum.tableOf? texts))
    tags := ← r.field? "tags" [] texts
    id := ← r.required? "operationId" Datum.text?
    consumes := ← r.required? "consumes" texts
    produces := ← r.required? "produces" texts
    parameters := ← r.field? "parameters" [] (Datum.listOf? Parameter.ofDatum?)
    responses := ← r.required? "responses" (Datum.tableOf? Response.ofDatum?)
    middleware := ← r.field? "x-middleware" [] texts }

def PathItem.fields : List String := ["get", "post", "put", "patch", "delete", "options", "head"]

def PathItem.ofDatum? (d : Datum) : Option PathItem := do
  let r ← d.record? fields
  return {
    get := ← r.optional? "get" Operation.ofDatum?
    post := ← r.optional? "post" Operation.ofDatum?
    put := ← r.optional? "put" Operation.ofDatum?
    patch := ← r.optional? "patch" Operation.ofDatum?
    delete := ← r.optional? "delete" Operation.ofDatum?
    options := ← r.optional? "options" Operation.ofDatum?
    head := ← r.optional? "head" Operation.ofDatum? }

def fields : List String :=
  ["swagger", "info", "securityDefinitions", "tags", "paths", "definitions"]

def ofDatum? (d : Datum) : Option Document := do
  let r ← d.record? fields
  return {
    swagger := ← r.required? "swagger" Datum.text?
    info := ← r.required? "info" Info.ofDatum?
    securityDefinitions := ← r.required? "securityDefinitions"
      (Datum.tableOf? SecurityScheme.ofDatum?)
    tags := ← r.field? "tags" [] (Datum.listOf? tagOfDatum?)
    paths := ← r.required? "paths" (Datum.tableOf? PathItem.ofDatum?)
    definitions := ← r.required? "definitions" (Datum.tableOf? Schema.ofDatum?) }

end Document

end ApiContract
