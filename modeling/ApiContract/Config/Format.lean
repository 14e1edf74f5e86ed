import ApiContract.Config.Basic

namespace ApiContract

namespace Fixture

def ofDatum? (d : Datum) : Option Fixture := do
  let r ← d.record? ["attributes", "states"]
  return {
    attributes := ← r.field? "attributes" [] Datum.members?
    variants := ← r.field? "states" [] (Datum.tableOf? Datum.members?) }

def toJson (f : Fixture) : Json :=
  .object [("attributes", .object f.attributes), ("states", Json.ofTable .object f.variants)]

end Fixture

namespace Capability.Conventions

def fields : List String :=
  ["transformer_markers", "validator_markers", "domain_markers", "transformers", "validators",
    "domain_objects"]

def ofDatum? (d : Datum) : Option Conventions := do
  let standard : Conventions := {}
  let r ← d.record? fields
  let texts := Datum.listOf? Datum.text?
  return {
    transformerMarkers := ← r.field? "transformer_markers" standard.transformerMarkers texts
    validatorMarkers := ← r.field? "validator_markers" standard.validatorMarkers texts
    domainMarkers := ← r.field? "domain_markers" standard.domainMarkers texts
    transformers := ← r.field? "transformers" standard.transformers texts
    validators := ← r.field? "validators" standard.validators texts
    domainObjects := ← r.field? "domain_objects" standard.domainObjects texts }

def toJson (c : Conventions) : Json :=
  .object [("transformer_markers", Json.ofTexts c.transformerMarkers),
    ("validator_markers", Json.ofTexts c.validatorMarkers),
    ("domain_markers", Json.ofTexts c.domainMarkers), ("transformers", Json.ofTexts c.transformers),
    ("validators", Json.ofTexts c.validators), ("domain_objects", Json.ofTexts c.domainObjects)]

end Capability.Conventions

namespace Handler.Conventions

def fields : List String :=
  ["responder_methods", "collection_methods", "paginate_methods", "transformer_collection_methods",
    "rules_method", "route_key_field", "extractor_wrappers"]

def ofDatum? (d : Datum) : Option Conventions := do
  let standard : Conventions := {}
  let r ← d.record? fields
  let texts := Datum.listOf? Datum.text?
  return {
    responders := ← r.field? "responder_methods" standard.responders texts
    collections := ← r.field? "collection_methods" standard.collections texts
    paginators := ← r.field? "paginate_methods" standard.paginators texts
    transformerCollections :=
      ← r.field? "transformer_collection_methods" standard.transformerCollections texts
    rulesRoutine := ← r.field? "rules_method" standard.rulesRoutine Datum.text?
    keyField := ← r.field? "route_key_field" standard.keyField Datum.text?
    extractors := ← r.field? "extractor_wrappers" standard.extractors texts }

def toJson (c : Conventions) : Json :=
  .object [("responder_methods", Json.ofTexts c.responders),
    ("collection_methods", Json.ofTexts c.collections),
    ("paginate_methods", Json.ofTexts c.paginators),
    ("transformer_collection_methods", Json.ofTexts c.transformerCollections),
    ("rules_method", .string c.rulesRoutine), ("route_key_field", .string c.keyField),
    ("extractor_wrappers", Json.ofTexts c.extractors)]

end Handler.Conventions

namespace Config

def fields : List String :=
  ["title", "version", "description", "source_dir", "output", "create_factories", "factory_state",
    "resource_wrap", "class_maps", "resource_maps", "endpoint_maps", "factories", "capabilities",
    "analysis", "ignore_uris", "ignore_methods", "routes"]

/-- Parts that are left out have their defaults; parts that are not known are ignored. -/
def ofDatum? (d : Datum) : Option Config := do
  let standard : Config := {}
  let r ← d.record? fields
  let text := Datum.text?
  let optionalText := Datum.optional? Datum.text?
  let texts := Datum.listOf? Datum.text?
  let values := Datum.tableOf? Datum.value?
  return {
    title := ← r.field? "title" standard.title text
    version := ← r.field? "version" standard.version optionalText
    description := ← r.field? "description" standard.description text
    sourceDir := ← r.field? "source_dir" standard.sourceDir text
    output := ← r.field? "output" standard.output optionalText
    stored := ← r.field? "create_factories" standard.stored Datum.truth?
    variant := ← r.field? "factory_state" standard.variant text
    wrap := ← r.field? "resource_wrap" standard.wrap optionalText
    typeExamples := ← r.field? "class_maps" standard.typeExamples values
    transformerInputs := ← r.field? "resource_maps" standard.transformerInputs values
    overrides := ← r.field? "endpoint_maps" standard.overrides (Datum.tableOf? Override.ofDatum?)
    fixtures := ← r.field? "factories" standard.fixtures (Datum.tableOf? Fixture.ofDatum?)
    capabilities := ← r.field? "capabilities" standard.capabilities Capability.Conventions.ofDatum?
    handlers := ← r.field? "analysis" standard.handlers Handler.Conventions.ofDatum?
    ignoredUris := ← r.field? "ignore_uris" standard.ignoredUris texts
    ignoredMethods := ← r.field? "ignore_methods" standard.ignoredMethods texts
    routes := ← r.field? "routes" standard.routes (Datum.listOf? ManifestEntry.ofDatum?) }

def toJson (c : Config) : Json :=
  .object [("title", .string c.title), ("version", Json.ofOption .string c.version),
    ("description", .string c.description), ("source_dir", .string c.sourceDir),
    ("output", Json.ofOption .string c.output), ("create_factories", .bool c.stored),
    ("factory_state", .string c.variant), ("resource_wrap", Json.ofOption .string c.wrap),
    ("class_maps", .object c.typeExamples), ("resource_maps", .object c.transformerInputs),
    ("endpoint_maps", Json.ofTable Override.toJson c.overrides),
    ("factories", Json.ofTable Fixture.toJson c.fixtures), ("capabilities", c.capabilities.toJson),
    ("analysis", c.handlers.toJson), ("ignore_uris", Json.ofTexts c.ignoredUris),
    ("ignore_methods", Json.ofTexts c.ignoredMethods),
    ("routes", Json.ofList ManifestEntry.toJson c.routes)]

end Config

end ApiContract
