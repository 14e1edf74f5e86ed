import ApiContract.Config.Format
import ApiContract.Proofs.SettledDefinitions

namespace ApiContract

open Datum

namespace Record

theorem field?_cons {α : Type} (entry : String × Json) (rest : Members) (name : String) (absent : α)
    (read : Datum → Option α) : (ofMembers (entry :: rest)).field? name absent read =
      if name = entry.1 then read (ofJson entry.2)
      else (ofMembers rest).field? name absent read := by
  by_cases h : name = entry.1 <;> simp [field?, get?_ofMembers, h]

theorem field?_read {α β : Type} {members : Members} {name : String} {value : Json} {absent x : α}
    {read : Datum → Option α} {next : α → Option β} {y : β} (h : members.get? name = some value)
    (hread : read (ofJson value) = some x) (hnext : next x = some y) :
    ((ofMembers members).field? name absent read).bind next = some y := by
  rw [field?_given h, hread, Option.bind_some, hnext]

end Record

namespace Datum

theorem optional?_ofOption {α : Type} {encode : α → Json} {read : Datum → Option α} {x : Option α}
    (h :
      ∀ y, x = some y → (ofJson (encode y)).missing = false ∧ read (ofJson (encode y)) = some y) :
    optional? read (ofJson (Json.ofOption encode x)) = some x := by
  cases x with
  | none => rfl
  | some y =>
    obtain ⟨hmissing, hread⟩ := h y rfl
    rw [Json.ofOption, optional?, hmissing, hread]
    rfl

theorem optional?_ofText (x : Option String) :
    optional? text? (ofJson (Json.ofOption .string x)) = some x :=
  optional?_ofOption fun _ _ => ⟨rfl, rfl⟩

theorem text?_ofJson (text : String) : text? (ofJson (.string text)) = some text := rfl

theorem truth?_ofJson (truth : Bool) : truth? (ofJson (.bool truth)) = some truth := rfl

theorem value?_settled {value : Json} (h : value.Settled) : (ofJson value).value? = some value := by
  rw [value?_ofJson, h]

theorem pairsOf?_value? {members : Members} (h : ∀ entry ∈ members, entry.2.Settled) :
    pairsOf? value? (ofJson (.object members)) = some members := by
  have hread : ∀ entry ∈ members, value? (ofJson (id entry.2)) = some (id entry.2) :=
    fun entry hm => value?_settled (h entry hm)
  have hpairs := pairsOf?_ofTable hread
  rw [Json.ofTable] at hpairs
  simpa using hpairs

theorem tableOf?_value? {table : Table Json} (hsorted : table.Sorted)
    (h : ∀ entry ∈ table, entry.2.Settled) :
    tableOf? value? (ofJson (.object table)) = some table := by
  rw [tableOf?, pairsOf?_value? h, Option.map_some, Table.ofList_of_sorted hsorted]

theorem members?_ofJson {members : Members} (h : members.Settled) :
    (ofJson (.object members)).members? = some members := by
  obtain ⟨hnames, hvalues⟩ := (Members.settled_iff members).mp h
  rw [members?, pairsOf?_value? hvalues, Option.map_some, Members.ofList_of_nodup hnames]

end Datum

theorem Members.settled_of_members? {d : Datum} {members : Members}
    (h : d.members? = some members) : members.Settled := by
  obtain ⟨pairs, hpairs, rfl⟩ := Option.map_eq_some_iff.mp h
  refine Json.settled_ofList fun entry hentry => ?_
  obtain ⟨x, -, hvalue⟩ := Datum.exists_part_of_pairsOf? hpairs entry hentry
  exact Datum.settled_of_value? hvalue

/-- What the tables of a fixture hold: each name once, of a variant as well. -/
structure Fixture.Settled (f : Fixture) : Prop where
  attributes : f.attributes.Settled
  sorted : f.variants.Sorted
  variants : ∀ variant ∈ f.variants, Members.Settled variant.2

def Fixture.members (f : Fixture) : Members :=
  [("attributes", .object f.attributes), ("states", Json.ofTable .object f.variants)]

theorem Fixture.ofDatum?_toJson {f : Fixture} (h : f.Settled) :
    Fixture.ofDatum? (ofJson f.toJson) = some f := by
  have hvariants : tableOf? members? (ofJson (Json.ofTable .object f.variants)) = some f.variants :=
    tableOf?_same h.sorted fun variant hm => members?_ofJson (h.variants variant hm)
  have hrecord : (ofJson f.toJson).record? ["attributes", "states"] = some (.ofMembers f.members) :=
    record?_object (Members.follows_given f.members) (by decide)
  rw [ofDatum?, hrecord]
  simp [members, Record.field?_cons, members?_ofJson h.attributes, hvariants]

theorem Fixture.settled_of_fixture {d : Datum} {fixture : Fixture}
    (h : Fixture.ofDatum? d = some fixture) :
    fixture.attributes.Settled ∧ ∀ variant ∈ fixture.variants, Members.Settled variant.2 := by
  obtain ⟨r, hr, h⟩ := Option.bind_eq_some_iff.mp h
  obtain ⟨attributes, hattributes, h⟩ := Option.bind_eq_some_iff.mp h
  obtain ⟨variants, hvariants, h⟩ := Option.bind_eq_some_iff.mp h
  obtain rfl := Option.some.inj h
  constructor
  · obtain rfl | ⟨x, -, hread⟩ := Datum.exists_part_of_field? hr hattributes
    · exact Members.settled_nil
    · exact Members.settled_of_members? hread
  · intro variant hm
    obtain rfl | ⟨x, -, hread⟩ := Datum.exists_part_of_field? hr hvariants
    · cases hm
    · obtain ⟨y, -, hread⟩ := (Datum.exists_part_of_tableOf? hread).2 variant hm
      exact Members.settled_of_members? hread

theorem Fixture.settled_of_ofDatum? {d : Datum} {f : Fixture} (h : Fixture.ofDatum? d = some f) :
    f.Settled := by
  obtain ⟨hattributes, hvariants⟩ := settled_of_fixture h
  refine ⟨hattributes, ?_, hvariants⟩
  obtain ⟨r, hr, h⟩ := Option.bind_eq_some_iff.mp h
  obtain ⟨attributes, -, h⟩ := Option.bind_eq_some_iff.mp h
  obtain ⟨variants, hread, h⟩ := Option.bind_eq_some_iff.mp h
  obtain rfl := Option.some.inj h
  obtain rfl | ⟨x, -, hread⟩ := exists_part_of_field? hr hread
  · exact Table.Sorted.nil
  · exact (exists_part_of_tableOf? hread).1

def Capability.Conventions.members (c : Capability.Conventions) : Members :=
  [("transformer_markers", Json.ofTexts c.transformerMarkers),
    ("validator_markers", Json.ofTexts c.validatorMarkers),
    ("domain_markers", Json.ofTexts c.domainMarkers), ("transformers", Json.ofTexts c.transformers),
    ("validators", Json.ofTexts c.validators), ("domain_objects", Json.ofTexts c.domainObjects)]

theorem Capability.Conventions.ofDatum?_toJson (c : Capability.Conventions) :
    Capability.Conventions.ofDatum? (ofJson c.toJson) = some c := by
  have hrecord : (ofJson c.toJson).record? fields = some (.ofMembers c.members) :=
    record?_object (Members.follows_given c.members) (by decide)
  rw [ofDatum?, hrecord]
  simp [members, Record.field?_cons, listOf?_ofTexts]

def Handler.Conventions.members (c : Handler.Conventions) : Members :=
  [("responder_methods", Json.ofTexts c.responders),
    ("collection_methods", Json.ofTexts c.collections),
    ("paginate_methods", Json.ofTexts c.paginators),
    ("transformer_collection_methods", Json.ofTexts c.transformerCollections),
    ("rules_method", .string c.rulesRoutine), ("route_key_field", .string c.keyField),
    ("extractor_wrappers", Json.ofTexts c.extractors)]

theorem Handler.Conventions.ofDatum?_toJson (c : Handler.Conventions) :
    Handler.Conventions.ofDatum? (ofJson c.toJson) = some c := by
  have hrecord : (ofJson c.toJson).record? fields = some (.ofMembers c.members) :=
    record?_object (Members.follows_given c.members) (by decide)
  rw [ofDatum?, hrecord]
  simp [members, Record.field?_cons, listOf?_ofTexts, text?_ofJson]

def ManifestEntry.members (e : ManifestEntry) : Members :=
  [("uri", .string e.uri), ("methods", Json.ofTexts e.methods),
    ("method", Json.ofOption .string e.method), ("handler", Json.ofOption .string e.handler),
    ("name", Json.ofOption .string e.name), ("prefix", Json.ofOption .string e.tag),
    ("middleware", Json.ofTexts e.middleware)]

theorem ManifestEntry.ofDatum?_toJson (e : ManifestEntry) :
    ManifestEntry.ofDatum? (ofJson e.toJson) = some e := by
  have hrecord : (ofJson e.toJson).record? fields = some (.ofMembers e.members) :=
    record?_object (Members.follows_given e.members) (by decide)
  rw [ofDatum?, hrecord]
  simp [members, Record.field?_cons, listOf?_ofTexts, text?_ofJson, optional?_ofText]

theorem exists_of_field?_optional? {α : Type} {known : List String} {d : Datum} {r : Record}
    {name : String} {read : Datum → Option α} {y : α} (hr : d.record? known = some r)
    (h : r.field? name none (optional? read) = some (some y)) : ∃ x, read x = some y := by
  obtain hnone | ⟨x, -, hread⟩ := exists_part_of_field? hr h
  · cases hnone
  · rw [optional?] at hread
    split at hread
    · cases hread
    · obtain ⟨found, hfound, he⟩ := Option.map_eq_some_iff.mp hread
      exact ⟨x, by rw [hfound, Option.some.inj he]⟩

namespace RequestOverride

def Settled : RequestOverride → Prop
  | validator _ => True
  | rules fields => fields.Settled

theorem ofDatum?_toJson {request : RequestOverride} (h : request.Settled) :
    RequestOverride.ofDatum? (ofJson request.toJson) = some request := by
  cases request with
  | validator name => rfl
  | rules fields =>
    have hfields : Members.ofList (Json.settleMembers fields) = fields := Json.object.inj h
    rw [toJson, ofDatum?, content?_ofJson]
    exact congrArg (fun fields => some (rules fields)) hfields

theorem settled_of_ofDatum? {d : Datum} {request : RequestOverride}
    (h : RequestOverride.ofDatum? d = some request) : request.Settled := by
  unfold RequestOverride.ofDatum? at h
  split at h
  · cases h
    trivial
  next members _ =>
    cases h
    exact Json.settled_settle (.object members)
  · cases h

theorem missing_toJson (request : RequestOverride) : (ofJson request.toJson).missing = false := by
  cases request <;> rfl

end RequestOverride

namespace ResponseOverride

def Settled : ResponseOverride → Prop
  | reference _ => True
  | sample value status => value.Settled ∧ ∀ code, status = some code → code ≤ statusLimit

def sampleMembers (value : Json) (status : Option Nat) : Members :=
  [("example", value), ("status", Json.ofOption Json.nat status)]

theorem nat?_ofJson {limit n : Nat} (h : n ≤ limit) :
    (ofJson (Json.nat n)).nat? limit = some n := by
  have hvalue : (ofJson (Json.nat n)).value? = some (.number (.int n)) := rfl
  simp [nat?, hvalue, Number.toNat?, h]

theorem ofDatum?_toJson {response : ResponseOverride} (h : response.Settled) :
    ResponseOverride.ofDatum? (ofJson response.toJson) = some response := by
  cases response with
  | reference name => rfl
  | sample value status =>
    obtain ⟨hvalue, hstatus⟩ := h
    have hrecord : (ofJson (.object (sampleMembers value status))).record? ["example", "status"] =
        some (.ofMembers (sampleMembers value status)) :=
      record?_object (Members.follows_given (sampleMembers value status)) (by decide)
    have hexample :
        (Record.ofMembers (sampleMembers value status)).required? "example" value? = some value :=
      (Record.required?_ofMembers rfl).trans (value?_settled hvalue)
    have hcode :
        (Record.ofMembers (sampleMembers value status)).optional? "status" (nat? statusLimit) =
          some status :=
      (Record.optional?_given rfl).trans
        (optional?_ofOption fun code hcode => ⟨rfl, nat?_ofJson (hstatus code hcode)⟩)
    have hjson : (sample value status).toJson = .object (sampleMembers value status) := rfl
    rw [hjson, ofDatum?, content?_ofJson]
    simp [hrecord, hexample, hcode]

theorem le_of_nat? {limit n : Nat} {d : Datum} (h : d.nat? limit = some n) : n ≤ limit := by
  unfold nat? at h
  split at h
  · obtain ⟨-, hle⟩ := Option.filter_eq_some_iff.mp h
    simpa using hle
  · cases h

theorem settled_of_sample {d : Datum} {value : Json} {status : Option Nat}
    (h : ResponseOverride.ofDatum? d = some (.sample value status)) : value.Settled := by
  unfold ResponseOverride.ofDatum? at h
  split at h
  · cases h
  next members _ =>
    obtain ⟨r, -, h⟩ := Option.bind_eq_some_iff.mp h
    obtain ⟨found, hfound, h⟩ := Option.bind_eq_some_iff.mp h
    obtain ⟨found', -, h⟩ := Option.bind_eq_some_iff.mp h
    cases h
    obtain ⟨x, -, hvalue⟩ := Option.bind_eq_some_iff.mp hfound
    exact Datum.settled_of_value? hvalue
  · cases h

theorem settled_of_ofDatum? {d : Datum} {response : ResponseOverride}
    (h : ResponseOverride.ofDatum? d = some response) : response.Settled := by
  cases response with
  | reference name => trivial
  | sample value status =>
    refine ⟨settled_of_sample h, fun code hcode => ?_⟩
    unfold ResponseOverride.ofDatum? at h
    split at h
    · cases h
    next members _ =>
      obtain ⟨r, hr, h⟩ := Option.bind_eq_some_iff.mp h
      obtain ⟨found, -, h⟩ := Option.bind_eq_some_iff.mp h
      obtain ⟨found', hstatus, h⟩ := Option.bind_eq_some_iff.mp h
      cases h
      obtain ⟨x, -, -, hread⟩ := exists_part_of_optional? hr hstatus code hcode
      exact le_of_nat? hread
    · cases h

theorem missing_toJson (response : ResponseOverride) :
    (ofJson response.toJson).missing = false := by
  cases response <;> rfl

end ResponseOverride

structure Override.Settled (o : Override) : Prop where
  request : ∀ request, o.request = some request → request.Settled
  response : ∀ response, o.response = some response → response.Settled

def Override.members (o : Override) : Members :=
  [("request", Json.ofOption RequestOverride.toJson o.request),
    ("response", Json.ofOption ResponseOverride.toJson o.response)]

theorem Override.ofDatum?_toJson {o : Override} (h : o.Settled) :
    Override.ofDatum? (ofJson o.toJson) = some o := by
  have hrecord : (ofJson o.toJson).record? ["request", "response"] = some (.ofMembers o.members) :=
    record?_object (Members.follows_given o.members) (by decide)
  have hrequest :
      optional? RequestOverride.ofDatum? (ofJson (Json.ofOption RequestOverride.toJson o.request)) =
        some o.request :=
    optional?_ofOption fun request hr =>
      ⟨request.missing_toJson, RequestOverride.ofDatum?_toJson (h.request request hr)⟩
  have hresponse : optional? ResponseOverride.ofDatum?
        (ofJson (Json.ofOption ResponseOverride.toJson o.response)) =
      some o.response := optional?_ofOption fun response hr =>
      ⟨response.missing_toJson, ResponseOverride.ofDatum?_toJson (h.response response hr)⟩
  rw [ofDatum?, hrecord]
  simp [members, Record.field?_cons, hrequest, hresponse]

theorem Override.settled_of_ofDatum? {d : Datum} {o : Override} (h : Override.ofDatum? d = some o) :
    o.Settled := by
  obtain ⟨r, hr, h⟩ := Option.bind_eq_some_iff.mp h
  obtain ⟨request, hrequest, h⟩ := Option.bind_eq_some_iff.mp h
  obtain ⟨response, hresponse, h⟩ := Option.bind_eq_some_iff.mp h
  obtain rfl := Option.some.inj h
  constructor
  · rintro found rfl
    obtain ⟨x, hread⟩ := exists_of_field?_optional? hr hrequest
    exact RequestOverride.settled_of_ofDatum? hread
  · rintro found rfl
    obtain ⟨x, hread⟩ := exists_of_field?_optional? hr hresponse
    exact ResponseOverride.settled_of_ofDatum? hread

namespace Config

/-- What the tables of a configuration hold: keys in order, each of them once, and values with each
of their names once. Nothing is asked of the other fields. -/
structure Settled (c : Config) : Prop where
  typeExamples : c.typeExamples.Sorted
  examples : ∀ entry ∈ c.typeExamples, entry.2.Settled
  transformerInputs : c.transformerInputs.Sorted
  inputs : ∀ entry ∈ c.transformerInputs, entry.2.Settled
  sorted_overrides : c.overrides.Sorted
  overrides : ∀ entry ∈ c.overrides, entry.2.Settled
  sorted_fixtures : c.fixtures.Sorted
  fixtures : ∀ entry ∈ c.fixtures, entry.2.Settled

def members (c : Config) : Members :=
  [("title", .string c.title), ("version", Json.ofOption .string c.version),
    ("description", .string c.description), ("source_dir", .string c.sourceDir),
    ("output", Json.ofOption .string c.output), ("create_factories", .bool c.stored),
    ("factory_state", .string c.variant), ("resource_wrap", Json.ofOption .string c.wrap),
    ("class_maps", .object c.typeExamples), ("resource_maps", .object c.transformerInputs),
    ("endpoint_maps", Json.ofTable Override.toJson c.overrides),
    ("factories", Json.ofTable Fixture.toJson c.fixtures), ("capabilities", c.capabilities.toJson),
    ("analysis", c.handlers.toJson), ("ignore_uris", Json.ofTexts c.ignoredUris),
    ("ignore_methods", Json.ofTexts c.ignoredMethods),
    ("routes", Json.ofList ManifestEntry.toJson c.routes)]

/-- A configuration that is written is read as it was, with every field. -/
theorem written_read_back {c : Config} (h : c.Settled) :
    Config.ofDatum? (ofJson c.toJson) = some c := by
  have hrecord : (ofJson c.toJson).record? fields = some (.ofMembers c.members) :=
    record?_object (Members.follows_given c.members) (by decide)
  have hoverrides : tableOf? Override.ofDatum? (ofJson (Json.ofTable Override.toJson c.overrides)) =
      some c.overrides :=
    tableOf?_same h.sorted_overrides fun entry hm => Override.ofDatum?_toJson (h.overrides entry hm)
  have hfixtures : tableOf? Fixture.ofDatum? (ofJson (Json.ofTable Fixture.toJson c.fixtures)) =
      some c.fixtures :=
    tableOf?_same h.sorted_fixtures fun entry hm => Fixture.ofDatum?_toJson (h.fixtures entry hm)
  have hroutes :
      listOf? ManifestEntry.ofDatum? (ofJson (Json.ofList ManifestEntry.toJson c.routes)) =
        some c.routes := listOf?_same fun entry _ => entry.ofDatum?_toJson
  rw [ofDatum?, hrecord]
  -- field by field, in the order in which they are read
  dsimp only [Option.bind_eq_bind, Option.bind_some]
  refine Record.field?_read rfl (text?_ofJson c.title) ?_
  refine Record.field?_read rfl (optional?_ofText c.version) ?_
  refine Record.field?_read rfl (text?_ofJson c.description) ?_
  refine Record.field?_read rfl (text?_ofJson c.sourceDir) ?_
  refine Record.field?_read rfl (optional?_ofText c.output) ?_
  refine Record.field?_read rfl (truth?_ofJson c.stored) ?_
  refine Record.field?_read rfl (text?_ofJson c.variant) ?_
  refine Record.field?_read rfl (optional?_ofText c.wrap) ?_
  refine Record.field?_read rfl (tableOf?_value? h.typeExamples h.examples) ?_
  refine Record.field?_read rfl (tableOf?_value? h.transformerInputs h.inputs) ?_
  refine Record.field?_read rfl hoverrides ?_
  refine Record.field?_read rfl hfixtures ?_
  refine Record.field?_read rfl c.capabilities.ofDatum?_toJson ?_
  refine Record.field?_read rfl c.handlers.ofDatum?_toJson ?_
  refine Record.field?_read rfl (listOf?_ofTexts c.ignoredUris) ?_
  refine Record.field?_read rfl (listOf?_ofTexts c.ignoredMethods) ?_
  exact Record.field?_read rfl hroutes rfl

theorem sorted_of_field? {α : Type} {known : List String} {d : Datum} {r : Record} {name : String}
    {read : Datum → Option α} {table : Table α} (hr : d.record? known = some r)
    (h : r.field? name [] (tableOf? read) = some table) :
    table.Sorted ∧ ∀ entry ∈ table, ∃ x, read x = some entry.2 := by
  obtain rfl | ⟨x, -, hread⟩ := exists_part_of_field? hr h
  · exact ⟨Table.Sorted.nil, fun _ hm => by cases hm⟩
  · obtain ⟨hsorted, hvalues⟩ := exists_part_of_tableOf? hread
    refine ⟨hsorted, fun entry hm => ?_⟩
    obtain ⟨y, -, hy⟩ := hvalues entry hm
    exact ⟨y, hy⟩

theorem read_of_ofDatum? {d : Datum} {config : Config} (h : ofDatum? d = some config) :
    ∃ r, d.record? fields = some r ∧
      r.field? "class_maps" [] (Datum.tableOf? Datum.value?) = some config.typeExamples ∧
      r.field? "resource_maps" [] (Datum.tableOf? Datum.value?) = some config.transformerInputs ∧
      r.field? "endpoint_maps" [] (Datum.tableOf? Override.ofDatum?) = some config.overrides ∧
      r.field? "factories" [] (Datum.tableOf? Fixture.ofDatum?) = some config.fixtures := by
  obtain ⟨r, hr, h⟩ := Option.bind_eq_some_iff.mp h
  obtain ⟨title, -, h⟩ := Option.bind_eq_some_iff.mp h
  obtain ⟨version, -, h⟩ := Option.bind_eq_some_iff.mp h
  obtain ⟨description, -, h⟩ := Option.bind_eq_some_iff.mp h
  obtain ⟨sourceDir, -, h⟩ := Option.bind_eq_some_iff.mp h
  obtain ⟨output, -, h⟩ := Option.bind_eq_some_iff.mp h
  obtain ⟨stored, -, h⟩ := Option.bind_eq_some_iff.mp h
  obtain ⟨variant, -, h⟩ := Option.bind_eq_some_iff.mp h
  obtain ⟨wrap, -, h⟩ := Option.bind_eq_some_iff.mp h
  obtain ⟨typeExamples, htypeExamples, h⟩ := Option.bind_eq_some_iff.mp h
  obtain ⟨transformerInputs, hinputs, h⟩ := Option.bind_eq_some_iff.mp h
  obtain ⟨overrides, hoverrides, h⟩ := Option.bind_eq_some_iff.mp h
  obtain ⟨fixtures, hfixtures, h⟩ := Option.bind_eq_some_iff.mp h
  obtain ⟨capabilities, -, h⟩ := Option.bind_eq_some_iff.mp h
  obtain ⟨handlers, -, h⟩ := Option.bind_eq_some_iff.mp h
  obtain ⟨ignoredUris, -, h⟩ := Option.bind_eq_some_iff.mp h
  obtain ⟨ignoredMethods, -, h⟩ := Option.bind_eq_some_iff.mp h
  obtain ⟨routes, -, h⟩ := Option.bind_eq_some_iff.mp h
  obtain rfl := Option.some.inj h
  exact ⟨r, hr, htypeExamples, hinputs, hoverrides, hfixtures⟩

theorem settled_of_ofDatum? {d : Datum} {c : Config} (h : Config.ofDatum? d = some c) :
    c.Settled := by
  obtain ⟨r, hr, hexamples, hinputs, hoverrides, hfixtures⟩ := read_of_ofDatum? h
  obtain ⟨hexamples, hsample⟩ := sorted_of_field? hr hexamples
  obtain ⟨hinputs, hinput⟩ := sorted_of_field? hr hinputs
  obtain ⟨hoverrides, hoverride⟩ := sorted_of_field? hr hoverrides
  obtain ⟨hfixtures, hfixture⟩ := sorted_of_field? hr hfixtures
  exact
    { typeExamples := hexamples
      examples := fun entry hm => (hsample entry hm).elim fun _ => settled_of_value?
      transformerInputs := hinputs
      inputs := fun entry hm => (hinput entry hm).elim fun _ => settled_of_value?
      sorted_overrides := hoverrides
      overrides := fun entry hm => (hoverride entry hm).elim fun _ => Override.settled_of_ofDatum?
      sorted_fixtures := hfixtures
      fixtures := fun entry hm => (hfixture entry hm).elim fun _ => Fixture.settled_of_ofDatum? }

def unusual : Config where
  title := "Orders"
  version := some "2"
  description := "All orders"
  sourceDir := "service/src"
  output := some "api.yaml"
  stored := true
  variant := "shown"
  wrap := none
  typeExamples := [("crate::Money", .object [("amount", .nat 1), ("currency", .null)])]
  transformerInputs := [("crate::OrderResource", .string "crate::Order")]
  overrides :=
    [("orders.index", { request := some (.validator "crate::Search"),
                        response := some (.reference "crate::Order::collection") }),
      ("orders.store", { request := some (.rules [("sum", .string "required")]),
                         response := some (.sample .null (some 201)) })]
  fixtures := [("crate::Order",
    { attributes := [("sum", .nat 3)], variants := [("shown", [("sum", .nat 5)])] })]
  capabilities := { transformerMarkers := [], validatorMarkers := [], domainMarkers := [],
                    validators := ["crate::Search"] }
  handlers := { responders := [], collections := [], paginators := [], transformerCollections := [],
                extractors := [] }
  ignoredUris := []
  ignoredMethods := []
  routes := [{ uri := "orders", method := some "get", handler := some "crate::orders::index" }]

theorem unusual_read_back : Config.ofDatum? (ofJson unusual.toJson) = some unusual := by
  refine written_read_back ⟨by decide, ?_, by decide, ?_, by decide, ?_, by decide, ?_⟩
  · intro entry hm
    obtain rfl := List.mem_singleton.mp hm
    rfl
  · intro entry hm
    obtain rfl := List.mem_singleton.mp hm
    rfl
  · intro entry hm
    obtain rfl | hm := List.mem_cons.mp hm
    · exact ⟨fun _ hr => by cases hr; trivial, fun _ hr => by cases hr; trivial⟩
    · obtain rfl := List.mem_singleton.mp hm
      refine ⟨fun _ hr => by cases hr; rfl, fun _ hr => ?_⟩
      cases hr
      exact ⟨rfl, fun code hcode => by cases hcode; decide⟩
  · intro entry hm
    obtain rfl := List.mem_singleton.mp hm
    refine ⟨rfl, by decide, fun variant hv => ?_⟩
    obtain rfl := List.mem_singleton.mp hv
    rfl

end Config

end ApiContract
