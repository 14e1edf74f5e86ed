import ApiContract.Proofs.WrittenSchemas

namespace ApiContract

namespace Document

/-- The schemas of a parameter are as `p` says. -/
structure Parameter.Orderly (p : Json → Prop) (parameter : Parameter) : Prop where
  items : ∀ s, parameter.items = some s → s.Orderly p
  schema : ∀ s, parameter.schema = some s → s.Orderly p

structure Operation.Orderly (p : Json → Prop) (o : Operation) : Prop where
  security : ∀ requirement ∈ o.security, Table.Sorted requirement
  parameters : ∀ parameter ∈ o.parameters, parameter.Orderly p
  sorted : o.responses.Sorted
  responses : ∀ entry ∈ o.responses, entry.2.schema.Orderly p

def PathItem.Orderly (p : Json → Prop) (item : PathItem) : Prop :=
  ∀ verb operation, item.operation? verb = some operation → operation.Orderly p

/-- The tables of a document are in order, and the samples in its schemas are as `p` says. -/
structure Orderly (p : Json → Prop) (d : Document) : Prop where
  securityDefinitions : d.securityDefinitions.Sorted
  sorted : d.paths.Sorted
  paths : ∀ entry ∈ d.paths, entry.2.Orderly p
  sorted_definitions : d.definitions.Sorted
  definitions : ∀ entry ∈ d.definitions, entry.2.Orderly p

def Parameter.withoutNulls (p : Parameter) : Parameter :=
  { p with items := p.items.map Schema.withoutNulls, schema := p.schema.map Schema.withoutNulls }

def Response.withoutNulls (r : Response) : Response := { r with schema := r.schema.withoutNulls }

def Operation.withoutNulls (o : Operation) : Operation :=
  { o with
    parameters := o.parameters.map Parameter.withoutNulls
    responses := o.responses.map fun entry => (entry.1, entry.2.withoutNulls) }

def PathItem.withoutNulls (item : PathItem) : PathItem :=
  { get := item.get.map Operation.withoutNulls
    post := item.post.map Operation.withoutNulls
    put := item.put.map Operation.withoutNulls
    patch := item.patch.map Operation.withoutNulls
    delete := item.delete.map Operation.withoutNulls
    options := item.options.map Operation.withoutNulls
    head := item.head.map Operation.withoutNulls }

/-- The document without the samples that are null. -/
def withoutNulls (d : Document) : Document :=
  { d with
    paths := d.paths.map fun entry => (entry.1, entry.2.withoutNulls)
    definitions := d.definitions.map fun entry => (entry.1, entry.2.withoutNulls) }

def Info.members (i : Info) : Members :=
  [("version", .string i.version), ("title", .string i.title)] ++
    Json.whenText "description" i.description

theorem Info.ofDatum?_toJson (i : Info) : Info.ofDatum? (Datum.ofJson i.toJson) = some i := by
  have hfollows : i.members.Follows ["version", "title", "description"] :=
    (Members.follows_given _).append (Members.follows_whenText "description" _)
  have hversion : i.members.get? "version" = some (.string i.version) := by simp [members]
  have htitle : i.members.get? "title" = some (.string i.title) := by simp [members]
  have hdescription : i.members.get? "description" =
      if i.description.isEmpty then none else some (.string i.description) := by
    simp [members]
  have hjson : i.toJson = .object i.members := rfl
  rw [hjson, ofDatum?, Datum.record?_object hfollows (by decide)]
  simp only [Record.required?_text hversion, Record.required?_text htitle,
    Record.field?_whenText hdescription, bind, Option.bind, pure]

theorem SecurityScheme.ofDatum?_toJson (s : SecurityScheme) :
    SecurityScheme.ofDatum? (Datum.ofJson s.toJson) = some s :=
  rfl

theorem tagOfDatum?_tagToJson (name : String) :
    tagOfDatum? (Datum.ofJson (tagToJson name)) = some name :=
  rfl

def Parameter.members (p : Parameter) : Members :=
  [("name", .string p.name), ("in", .string p.place), ("required", .bool p.required)] ++
    Json.whenSome "type" .string p.type ++ Json.whenSome "description" .string p.description ++
    Json.whenSome "items" Schema.toJson p.items ++
    Json.whenSome "collectionFormat" .string p.collectionFormat ++
    Json.whenSome "schema" Schema.toJson p.schema

theorem Parameter.follows_members (p : Parameter) : p.members.Follows fields :=
  (((((Members.follows_given _).append (Members.follows_whenSome "type" _ _)).append
    (Members.follows_whenSome "description" _ _)).append
    (Members.follows_whenSome "items" _ _)).append
    (Members.follows_whenSome "collectionFormat" _ _)).append
    (Members.follows_whenSome "schema" _ _)

theorem optional?_schema {members : Members} {name : String} {schema : Option Schema}
    (h : members.get? name = schema.map Schema.toJson)
    (horderly : ∀ s, schema = some s → s.Orderly Json.Settled) :
    (Record.ofMembers members).optional? name Schema.ofDatum? =
      some (schema.map Schema.withoutNulls) := by
  refine Record.optional?_ofMembers h fun s hs => ⟨?_, Schema.ofDatum?_toJson (horderly s hs)⟩
  rw [Json.missing_ofJson, Schema.isNull_toJson]

theorem Parameter.ofDatum?_toJson {p : Parameter} (h : p.Orderly Json.Settled) :
    Parameter.ofDatum? (Datum.ofJson p.toJson) = some p.withoutNulls := by
  have hname : p.members.get? "name" = some (.string p.name) := by simp [members]
  have hplace : p.members.get? "in" = some (.string p.place) := by simp [members]
  have hrequired : p.members.get? "required" = some (.bool p.required) := by simp [members]
  have htype : p.members.get? "type" = p.type.map .string := by simp [members]
  have hdescription : p.members.get? "description" = p.description.map .string := by simp [members]
  have hitems : p.members.get? "items" = p.items.map Schema.toJson := by simp [members]
  have hformat : p.members.get? "collectionFormat" = p.collectionFormat.map .string := by
    simp [members]
  have hschema : p.members.get? "schema" = p.schema.map Schema.toJson := by simp [members]
  have htruth : (Record.ofMembers p.members).required? "required" Datum.truth? = some p.required :=
    Record.required?_ofMembers hrequired
  have hjson : p.toJson = .object p.members := rfl
  rw [hjson, ofDatum?, Datum.record?_object p.follows_members (by decide)]
  simp only [Record.required?_text hname, Record.required?_text hplace, htruth,
    Record.optional?_text htype, Record.optional?_text hdescription,
    optional?_schema hitems h.items, Record.optional?_text hformat,
    optional?_schema hschema h.schema, bind, Option.bind, pure]
  rfl

def Response.members (r : Response) : Members :=
  [("description", .string r.description), ("schema", r.schema.toJson)]

theorem Response.ofDatum?_toJson {r : Response} (h : r.schema.Orderly Json.Settled) :
    Response.ofDatum? (Datum.ofJson r.toJson) = some r.withoutNulls := by
  have hfollows : r.members.Follows ["description", "schema"] := Members.follows_given _
  have hdescription : r.members.get? "description" = some (.string r.description) := by
    simp [members]
  have hschema : r.members.get? "schema" = some r.schema.toJson := by simp [members]
  have hjson : r.toJson = .object r.members := rfl
  rw [hjson, ofDatum?, Datum.record?_object hfollows (by decide)]
  simp only [Record.required?_text hdescription, Record.required?_ofMembers hschema,
    Schema.ofDatum?_toJson h, bind, Option.bind, pure]
  rfl

def Operation.members (o : Operation) : Members :=
  Json.whenText "summary" o.summary ++ Json.whenText "description" o.description ++
    [("security", Json.ofList (Json.ofTable Json.ofTexts) o.security)] ++
    Json.whenAny "tags" .string o.tags ++ [("operationId", .string o.id),
      ("consumes", Json.ofTexts o.consumes), ("produces", Json.ofTexts o.produces)] ++
    Json.whenAny "parameters" Parameter.toJson o.parameters ++
    [("responses", Json.ofTable Response.toJson o.responses)] ++
    Json.whenAny "x-middleware" .string o.middleware

theorem Operation.follows_members (o : Operation) : o.members.Follows fields :=
  (((((((Members.follows_whenText "summary" _).append
    (Members.follows_whenText "description" _)).append (Members.follows_given _)).append
    (Members.follows_whenAny "tags" _ _)).append (Members.follows_given _)).append
    (Members.follows_whenAny "parameters" _ _)).append (Members.follows_given _)).append
    (Members.follows_whenAny "x-middleware" _ _)

theorem Operation.ofDatum?_toJson {o : Operation} (h : o.Orderly Json.Settled) :
    Operation.ofDatum? (Datum.ofJson o.toJson) = some o.withoutNulls := by
  have hsummary :
      o.members.get? "summary" = if o.summary.isEmpty then none else some (.string o.summary) := by
    simp [members]
  have hdescription : o.members.get? "description" =
      if o.description.isEmpty then none else some (.string o.description) := by
    simp [members]
  have hsecurity :
      o.members.get? "security" = some (Json.ofList (Json.ofTable Json.ofTexts) o.security) := by
    simp [members]
  have htags : o.members.get? "tags" =
      if o.tags.isEmpty then none else some (Json.ofList .string o.tags) := by
    simp [members]
  have hid : o.members.get? "operationId" = some (.string o.id) := by simp [members]
  have hconsumes : o.members.get? "consumes" = some (Json.ofTexts o.consumes) := by simp [members]
  have hproduces : o.members.get? "produces" = some (Json.ofTexts o.produces) := by simp [members]
  have hparameters : o.members.get? "parameters" =
      if o.parameters.isEmpty then none else some (Json.ofList Parameter.toJson o.parameters) := by
    simp [members]
  have hresponses :
      o.members.get? "responses" = some (Json.ofTable Response.toJson o.responses) := by
    simp [members]
  have hmiddleware : o.members.get? "x-middleware" =
      if o.middleware.isEmpty then none else some (Json.ofList .string o.middleware) := by
    simp [members]
  have hreadSecurity : (Record.ofMembers o.members).required? "security"
      (Datum.listOf? (Datum.tableOf? (Datum.listOf? Datum.text?))) = some o.security := by
    rw [Record.required?_ofMembers hsecurity]
    refine Datum.listOf?_same fun requirement hm => ?_
    exact Datum.tableOf?_same (h.security requirement hm) fun entry _ =>
      Datum.listOf?_ofTexts entry.2
  have hreadParameters :
      (Record.ofMembers o.members).field? "parameters" [] (Datum.listOf? Parameter.ofDatum?) =
        some (o.parameters.map Parameter.withoutNulls) :=
    Datum.field?_whenAny hparameters fun p hp => Parameter.ofDatum?_toJson (h.parameters p hp)
  have hreadResponses :
      (Record.ofMembers o.members).required? "responses" (Datum.tableOf? Response.ofDatum?) =
        some (o.responses.map fun entry => (entry.1, entry.2.withoutNulls)) := by
    rw [Record.required?_ofMembers hresponses]
    exact Datum.tableOf?_ofTable h.sorted fun entry hentry =>
      Response.ofDatum?_toJson (h.responses entry hentry)
  have hjson : o.toJson = .object o.members := rfl
  rw [hjson, ofDatum?, Datum.record?_object o.follows_members (by decide)]
  simp only [Record.field?_whenText hsummary, Record.field?_whenText hdescription, hreadSecurity,
    Datum.field?_texts htags, Record.required?_text hid, Record.required?_ofMembers hconsumes,
    Record.required?_ofMembers hproduces, Datum.listOf?_ofTexts, hreadParameters, hreadResponses,
    Datum.field?_texts hmiddleware, bind, Option.bind, pure]
  rfl

def PathItem.members (item : PathItem) : Members :=
  Json.whenSome "get" Operation.toJson item.get ++
    Json.whenSome "post" Operation.toJson item.post ++
    Json.whenSome "put" Operation.toJson item.put ++
    Json.whenSome "patch" Operation.toJson item.patch ++
    Json.whenSome "delete" Operation.toJson item.delete ++
    Json.whenSome "options" Operation.toJson item.options ++
    Json.whenSome "head" Operation.toJson item.head

theorem PathItem.follows_members (item : PathItem) : item.members.Follows fields :=
  ((((((Members.follows_whenSome "get" _ _).append (Members.follows_whenSome "post" _ _)).append
    (Members.follows_whenSome "put" _ _)).append (Members.follows_whenSome "patch" _ _)).append
    (Members.follows_whenSome "delete" _ _)).append (Members.follows_whenSome "options" _ _)).append
    (Members.follows_whenSome "head" _ _)

theorem PathItem.ofDatum?_toJson {item : PathItem} (h : item.Orderly Json.Settled) :
    PathItem.ofDatum? (Datum.ofJson item.toJson) = some item.withoutNulls := by
  have hread : ∀ name verb, item.members.get? name = (item.operation? verb).map Operation.toJson →
      (Record.ofMembers item.members).optional? name Operation.ofDatum? =
        some ((item.operation? verb).map Operation.withoutNulls) := by
    intro name verb hget
    exact Record.optional?_ofMembers hget fun o ho => ⟨rfl, Operation.ofDatum?_toJson (h verb o ho)⟩
  have hjson : item.toJson = .object item.members := rfl
  rw [hjson, ofDatum?, Datum.record?_object item.follows_members (by decide)]
  simp only [hread "get" .get (by simp [members, operation?]),
    hread "post" .post (by simp [members, operation?]),
    hread "put" .put (by simp [members, operation?]),
    hread "patch" .patch (by simp [members, operation?]),
    hread "delete" .delete (by simp [members, operation?]),
    hread "options" .options (by simp [members, operation?]),
    hread "head" .head (by simp [members, operation?]), bind, Option.bind, pure]
  rfl

def members (d : Document) : Members :=
  [("swagger", .string d.swagger), ("info", d.info.toJson),
      ("securityDefinitions", Json.ofTable SecurityScheme.toJson d.securityDefinitions)] ++
    Json.whenAny "tags" tagToJson d.tags ++ [("paths", Json.ofTable PathItem.toJson d.paths),
      ("definitions", Json.ofTable Schema.toJson d.definitions)]

theorem follows_members (d : Document) : d.members.Follows fields :=
  ((Members.follows_given _).append (Members.follows_whenAny "tags" _ _)).append
    (Members.follows_given _)

theorem ofDatum?_toJson {d : Document} (h : d.Orderly Json.Settled) :
    Document.ofDatum? (Datum.ofJson d.toJson) = some d.withoutNulls := by
  have hswagger : d.members.get? "swagger" = some (.string d.swagger) := by simp [members]
  have hinfo : d.members.get? "info" = some d.info.toJson := by simp [members]
  have hsecurity : d.members.get? "securityDefinitions" =
      some (Json.ofTable SecurityScheme.toJson d.securityDefinitions) := by
    simp [members]
  have htags : d.members.get? "tags" =
      if d.tags.isEmpty then none else some (Json.ofList tagToJson d.tags) := by
    simp [members]
  have hpaths : d.members.get? "paths" = some (Json.ofTable PathItem.toJson d.paths) := by
    simp [members]
  have hdefinitions :
      d.members.get? "definitions" = some (Json.ofTable Schema.toJson d.definitions) := by
    simp [members]
  have hreadPaths := Datum.tableOf?_ofTable h.sorted fun entry hentry =>
    PathItem.ofDatum?_toJson (h.paths entry hentry)
  have hreadDefinitions := Datum.tableOf?_ofTable h.sorted_definitions fun entry hentry =>
    Schema.ofDatum?_toJson (h.definitions entry hentry)
  have hjson : d.toJson = .object d.members := rfl
  rw [hjson, ofDatum?, Datum.record?_object d.follows_members (by decide)]
  simp only [Record.required?_text hswagger, Record.required?_ofMembers hinfo, Info.ofDatum?_toJson,
    Record.required?_ofMembers hsecurity,
    Datum.tableOf?_same h.securityDefinitions fun entry _ => SecurityScheme.ofDatum?_toJson entry.2,
    Datum.field?_whenAny_same htags tagOfDatum?_tagToJson, Record.required?_ofMembers hpaths,
    hreadPaths, Record.required?_ofMembers hdefinitions, hreadDefinitions, bind, Option.bind, pure]
  rfl

theorem Parameter.orderly_of_ofDatum? {d : Datum} (hd : d.IsJson) {p : Parameter}
    (h : Parameter.ofDatum? d = some p) :
    p.Orderly fun value => value.Settled ∧ value.isNull = false := by
  obtain ⟨r, hr, h⟩ := Option.bind_eq_some_iff.mp h
  obtain ⟨name, -, h⟩ := Option.bind_eq_some_iff.mp h
  obtain ⟨place, -, h⟩ := Option.bind_eq_some_iff.mp h
  obtain ⟨required, -, h⟩ := Option.bind_eq_some_iff.mp h
  obtain ⟨type, -, h⟩ := Option.bind_eq_some_iff.mp h
  obtain ⟨description, -, h⟩ := Option.bind_eq_some_iff.mp h
  obtain ⟨items, hitems, h⟩ := Option.bind_eq_some_iff.mp h
  obtain ⟨format, -, h⟩ := Option.bind_eq_some_iff.mp h
  obtain ⟨schema, hschema, h⟩ := Option.bind_eq_some_iff.mp h
  obtain rfl := Option.some.inj h
  constructor
  · intro s hs
    obtain ⟨x, hx, -, hread⟩ := Datum.exists_part_of_optional? hr hitems s hs
    exact Schema.orderly_of_ofDatum? (hd.part hx) hread
  · intro s hs
    obtain ⟨x, hx, -, hread⟩ := Datum.exists_part_of_optional? hr hschema s hs
    exact Schema.orderly_of_ofDatum? (hd.part hx) hread

theorem Response.orderly_of_ofDatum? {d : Datum} (hd : d.IsJson) {r : Response}
    (h : Response.ofDatum? d = some r) :
    r.schema.Orderly fun value => value.Settled ∧ value.isNull = false := by
  obtain ⟨fields, hr, h⟩ := Option.bind_eq_some_iff.mp h
  obtain ⟨description, -, h⟩ := Option.bind_eq_some_iff.mp h
  obtain ⟨schema, hschema, h⟩ := Option.bind_eq_some_iff.mp h
  obtain rfl := Option.some.inj h
  obtain ⟨x, hx, hread⟩ := Datum.exists_part_of_required? hr hschema
  exact Schema.orderly_of_ofDatum? (hd.part hx) hread

theorem Operation.orderly_of_ofDatum? {d : Datum} (hd : d.IsJson) {o : Operation}
    (h : Operation.ofDatum? d = some o) :
    o.Orderly fun value => value.Settled ∧ value.isNull = false := by
  obtain ⟨r, hr, h⟩ := Option.bind_eq_some_iff.mp h
  obtain ⟨summary, -, h⟩ := Option.bind_eq_some_iff.mp h
  obtain ⟨description, -, h⟩ := Option.bind_eq_some_iff.mp h
  obtain ⟨security, hsecurity, h⟩ := Option.bind_eq_some_iff.mp h
  obtain ⟨tags, -, h⟩ := Option.bind_eq_some_iff.mp h
  obtain ⟨id, -, h⟩ := Option.bind_eq_some_iff.mp h
  obtain ⟨consumes, -, h⟩ := Option.bind_eq_some_iff.mp h
  obtain ⟨produces, -, h⟩ := Option.bind_eq_some_iff.mp h
  obtain ⟨parameters, hparameters, h⟩ := Option.bind_eq_some_iff.mp h
  obtain ⟨responses, hresponses, h⟩ := Option.bind_eq_some_iff.mp h
  obtain ⟨middleware, -, h⟩ := Option.bind_eq_some_iff.mp h
  obtain rfl := Option.some.inj h
  obtain ⟨part, hpart, hresponses⟩ := Datum.exists_part_of_required? hr hresponses
  obtain ⟨hsorted, hresponses⟩ := Datum.exists_part_of_tableOf? hresponses
  refine ⟨?_, ?_, hsorted, ?_⟩
  · obtain ⟨x, -, hsecurity⟩ := Datum.exists_part_of_required? hr hsecurity
    intro requirement hm
    obtain ⟨y, -, hread⟩ := Datum.exists_part_of_listOf? hsecurity requirement hm
    exact (Datum.exists_part_of_tableOf? hread).1
  · intro p hp
    obtain rfl | ⟨x, hx, hread⟩ := Datum.exists_part_of_field? hr hparameters
    · cases hp
    · obtain ⟨y, hy, hread⟩ := Datum.exists_part_of_listOf? hread p hp
      exact Parameter.orderly_of_ofDatum? ((hd.part hx).part hy) hread
  · intro entry hentry
    obtain ⟨y, hy, hread⟩ := hresponses entry hentry
    exact Response.orderly_of_ofDatum? ((hd.part hpart).part hy) hread

theorem PathItem.orderly_of_ofDatum? {d : Datum} (hd : d.IsJson) {item : PathItem}
    (h : PathItem.ofDatum? d = some item) :
    item.Orderly fun value => value.Settled ∧ value.isNull = false := by
  obtain ⟨r, hr, h⟩ := Option.bind_eq_some_iff.mp h
  have hread :
      ∀ name o, r.optional? name Operation.ofDatum? = some o → ∀ operation, o = some operation →
          operation.Orderly fun value => value.Settled ∧ value.isNull = false := by
    intro name o ho operation hoperation
    obtain ⟨x, hx, -, hread⟩ := Datum.exists_part_of_optional? hr ho operation hoperation
    exact Operation.orderly_of_ofDatum? (hd.part hx) hread
  obtain ⟨get, hget, h⟩ := Option.bind_eq_some_iff.mp h
  obtain ⟨post, hpost, h⟩ := Option.bind_eq_some_iff.mp h
  obtain ⟨put, hput, h⟩ := Option.bind_eq_some_iff.mp h
  obtain ⟨patch, hpatch, h⟩ := Option.bind_eq_some_iff.mp h
  obtain ⟨delete, hdelete, h⟩ := Option.bind_eq_some_iff.mp h
  obtain ⟨options, hoptions, h⟩ := Option.bind_eq_some_iff.mp h
  obtain ⟨head, hhead, h⟩ := Option.bind_eq_some_iff.mp h
  obtain rfl := Option.some.inj h
  intro verb operation hoperation
  cases verb with
  | get => exact hread _ _ hget operation hoperation
  | post => exact hread _ _ hpost operation hoperation
  | put => exact hread _ _ hput operation hoperation
  | patch => exact hread _ _ hpatch operation hoperation
  | delete => exact hread _ _ hdelete operation hoperation
  | options => exact hread _ _ hoptions operation hoperation
  | head => exact hread _ _ hhead operation hoperation

theorem orderly_of_ofDatum? {datum : Datum} (hdatum : datum.IsJson) {d : Document}
    (h : Document.ofDatum? datum = some d) :
    d.Orderly fun value => value.Settled ∧ value.isNull = false := by
  obtain ⟨r, hr, h⟩ := Option.bind_eq_some_iff.mp h
  obtain ⟨swagger, -, h⟩ := Option.bind_eq_some_iff.mp h
  obtain ⟨info, -, h⟩ := Option.bind_eq_some_iff.mp h
  obtain ⟨security, hsecurity, h⟩ := Option.bind_eq_some_iff.mp h
  obtain ⟨tags, -, h⟩ := Option.bind_eq_some_iff.mp h
  obtain ⟨paths, hpaths, h⟩ := Option.bind_eq_some_iff.mp h
  obtain ⟨definitions, hdefinitions, h⟩ := Option.bind_eq_some_iff.mp h
  obtain rfl := Option.some.inj h
  obtain ⟨_, -, hsecurity⟩ := Datum.exists_part_of_required? hr hsecurity
  obtain ⟨part, hpart, hpaths⟩ := Datum.exists_part_of_required? hr hpaths
  obtain ⟨other, hother, hdefinitions⟩ := Datum.exists_part_of_required? hr hdefinitions
  obtain ⟨hsortedPaths, hpaths⟩ := Datum.exists_part_of_tableOf? hpaths
  obtain ⟨hsortedDefinitions, hdefinitions⟩ := Datum.exists_part_of_tableOf? hdefinitions
  refine ⟨(Datum.exists_part_of_tableOf? hsecurity).1, hsortedPaths, ?_, hsortedDefinitions, ?_⟩
  · intro entry hentry
    obtain ⟨x, hx, hread⟩ := hpaths entry hentry
    exact PathItem.orderly_of_ofDatum? ((hdatum.part hpart).part hx) hread
  · intro entry hentry
    obtain ⟨x, hx, hread⟩ := hdefinitions entry hentry
    exact Schema.orderly_of_ofDatum? ((hdatum.part hother).part hx) hread

section

variable {p q : Json → Prop} (hpq : ∀ value, p value → q value)
include hpq

theorem Parameter.Orderly.imp {parameter : Parameter} (h : parameter.Orderly p) :
    parameter.Orderly q :=
  ⟨fun s hs => (h.items s hs).imp hpq, fun s hs => (h.schema s hs).imp hpq⟩

theorem Operation.Orderly.imp {o : Operation} (h : o.Orderly p) : o.Orderly q :=
  ⟨h.security, fun parameter hm => (h.parameters parameter hm).imp hpq, h.sorted,
    fun entry hentry => (h.responses entry hentry).imp hpq⟩

theorem Orderly.imp {d : Document} (h : d.Orderly p) : d.Orderly q :=
  ⟨h.securityDefinitions, h.sorted, fun entry hentry verb operation hoperation =>
      (h.paths entry hentry verb operation hoperation).imp hpq,
    h.sorted_definitions, fun entry hentry => (h.definitions entry hentry).imp hpq⟩

end

theorem withoutNulls_schema {schema : Option Schema}
    (h : ∀ s, schema = some s → s.Orderly fun value => value.isNull = false) :
    schema.map Schema.withoutNulls = schema := by
  cases schema with
  | none => rfl
  | some s => exact congrArg some (h s rfl).withoutNulls_eq_self

theorem Parameter.Orderly.withoutNulls_eq_self {p : Parameter}
    (h : p.Orderly fun value => value.isNull = false) : p.withoutNulls = p := by
  rw [withoutNulls, withoutNulls_schema h.items, withoutNulls_schema h.schema]

theorem Operation.Orderly.withoutNulls_eq_self {o : Operation}
    (h : o.Orderly fun value => value.isNull = false) : o.withoutNulls = o := by
  have hparameters : o.parameters.map Parameter.withoutNulls = o.parameters :=
    Json.map_eq_self.mpr fun p hp => (h.parameters p hp).withoutNulls_eq_self
  have hresponses :
      (o.responses.map fun entry => (entry.1, entry.2.withoutNulls)) = o.responses := by
    refine Json.map_eq_self.mpr fun entry hentry => ?_
    rw [Response.withoutNulls, (h.responses entry hentry).withoutNulls_eq_self]
  rw [withoutNulls, hparameters, hresponses]

theorem withoutNulls_operation {operation : Option Operation}
    (h : ∀ o, operation = some o → o.Orderly fun value => value.isNull = false) :
    operation.map Operation.withoutNulls = operation := by
  cases operation with
  | none => rfl
  | some o => exact congrArg some (h o rfl).withoutNulls_eq_self

theorem PathItem.Orderly.withoutNulls_eq_self {item : PathItem}
    (h : item.Orderly fun value => value.isNull = false) : item.withoutNulls = item := by
  have hsame : ∀ verb, (item.operation? verb).map Operation.withoutNulls = item.operation? verb :=
    fun verb => withoutNulls_operation (h verb)
  obtain ⟨get, post, put, patch, delete, options, head⟩ := item
  rw [withoutNulls, mk.injEq]
  exact ⟨hsame .get, hsame .post, hsame .put, hsame .patch, hsame .delete, hsame .options,
    hsame .head⟩

theorem Orderly.withoutNulls_eq_self {d : Document}
    (h : d.Orderly fun value => value.isNull = false) : d.withoutNulls = d := by
  have hpaths : (d.paths.map fun entry => (entry.1, entry.2.withoutNulls)) = d.paths := by
    refine Json.map_eq_self.mpr fun entry hentry => ?_
    rw [(h.paths entry hentry).withoutNulls_eq_self]
  have hdefinitions :
      (d.definitions.map fun entry => (entry.1, entry.2.withoutNulls)) = d.definitions := by
    refine Json.map_eq_self.mpr fun entry hentry => ?_
    rw [(h.definitions entry hentry).withoutNulls_eq_self]
  rw [withoutNulls, hpaths, hdefinitions]

/-- A document that has been read of a value is read as it is when it is written again. -/
theorem ofDatum?_toJson_of_ofDatum? {value : Json} {d : Document}
    (h : Document.ofDatum? (Datum.ofJson value) = some d) :
    Document.ofDatum? (Datum.ofJson d.toJson) = some d := by
  have horderly := orderly_of_ofDatum? ⟨value, rfl⟩ h
  rw [ofDatum?_toJson (horderly.imp fun _ hp => hp.1),
    (horderly.imp fun _ hp => hp.2).withoutNulls_eq_self]

def ofStatus : Operation :=
  { summary := "Tells the status."
    security := [[("Bearer", [])]]
    tags := ["status"]
    id := "status"
    consumes := ["application/json"]
    produces := ["application/json"]
    parameters := [{ name := "id", place := "path", required := true, type := some "string" }]
    responses := [("204", ⟨"No Content", .withExample "object" .null⟩)] }

def ofNull : Document :=
  { swagger := "2.0"
    info := { version := "1", title := "Status" }
    securityDefinitions := [("Bearer", ⟨"apiKey", "Authorization", "header"⟩)]
    tags := ["status"]
    paths := [("/status", { get := some ofStatus })]
    definitions := [("Status", .withExample "object" (.object [("id", .nat 1)]))] }

theorem orderly_ofStatus : ofStatus.Orderly Json.Settled := by
  refine ⟨by simp [ofStatus, Table.Sorted], ?_, List.pairwise_singleton _ _, ?_⟩
  · intro p hp
    obtain rfl := List.mem_singleton.mp hp
    constructor <;> simp
  · intro entry hentry
    obtain rfl := List.mem_singleton.mp hentry
    exact Schema.orderly_withExample (show Json.Settled .null from rfl) "object"

theorem orderly_ofNull : ofNull.Orderly Json.Settled := by
  refine ⟨List.pairwise_singleton _ _, List.pairwise_singleton _ _, ?_,
    List.pairwise_singleton _ _, ?_⟩
  · intro entry hentry verb operation hoperation
    obtain rfl := List.mem_singleton.mp hentry
    cases verb <;> simp only [PathItem.operation?, reduceCtorEq] at hoperation
    obtain rfl := Option.some.inj hoperation
    exact orderly_ofStatus
  · intro entry hentry
    obtain rfl := List.mem_singleton.mp hentry
    exact Schema.orderly_withExample
      (show Json.Settled (.object [("id", .nat 1)]) from rfl) "object"

theorem read_again_ofNull :
    Document.ofDatum? (Datum.ofJson ofNull.toJson) = some ofNull.withoutNulls ∧
      Document.ofDatum? (Datum.ofJson ofNull.withoutNulls.toJson) = some ofNull.withoutNulls :=
  ⟨ofDatum?_toJson orderly_ofNull, ofDatum?_toJson_of_ofDatum? (ofDatum?_toJson orderly_ofNull)⟩

end Document

end ApiContract
