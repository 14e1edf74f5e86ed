import ApiContract.Proofs.Assembled
import Mathlib.Data.List.Nodup

namespace ApiContract

theorem Text.suffix?_eq_some {ending s front : List Char} :
    suffix? ending s = some front ↔ s = front ++ ending := by
  rw [suffix?]
  constructor
  · intro h
    split at h
    next hsuffix =>
      obtain ⟨before, rfl⟩ := List.isSuffixOf_iff_suffix.mp hsuffix
      have hfront : before = front := by simpa using h
      rw [hfront]
    next => cases h
  · rintro rfl
    have hsuffix : ending.isSuffixOf (front ++ ending) = true :=
      List.isSuffixOf_iff_suffix.mpr ⟨front, rfl⟩
    rw [if_pos hsuffix]
    simp

namespace Uri

/-- A segment in braces is the placeholder of the name that they hold; these are the names of a
path, in order. -/
inductive Named : List String → List String → Prop where
  | nil : Named [] []
  | placeholder (name : String) {segments names : List String} (h : Named segments names) :
    Named (("\x7b" ++ name ++ "\x7d") :: segments) (name :: names)
  | plain {segment : String} (hplain : ∀ name, segment ≠ "\x7b" ++ name ++ "\x7d")
      {segments names : List String} (h : Named segments names) : Named (segment :: segments) names

theorem placeholder?_eq_some {segment name : List Char} :
    placeholder? segment = some name ↔ segment = braced name := by
  match segment with
  | [] => simp [placeholder?, braced]
  | c :: rest =>
    by_cases hc : c = '{'
    · subst hc
      rw [placeholder?, Text.suffix?_eq_some, braced]
      simp
    · simp [placeholder?, braced, hc]

theorem toList_inBraces (name : String) :
    ("\x7b" ++ name ++ "\x7d").toList = braced name.toList := by
  rw [String.toList_append, String.toList_append]
  rfl

theorem named_placeholders (uri : String) : Named (Text.split '/' uri) (placeholders uri) := by
  rw [Text.split, placeholders]
  induction Text.cutAt '/' uri.toList with
  | nil => exact .nil
  | cons segment segments ih =>
    cases hname : placeholder? segment with
    | some name =>
      have hsegment : String.ofList segment = "\x7b" ++ String.ofList name ++ "\x7d" := by
        rw [placeholder?_eq_some.mp hname, ← String.toList_inj, toList_inBraces]
        simp
      rw [List.map_cons, hsegment, List.filterMap_cons_some hname, List.map_cons]
      exact .placeholder _ ih
    | none =>
      rw [List.map_cons, List.filterMap_cons_none hname]
      refine .plain (fun name hsegment => ?_) ih
      have hbraced : segment = braced name.toList := by
        rw [← toList_inBraces, ← hsegment, String.toList_ofList]
      rw [placeholder?_eq_some.mpr hbraced] at hname
      cases hname

end Uri

namespace Rules

theorem name_applyRule (field : FieldRules) (rule : Rule) :
    (applyRule field rule).name = field.name := by
  unfold applyRule
  split <;> rfl

theorem name_fieldOf (name : String) (tokens : List String) :
    (fieldOf name tokens).name = name := by
  have hfold : ∀ (rules : List Rule) (field : FieldRules),
      (rules.foldl applyRule field).name = field.name := by
    intro rules
    induction rules with
    | nil => exact fun _ => rfl
    | cons rule rules ih => exact fun field => (ih _).trans (name_applyRule field rule)
  exact hfold _ _

def KeepsName (name : String) (change : Option FieldRules → FieldRules) : Prop :=
  (change none).name = name ∧ ∀ field, field.name = name → (change (some field)).name = name

/-- A field that is there keeps its place, and any other one comes last. -/
theorem names_update {name : String} {change : Option FieldRules → FieldRules}
    (h : KeepsName name change) (fields : List FieldRules) :
    let names := fields.map FieldRules.name
    name ∈ names ∧ (update fields name change).map FieldRules.name = names ∨
      name ∉ names ∧ (update fields name change).map FieldRules.name = names ++ [name] := by
  induction fields with
  | nil => exact .inr ⟨List.not_mem_nil, congrArg (fun n => [n]) h.1⟩
  | cons field rest ih =>
    rw [update]
    by_cases hname : field.name = name
    · rw [if_pos hname, List.map_cons, List.map_cons, h.2 field hname, hname]
      exact .inl ⟨List.mem_cons_self, rfl⟩
    · rw [if_neg hname, List.map_cons, List.map_cons]
      obtain ⟨hold, heq⟩ | ⟨hnew, heq⟩ := ih
      · exact .inl ⟨List.mem_cons_of_mem _ hold, by rw [heq]⟩
      · exact .inr
          ⟨List.not_mem_cons_of_ne_of_not_mem (Ne.symm hname) hnew, by rw [heq, List.cons_append]⟩

theorem nodup_names_update {name : String} {change : Option FieldRules → FieldRules}
    (h : KeepsName name change) {fields : List FieldRules}
    (hnodup : (fields.map FieldRules.name).Nodup) :
    ((update fields name change).map FieldRules.name).Nodup := by
  obtain ⟨-, heq⟩ | ⟨hnew, heq⟩ := names_update h fields
  · rw [heq]
    exact hnodup
  · rw [heq, ← List.concat_eq_append]
    exact hnodup.concat hnew

theorem nodup_names_addEntry {fields : List FieldRules}
    (hnodup : (fields.map FieldRules.name).Nodup) (entry : String × List String) :
    ((addEntry fields entry).map FieldRules.name).Nodup := by
  unfold addEntry
  split
  next owner _ =>
    apply nodup_names_update _ hnodup
    exact ⟨rfl, fun field hfield => hfield⟩
  next =>
    apply nodup_names_update _ hnodup
    exact ⟨name_fieldOf _ _, fun field _ => name_fieldOf _ _⟩

/-- However a rule set is laid out, each of its fields is there once. -/
theorem nodup_names_interpret (rules : Json) : ((interpret rules).map FieldRules.name).Nodup := by
  have hfold : ∀ (entries : List (String × List String)) (fields : List FieldRules),
      (fields.map FieldRules.name).Nodup →
        ((entries.foldl addEntry fields).map FieldRules.name).Nodup := by
    intro entries
    induction entries with
    | nil => exact fun _ h => h
    | cons entry entries ih => exact fun fields h => ih _ (nodup_names_addEntry h entry)
  exact hfold _ [] .nil

end Rules

def Schema.RequiresProperties (schema : Schema) : Prop :=
  ∀ required, schema.required = some required → required ≠ [] ∧ required.Nodup ∧
    ∃ properties, schema.properties = some properties ∧ required ⊆ properties.map Prod.fst

namespace Document

def TakesBody (verb : Verb) : Prop := verb = .post ∨ verb = .put ∨ verb = .patch

/-- What a request is given beside its path. -/
inductive Parameter.Request (verb : Verb) : List Parameter → Prop where
  | nothing : Request verb []
  | body {p : Parameter} (hverb : TakesBody verb) (hplace : p.place = "body") : Request verb [p]
  | query {parameters : List Parameter} (hverb : ¬ TakesBody verb) (hne : parameters ≠ [])
      (hplaces : ∀ p ∈ parameters, p.place = "query") : Request verb parameters

/-- The name of a parameter, and where it travels. -/
def Parameter.slot (p : Parameter) : String × String := (p.name, p.place)

/-- The parameters of an operation on a path: those of the path, and those of the request. -/
structure Parameter.Arranged (uri : String) (verb : Verb) (path request : List Parameter) :
    Prop where
  named : Uri.Named (Text.split '/' uri) (path.map Parameter.name)
  inPath : ∀ p ∈ path, p.place = "path" ∧ p.required = true
  given : Parameter.Request verb request
  nodup : (path.map Parameter.name).Nodup → ((path ++ request).map Parameter.slot).Nodup
  required :
      ∀ p ∈ request, p.place = "body" → ∃ schema, p.schema = some schema ∧ schema.RequiresProperties

def Arranged (d : Document) : Prop :=
  ∀ uri verb operation, d.operation? uri verb = some operation → ∃ path request,
      operation.parameters = path ++ request ∧ Parameter.Arranged uri verb path request

namespace Parameter

variable {verb : Verb} {fields : List FieldRules}

theorem takesBody_iff : TakesBody verb ↔ verb.hasBody = true := by
  cases verb <;> simp [TakesBody, Verb.hasBody]

theorem ofRequest_cases (verb : Verb) (fields : List FieldRules) :
    fields = [] ∧ ofRequest verb fields = [] ∨
      fields ≠ [] ∧ TakesBody verb ∧ ofRequest verb fields = [body fields] ∨
      fields ≠ [] ∧ ¬ TakesBody verb ∧ ofRequest verb fields = fields.map query := by
  rw [takesBody_iff, ofRequest]
  cases fields with
  | nil => exact .inl ⟨rfl, rfl⟩
  | cons field fields =>
    have hne : field :: fields ≠ [] := List.cons_ne_nil field fields
    cases hbody : verb.hasBody with
    | true => exact .inr (.inl ⟨hne, rfl, rfl⟩)
    | false => exact .inr (.inr ⟨hne, Bool.false_ne_true, rfl⟩)

theorem request_ofRequest (verb : Verb) (fields : List FieldRules) :
    Request verb (ofRequest verb fields) := by
  obtain ⟨-, heq⟩ | ⟨-, hverb, heq⟩ | ⟨hne, hverb, heq⟩ := ofRequest_cases verb fields
  · exact heq ▸ .nothing
  · exact heq ▸ .body hverb rfl
  · rw [heq]
    refine .query hverb (by simpa using hne) fun p hp => ?_
    obtain ⟨field, -, rfl⟩ := List.mem_map.mp hp
    rfl

theorem place_ne_path {p : Parameter} (h : p ∈ ofRequest verb fields) : p.place ≠ "path" := by
  have hgiven := request_ofRequest verb fields
  generalize ofRequest verb fields = request at h hgiven
  cases hgiven with
  | nothing => cases h
  | body _ hplace =>
    obtain rfl := List.mem_singleton.mp h
    rw [hplace]
    decide
  | query _ _ hplaces =>
    rw [hplaces p h]
    decide

theorem nodup_slots_ofRequest (hnodup : (fields.map FieldRules.name).Nodup) :
    ((ofRequest verb fields).map slot).Nodup := by
  obtain ⟨-, heq⟩ | ⟨-, -, heq⟩ | ⟨-, -, heq⟩ := ofRequest_cases verb fields
  · exact heq ▸ .nil
  · exact heq ▸ List.nodup_singleton _
  · rw [heq, List.map_map]
    refine List.Nodup.of_map Prod.fst ?_
    rw [List.map_map]
    exact hnodup

/-- A body requires some of its fields, and has a property for each of them. -/
theorem requiresProperties_body (hnodup : (fields.map FieldRules.name).Nodup) :
    ∃ schema, (body fields).schema = some schema ∧ schema.RequiresProperties := by
  refine ⟨_, rfl, fun required hrequired => ?_⟩
  obtain ⟨hne, rfl⟩ : ¬ ((fields.filter fun f => f.required).map FieldRules.name).isEmpty = true ∧
      (fields.filter fun f => f.required).map FieldRules.name = required := by
    simpa using hrequired
  refine ⟨by simpa using hne, hnodup.sublist (List.filter_sublist.map _), _, rfl,
    fun name hname => ?_⟩
  obtain ⟨field, hfield, rfl⟩ := List.mem_map.mp hname
  have hkey : field.name ∈ (fields.map fun f => (f.name, property f)).map Prod.fst := by
    rw [List.map_map]
    exact List.mem_map_of_mem ((List.mem_filter.mp hfield).1)
  obtain ⟨value, hvalue, -⟩ := Table.exists_get?_ofList hkey
  exact (Table.mem_keys _ _).mpr ⟨value, hvalue⟩

end Parameter

end Document

namespace Endpoint

variable (structs : Structs) (keyField : String) (e : Endpoint)

theorem names_pathParameters :
    (e.pathParameters structs keyField).map Document.Parameter.name = Uri.placeholders e.uri := by
  rw [pathParameters, List.map_map]
  exact List.map_id _

end Endpoint

namespace Assembler

variable (a : Assembler)

theorem nodup_names_rulesOf (e : Endpoint) : ((a.rulesOf e).map FieldRules.name).Nodup := by
  have hvalidator :
      ∀ name fields, a.lookupRules name = .ok fields → (fields.map FieldRules.name).Nodup := by
    intro name fields h
    unfold lookupRules at h
    cases hfound : a.analyzer.analyze name with
    | error f =>
      rw [hfound] at h
      cases h
    | ok found =>
      rw [hfound, Except.bind] at h
      split at h
      next rules _ =>
        cases h
        exact Rules.nodup_names_interpret rules
      next => cases h
  rw [rulesOf]
  cases houtcome : a.requestOutcome e with
  | error f => exact .nil
  | ok fields =>
    unfold requestOutcome at houtcome
    split at houtcome
    · cases houtcome
      exact Rules.nodup_names_interpret _
    · exact hvalidator _ _ houtcome
    · split at houtcome
      · exact hvalidator _ _ houtcome
      · cases houtcome
        exact .nil

theorem arranged_operationOf (e : Endpoint) :
    Document.Parameter.Arranged e.uri e.verb (e.pathParameters a.structs a.config.handlers.keyField)
      (Document.Parameter.ofRequest e.verb (a.rulesOf e)) where
  named := by
    rw [Endpoint.names_pathParameters]
    exact Uri.named_placeholders e.uri
  inPath := by
    intro p hp
    obtain ⟨name, -, rfl⟩ := List.mem_map.mp hp
    exact ⟨rfl, rfl⟩
  given := Document.Parameter.request_ofRequest e.verb (a.rulesOf e)
  nodup := by
    intro hnames
    rw [List.map_append]
    refine List.Nodup.append ?_
      (Document.Parameter.nodup_slots_ofRequest (a.nodup_names_rulesOf e)) ?_
    · refine List.Nodup.of_map Prod.fst ?_
      rw [List.map_map]
      exact hnames
    · -- what is in the path is not what comes with the request
      intro slot hpath hrequest
      obtain ⟨p, hp, rfl⟩ := List.mem_map.mp hpath
      obtain ⟨q, hq, hslot⟩ := List.mem_map.mp hrequest
      obtain ⟨name, -, rfl⟩ := List.mem_map.mp hp
      exact Document.Parameter.place_ne_path hq (congrArg Prod.snd hslot)
  required := by
    intro p hp hplace
    obtain ⟨-, heq⟩ | ⟨-, -, heq⟩ | ⟨-, -, heq⟩ :=
      Document.Parameter.ofRequest_cases e.verb (a.rulesOf e)
    · rw [heq] at hp
      cases hp
    · rw [heq] at hp
      obtain rfl := List.mem_singleton.mp hp
      exact Document.Parameter.requiresProperties_body (a.nodup_names_rulesOf e)
    · rw [heq] at hp
      obtain ⟨field, -, rfl⟩ := List.mem_map.mp hp
      have hquery : (Document.Parameter.query field).place = "query" := rfl
      rw [hquery] at hplace
      exact absurd hplace (by decide)

/-- The parameters of every operation of every document are arranged. -/
theorem assemble_arranged (routes : List Route) : (a.assemble routes).1.Arranged := by
  intro uri verb operation hoperation
  obtain ⟨e, -, rfl, rfl, rfl⟩ := (a.operation?_eq_some routes uri verb operation).mp hoperation
  exact ⟨_, _, rfl, a.arranged_operationOf e⟩

end Assembler

end ApiContract
