import ApiContract.Proofs.ProjectedFields
import ApiContract.Proofs.Table

namespace ApiContract

theorem Members.get?_insert_of_ne (members : Members) {name other : String} (h : other ≠ name)
    (value : Json) : (members.insert name value).get? other = members.get? other := by
  induction members with
  | nil => exact (Table.get?_cons (name, value) [] other).trans (if_neg h)
  | cons entry rest ih =>
    obtain ⟨key, old⟩ := entry
    have hcons : ∀ (value : Json) (rest : Members),
        get? ((key, value) :: rest) other = if other = key then some value else rest.get? other :=
      fun value rest => Table.get?_cons (key, value) rest other
    rw [insert]
    by_cases hkey : key = name
    · rw [if_pos hkey, hcons, hcons, if_neg (hkey ▸ h), if_neg (hkey ▸ h)]
    · rw [if_neg hkey, hcons, hcons, ih]

namespace Transformers

def pageNames : List String := ["links", "meta"]

def pageLinks : Json :=
  .object
    [("first", .string "/?page=1"), ("last", .string "/?page=1"), ("prev", .null), ("next", .null)]

def position (items : List Json) (n : Nat) : Json := if items.isEmpty then .null else .nat n

def pageNumbers (items : List Json) : Json :=
  .object [("current_page", .nat 1), ("from", position items 1), ("last_page", .nat 1),
    ("path", .string "/"), ("per_page", .nat pageSize), ("to", position items items.length),
    ("total", .nat items.length)]

theorem page_eq (items : List Json) (key : String) :
    page items key = .object ((Members.insert [(key, .array items)] "links" pageLinks).insert "meta"
        (pageNumbers items)) :=
  rfl

theorem get?_page_meta (items : List Json) (key : String) :
    (page items key).get? "meta" = some (pageNumbers items) := by
  rw [page_eq, Json.get?, Members.get?_insert_self]

/-- A page has its items under its key, as long as no other member of it goes by that name. -/
theorem get?_page_iff (items : List Json) (key : String) :
    (page items key).get? key = some (.array items) ↔ key ∉ pageNames := by
  rw [pageNames, List.mem_cons, List.mem_singleton, not_or]
  by_cases hmeta : key = "meta"
  · subst hmeta
    simp [get?_page_meta, pageNumbers]
  rw [page_eq, Json.get?, Members.get?_insert_of_ne _ hmeta]
  by_cases hlinks : key = "links"
  · subst hlinks
    simp [Members.get?_insert_self, pageLinks]
  rw [Members.get?_insert_of_ne _ hlinks]
  simp [hmeta, hlinks, Members.get?]

/-- What an envelope holds. Without a name the content is the body itself. -/
def content? (wrap : Option String) (body : Json) : Option Json :=
  match wrap with
  | some key => body.get? key
  | none => some body

theorem content?_envelope (wrap : Option String) (content : Json) :
    content? wrap (envelope wrap content) = some content := by
  cases wrap with
  | none => rfl
  | some key => simp [content?, envelope, Json.get?, Members.get?]

def Counts (items : List Json) (body : Json) : Prop :=
  ∃ numbers, body.get? "meta" = some numbers ∧ numbers.get? "total" = some (.nat items.length) ∧
    numbers.get? "to" = some (if items = [] then .null else .nat items.length) ∧
      numbers.get? "from" = some (if items = [] then .null else .nat 1)

theorem counts_page (items : List Json) (key : String) : Counts items (page items key) := by
  refine ⟨pageNumbers items, get?_page_meta items key, rfl, ?_, ?_⟩
  all_goals cases items <;> rfl

/-- What can be read off the body that shows a batch, given what the transformer makes of its
items. -/
structure Holds (wrap : Option String) (batch : Batch) (items : List Json) (body : Json) :
    Prop where
  page : batch.paginated = true →
    (body.get? (wrap.getD "data") = some (.array items) ↔ wrap.getD "data" ∉ pageNames)
  counts : batch.paginated = true → Counts items body
  collection :
      batch.paginated = false → batch.collection = true → content? wrap body = some (.array items)
  single : batch.paginated = false → batch.collection = false →
    ∃ first rest, items = first :: rest ∧ content? wrap body = some first

section

variable {s : Struct} (t : Transformers) {name : String} (hfind : t.structs.find? name = some s)
  {batch : Batch}

include hfind

theorem render_of_page (hpage : batch.paginated = true) : t.render name batch =
    .ok (page (batch.items.map (project t.structs s batch.model)) (t.wrap.getD "data")) := by
  rw [render, hfind]
  exact if_pos hpage

theorem render_of_collection (hpage : batch.paginated = false)
    (hcollection : batch.collection = true) : t.render name batch =
    .ok (envelope t.wrap (.array (batch.items.map (project t.structs s batch.model)))) := by
  rw [render, hfind]
  simp [hpage, hcollection]

theorem render_of_single (hpage : batch.paginated = false) (hcollection : batch.collection = false)
    {first : Json} {rest : List Json} (hitems : batch.items = first :: rest) :
    t.render name batch = .ok (envelope t.wrap (project t.structs s batch.model first)) := by
  rw [render, hfind]
  simp [hpage, hcollection, hitems]

theorem render_of_nothing (hpage : batch.paginated = false) (hcollection : batch.collection = false)
    (hitems : batch.items = []) :
    t.render name batch = .error (.exampleUnavailable name "no instance to render") := by
  rw [render, hfind]
  simp [hpage, hcollection, hitems]

theorem exists_render_iff : (∃ body, t.render name batch = .ok body) ↔
    batch.paginated = true ∨ batch.collection = true ∨ batch.items ≠ [] := by
  cases hpage : batch.paginated with
  | true => exact iff_of_true ⟨_, t.render_of_page hfind hpage⟩ (.inl rfl)
  | false =>
    cases hcollection : batch.collection with
    | true =>
      exact iff_of_true ⟨_, t.render_of_collection hfind hpage hcollection⟩ (.inr (.inl rfl))
    | false =>
      cases hitems : batch.items with
      | cons first rest =>
        exact iff_of_true ⟨_, t.render_of_single hfind hpage hcollection hitems⟩ (.inr (.inr nofun))
      | nil =>
        rw [t.render_of_nothing hfind hpage hcollection hitems]
        simp

end

/-- No item is lost in an envelope. Pages and collections hold all items in order, a single body
holds the first one, and the configured name leads to them unless a page itself has a member of that
name. -/
theorem render_holds (t : Transformers) {name : String} {s : Struct}
    (hfind : t.structs.find? name = some s) (batch : Batch) :
    ((∃ body, t.render name batch = .ok body) ↔
        batch.paginated = true ∨ batch.collection = true ∨ batch.items ≠ []) ∧
      ∀ body, t.render name batch = .ok body →
        Holds t.wrap batch (batch.items.map (project t.structs s batch.model)) body := by
  refine ⟨t.exists_render_iff hfind, fun body hbody =>
      ⟨fun hpage => ?_, fun hpage => ?_, fun hpage hcollection => ?_, fun hpage hcollection => ?_⟩⟩
  · rw [t.render_of_page hfind hpage] at hbody
    obtain rfl := Except.ok.inj hbody
    exact get?_page_iff _ _
  · rw [t.render_of_page hfind hpage] at hbody
    obtain rfl := Except.ok.inj hbody
    exact counts_page _ _
  · rw [t.render_of_collection hfind hpage hcollection] at hbody
    obtain rfl := Except.ok.inj hbody
    exact content?_envelope _ _
  · cases hitems : batch.items with
    | nil => cases hbody.symm.trans (t.render_of_nothing hfind hpage hcollection hitems)
    | cons first rest =>
      rw [t.render_of_single hfind hpage hcollection hitems] at hbody
      obtain rfl := Except.ok.inj hbody
      exact ⟨_, _, List.map_cons, content?_envelope _ _⟩

/-- A page of two items. -/
theorem render_holds_users : showing.structs.find? "UserResource" = some userResource ∧ ∃ body,
      showing.render "UserResource" ⟨[withSecrets, withoutSecrets], none, true, true⟩ = .ok body ∧
        body.get? "data" = some (.array [project showing.structs userResource none withSecrets,
            project showing.structs userResource none withoutSecrets]) := by
  have hfind : showing.structs.find? "UserResource" = some userResource := rfl
  obtain ⟨hsucceeds, hholds⟩ :=
    showing.render_holds hfind ⟨[withSecrets, withoutSecrets], none, true, true⟩
  obtain ⟨body, hbody⟩ := hsucceeds.mpr (.inl rfl)
  exact ⟨hfind, body, hbody, ((hholds body hbody).page rfl).mpr (by decide)⟩

/-- Where the configured name is that of the links, the items of a page are nowhere under it. -/
theorem not_items_of_links :
    ¬ ∀ (t : Transformers) (name : String) (s : Struct) (batch : Batch) (body : Json),
      t.structs.find? name = some s → t.render name batch = .ok body → batch.paginated = true →
        body.get? (t.wrap.getD "data") =
          some (.array (batch.items.map (project t.structs s batch.model))) := by
  intro h
  have hitems := h { showing with wrap := some "links" } "UserResource" userResource
    ⟨[withSecrets], none, true, true⟩ _
    rfl rfl rfl
  exact absurd ((get?_page_iff _ _).mp hitems) (by decide)

end Transformers

end ApiContract
