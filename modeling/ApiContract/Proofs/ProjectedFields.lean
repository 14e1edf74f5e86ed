import ApiContract.Example.Projection
import ApiContract.Proofs.SettledValues

namespace ApiContract

namespace Members

theorem names_insert (members : Members) (name : String) (value : Json) :
    (members.insert name value).names =
      if name ∈ members.names then members.names else members.names ++ [name] := by
  induction members with
  | nil => rfl
  | cons first rest ih =>
    obtain ⟨key, other⟩ := first
    rw [insert]
    by_cases hkey : key = name
    · simp [hkey, names]
    · have hnames : ∀ members : Members, names ((key, other) :: members) = key :: names members :=
        fun _ => rfl
      rw [if_neg hkey, hnames, ih, hnames]
      by_cases hname : name ∈ names rest <;> simp [hname, Ne.symm hkey]

/-- Members that are written one after the other stand in the order in which their names first
come. -/
theorem names_foldl_insert {α : Type} (name : α → String) (value : α → Json) (xs : List α)
    (members : Members) :
    (xs.foldl (fun result x => result.insert (name x) (value x)) members).names =
      members.names ++ ((xs.map name).filter fun n => n ∉ members.names).eraseDups := by
  induction xs generalizing members with
  | nil => exact (List.append_nil _).symm
  | cons x xs ih =>
    rw [List.foldl_cons, ih, names_insert, List.map_cons]
    by_cases hx : name x ∈ members.names
    · rw [if_pos hx, List.filter_cons_of_neg (by simpa using hx)]
    · have hlater : ((xs.map name).filter fun n => n ∉ members.names ++ [name x]) =
          ((xs.map name).filter fun n => n ∉ members.names).filter fun n => !n == name x := by
        rw [List.filter_filter]
        congr 1
        funext n
        by_cases hn : n = name x <;> simp [hn]
      rw [if_neg hx, List.filter_cons_of_pos (by simpa using hx), List.eraseDups_cons, hlater,
        List.append_assoc, List.singleton_append]

end Members

def Json.restrict (names : List String) : Json → Json
  | .object members => .object (members.filter fun member => member.1 ∈ names)
  | value => value

/-- Two values say the same under each of these names. -/
def Json.AgreeOn (names : List String) (value other : Json) : Prop :=
  ∀ name ∈ names, value.get? name = other.get? name

theorem Json.agreeOn_restrict (names : List String) (value : Json) :
    AgreeOn names (value.restrict names) value := by
  intro name hname
  cases value with
  | object members =>
    rw [restrict, get?, get?]
    induction members with
    | nil => rfl
    | cons member members ih =>
      obtain ⟨key, value⟩ := member
      by_cases hkey : name = key
      · subst hkey
        rw [List.filter_cons_of_pos (by simpa using hname)]
        simp [Members.get?]
      · have hother : ∀ members : Members,
            Members.get? ((key, value) :: members) name = members.get? name := by
          intro members
          have hbeq : (name == key) = false := by simpa using hkey
          rw [Members.get?, List.lookup_cons, hbeq]
          rfl
        rw [hother, ← ih, List.filter_cons]
        split
        · exact hother _
        · rfl
  | _ => rfl

def Struct.shown (s : Struct) : List Field := s.fields.filter fun f => !f.marks.skip

def Struct.keys (s : Struct) : List String := s.shown.flatMap fun f => [f.name, f.written]

/-- No field of a transformer takes in an instance of this model as a whole. -/
structure Struct.Selects (s : Struct) (model : Option String) : Prop where
  named : s.form = .named
  not_flat : ∀ f ∈ s.shown, f.marks.flatten = false
  not_model : ∀ f ∈ s.shown, ∀ m ∈ model, Name.short f.type.name ≠ Name.short m

namespace Transformers

variable {s : Struct} {model : Option String}

theorem holdsModel_eq_false {f : Field} (h : ∀ m ∈ model, Name.short f.type.name ≠ Name.short m) :
    holdsModel f model = false := by
  cases model with
  | none => rfl
  | some m =>
    have hshort : Name.short f.type.name ≠ Name.short m := h m rfl
    have hname : f.type.name ≠ m := fun heq => hshort (congrArg Name.short heq)
    simp [holdsModel, hshort, hname]

theorem put_of_not_flat {f : Field} (h : f.marks.flatten = false) (result : Members)
    (value : Json) : put result f value = result.insert f.written value := by
  rw [put]
  intro inner hflat
  rw [h] at hflat
  cases hflat

/-- Every field puts its own value under its own name. -/
theorem project_of_selects (structs : Structs) (h : s.Selects model) (item : Json) :
    project structs s model item = .object (s.shown.foldl (fun result f =>
      Members.insert result f.written
        (((item.get? f.name).or (item.get? f.written)).getD (structs.sample f.type))) []) := by
  rw [project, if_pos h.named]
  refine congrArg Json.object (List.foldl_ext _ _ _ fun result f hf => ?_)
  rw [put_of_not_flat (h.not_flat f hf), fieldValue, holdsModel_eq_false (h.not_model f hf)]
  rfl

theorem project_congr (structs : Structs) (h : s.Selects model) {item other : Json}
    (hagree : item.AgreeOn s.keys other) :
    project structs s model item = project structs s model other := by
  rw [project_of_selects structs h, project_of_selects structs h]
  refine congrArg Json.object (List.foldl_ext _ _ _ fun result f hf => ?_)
  have hkeys : ∀ key ∈ [f.name, f.written], key ∈ s.keys :=
    fun key hkey => List.mem_flatMap.mpr ⟨f, hf, hkey⟩
  rw [hagree f.name (hkeys _ List.mem_cons_self),
    hagree f.written (hkeys _ (List.mem_cons_of_mem _ List.mem_cons_self))]

theorem names_project (structs : Structs) (h : s.Selects model) (item : Json) :
    ∃ members, project structs s model item = .object members ∧
      Members.names members = (s.shown.map Field.written).eraseDups := by
  refine ⟨_, project_of_selects structs h item, ?_⟩
  rw [Members.names_foldl_insert]
  simp [Members.names]

theorem render_congr (t : Transformers) {name : String} (hfind : t.structs.find? name = some s)
    (batch : Batch) {items : List Json} (h : batch.items.map (project t.structs s batch.model) =
      items.map (project t.structs s batch.model)) :
    t.render name batch = t.render name { batch with items } := by
  rw [render, render, hfind]
  dsimp only
  rw [h]

/-- The attributes that a transformer does not declare never leak into a body. Items that agree
under the names of its fields are shown alike, so that an item may as well lack all of its other
attributes; and what is shown of an item has the written names of the fields, in order. -/
theorem render_of_agreeing (t : Transformers) {name : String}
    (hfind : t.structs.find? name = some s) (batch : Batch) (hselects : s.Selects batch.model)
    {items : List Json} (hagree : List.Forall₂ (Json.AgreeOn s.keys) batch.items items) :
    t.render name batch = t.render name { batch with items } ∧ t.render name batch =
        t.render name { batch with items := batch.items.map (Json.restrict s.keys) } ∧
      ∀ item ∈ batch.items, ∃ members, project t.structs s batch.model item = .object members ∧
        Members.names members = (s.shown.map Field.written).eraseDups := by
  refine ⟨t.render_congr hfind batch ?_, t.render_congr hfind batch ?_,
    fun item _ => names_project _ hselects item⟩
  · generalize batch.items = given at hagree
    induction hagree with
    | nil => rfl
    | cons hitem _ ih =>
      rw [List.map_cons, List.map_cons, ih, project_congr t.structs hselects hitem]
  · rw [List.map_map]
    refine List.map_congr_left fun item _ => ?_
    exact (project_congr t.structs hselects (Json.agreeOn_restrict s.keys item)).symm

def userResource : Struct where
  name := "crate::resources::UserResource"
  form := .named
  fields :=
    [⟨"id", { name := "u64" }, {}⟩, ⟨"name", { name := "String" }, { rename := some "label" }⟩,
      ⟨"title", { name := "String" }, { rename := some "label" }⟩,
      ⟨"internal", { name := "String" }, { skip := true }⟩]

def showing : Transformers := ⟨[("crate::resources::UserResource", userResource)], some "data"⟩

def withSecrets : Json :=
  .object [("id", .nat 7), ("name", .string "Ada"), ("password", .string "secret"),
    ("internal", .string "x")]

def withoutSecrets : Json := .object [("name", .string "Ada"), ("id", .nat 7)]

theorem render_withSecrets : userResource.Selects (some "crate::models::User") ∧
    withSecrets.AgreeOn userResource.keys withoutSecrets ∧
    showing.render "UserResource" ⟨[withSecrets], some "crate::models::User", true, true⟩ =
      showing.render "UserResource" ⟨[withoutSecrets], some "crate::models::User", true, true⟩ ∧
    ∃ members, project showing.structs userResource (some "crate::models::User") withSecrets =
        .object members ∧
      Members.names members = ["id", "label"] := by
  have hselects : userResource.Selects (some "crate::models::User") := by
    have hmodel :
        ∀ f ∈ userResource.shown, Name.short f.type.name ≠ Name.short "crate::models::User" := by
      decide
    refine ⟨rfl, by decide, fun f hf m hm => ?_⟩
    cases hm
    exact hmodel f hf
  have hkeys : userResource.keys = ["id", "id", "name", "label", "title", "label"] := by decide
  have hagree : withSecrets.AgreeOn userResource.keys withoutSecrets := by
    simp only [Json.AgreeOn, hkeys, List.forall_mem_cons]
    exact ⟨rfl, rfl, rfl, rfl, rfl, rfl, fun _ hm => absurd hm List.not_mem_nil⟩
  have hfind : showing.structs.find? "UserResource" = some userResource := rfl
  obtain ⟨hrender, -, hnames⟩ := showing.render_of_agreeing hfind
    ⟨[withSecrets], some "crate::models::User", true, true⟩ hselects (.cons hagree .nil)
  exact ⟨hselects, hagree, hrender, hnames withSecrets List.mem_cons_self⟩

end Transformers

end ApiContract
