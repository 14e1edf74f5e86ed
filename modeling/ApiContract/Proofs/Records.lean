import ApiContract.Datum.Record
import ApiContract.Document.Encode
import ApiContract.Proofs.SettledValues
import ApiContract.Proofs.Table

namespace ApiContract

open Json

theorem Table.ofList_of_sorted {α : Type} {table : Table α} (h : table.Sorted) :
    ofList table = table := by
  apply (sorted_ofList table).ext h
  intro key
  have hlast : ∀ value, get? table key = some value → get? (ofList table) key = some value := by
    intro value hget
    obtain ⟨before, after, rfl⟩ := List.append_of_mem (mem_of_get? hget)
    refine get?_ofList before after value fun hafter => ?_
    obtain ⟨-, hrest, -⟩ := List.pairwise_append.mp h
    obtain ⟨entry, hentry, rfl⟩ := List.mem_map.mp hafter
    exact String.lt_irrefl _ ((List.pairwise_cons.mp hrest).1 entry hentry)
  cases hget : get? table key with
  | some value => exact hlast value hget
  | none =>
    rw [get?_ofList_reverse]
    cases hreverse : get? table.reverse key with
    | none => rfl
    | some value =>
      cases hget.symm.trans (h.get?_of_mem (List.mem_reverse.mp (mem_of_get? hreverse)))

theorem Table.mem_of_mem_ofList {α : Type} {entries : List (String × α)} {entry : String × α}
    (h : entry ∈ ofList entries) : entry ∈ entries := by
  have hget := (sorted_ofList entries).get?_of_mem h
  rw [get?_ofList_reverse] at hget
  exact List.mem_reverse.mp (mem_of_get? hget)

namespace Members

@[simp] theorem get?_cons (entry : String × Json) (rest : Members) (name : String) :
    get? (entry :: rest) name = if name = entry.1 then some entry.2 else get? rest name :=
  Table.get?_cons entry rest name

@[simp] theorem get?_append (members more : Members) (name : String) :
    get? (members ++ more) name = (get? members name).or (get? more name) :=
  List.lookup_append

@[simp] theorem get?_whenSome {α : Type} (written name : String) (encode : α → Json)
    (x : Option α) :
    get? (whenSome written encode x) name = if name = written then x.map encode else none := by
  cases x with
  | none => exact (ite_self none).symm
  | some x => rw [whenSome, get?_cons, get?_nil, Option.map_some]

@[simp] theorem get?_whenText (written name text : String) :
    get? (whenText written text) name =
      if name = written then if text.isEmpty then none else some (.string text) else none := by
  rw [whenText]
  split
  · exact (ite_self none).symm
  · rw [get?_cons, get?_nil]

@[simp] theorem get?_whenAny {α : Type} (written name : String) (encode : α → Json)
    (items : List α) : get? (whenAny written encode items) name =
      if name = written then if items.isEmpty then none else some (Json.ofList encode items)
      else none := by
  rw [whenAny]
  split
  · exact (ite_self none).symm
  · rw [get?_cons, get?_nil]

/-- The members have some of these names, in this order. -/
def Follows (members : Members) (names : List String) : Prop := members.names.Sublist names

theorem Follows.append {members more : Members} {names later : List String}
    (h : members.Follows names) (h' : more.Follows later) :
    Follows (members ++ more) (names ++ later) := by
  rw [Follows, Members.names, List.map_append]
  exact List.Sublist.append h h'

theorem follows_given (members : Members) : members.Follows members.names := List.Sublist.refl _

theorem follows_whenSome {α : Type} (name : String) (encode : α → Json) (x : Option α) :
    (whenSome name encode x).Follows [name] := by
  cases x with
  | none => exact List.nil_sublist _
  | some x => exact List.Sublist.refl _

theorem follows_whenText (name text : String) : (whenText name text).Follows [name] := by
  rw [whenText]
  split
  · exact List.nil_sublist _
  · exact List.Sublist.refl _

theorem follows_whenAny {α : Type} (name : String) (encode : α → Json) (items : List α) :
    (whenAny name encode items).Follows [name] := by
  rw [whenAny]
  split
  · exact List.nil_sublist _
  · exact List.Sublist.refl _

end Members

def Record.ofMembers (members : Members) : Record :=
  ⟨false, members.map fun entry => (entry.1, Datum.ofJson entry.2)⟩

namespace Datum

theorem knownFields?_ofMembers {known : List String} {members : Members}
    (h : ∀ name ∈ members.names, name ∈ known) : knownFields? known (ofMembers members) =
    some (members.map fun entry => (entry.1, ofJson entry.2)) := by
  induction members with
  | nil => rfl
  | cons entry rest ih =>
    have hfirst : known.contains entry.1 = true :=
      List.contains_iff_mem.mpr (h _ List.mem_cons_self)
    have hrest := ih fun name hm => h name (List.mem_cons_of_mem _ hm)
    rw [ofMembers, knownFields?, hrest]
    exact congrArg some (if_pos hfirst)

theorem record?_object {known : List String} {members : Members} (h : members.Follows known)
    (hknown : known.Nodup) :
    (ofJson (.object members)).record? known = some (.ofMembers members) := by
  have hnames : ((members.map fun entry => (entry.1, ofJson entry.2)).map Prod.fst).Nodup := by
    rw [List.map_map]
    exact hknown.sublist h
  rw [ofJson, record?, knownFields?_ofMembers fun name hm => h.subset hm]
  exact if_pos hnames

end Datum

namespace Record

open Datum

variable {members : Members} {name : String}

theorem get?_ofMembers (members : Members) (name : String) :
    (ofMembers members).get? name = (members.get? name).map ofJson := by
  induction members with
  | nil => rfl
  | cons entry rest ih =>
    have hget : (ofMembers (entry :: rest)).get? name =
        if name = entry.1 then some (ofJson entry.2) else (ofMembers rest).get? name :=
      Table.get?_cons _ _ name
    rw [hget, ih, Members.get?_cons]
    split <;> rfl

section

variable {α β : Type} {encode : α → Json} {read : Datum → Option β} {f : α → β}

theorem required?_ofMembers {value : Json} (h : members.get? name = some value) :
    (ofMembers members).required? name read = read (ofJson value) := by
  rw [required?, get?_ofMembers, h]
  rfl

theorem optional?_absent (h : members.get? name = none) :
    (ofMembers members).optional? name read = some none := by
  rw [optional?, get?_ofMembers, h]
  rfl

theorem optional?_given {value : Json} (h : members.get? name = some value) :
    (ofMembers members).optional? name read = (ofJson value).optional? read := by
  rw [optional?, get?_ofMembers, h]
  rfl

theorem optional?_ofMembers {x : Option α} (h : members.get? name = x.map encode) (hread :
    ∀ y, x = some y → (ofJson (encode y)).missing = false ∧ read (ofJson (encode y)) = some (f y)) :
    (ofMembers members).optional? name read = some (x.map f) := by
  cases x with
  | none => exact optional?_absent h
  | some y =>
    obtain ⟨hmissing, hvalue⟩ := hread y rfl
    rw [optional?_given h, Datum.optional?, hmissing, hvalue]
    rfl

theorem optional?_same {x : Option β} {encode : β → Json} (h : members.get? name = x.map encode)
    (hread : ∀ y, (ofJson (encode y)).missing = false ∧ read (ofJson (encode y)) = some y) :
    (ofMembers members).optional? name read = some x := by
  rw [optional?_ofMembers (f := id) h fun y _ => hread y, Option.map_id]
  rfl

theorem field?_absent {absent : β} (h : members.get? name = none) :
    (ofMembers members).field? name absent read = some absent := by
  rw [field?, get?_ofMembers, h]
  rfl

theorem field?_given {absent : β} {value : Json} (h : members.get? name = some value) :
    (ofMembers members).field? name absent read = read (ofJson value) := by
  rw [field?, get?_ofMembers, h]
  rfl

end

theorem required?_text {text : String} (h : members.get? name = some (.string text)) :
    (ofMembers members).required? name text? = some text :=
  required?_ofMembers h

theorem optional?_text {x : Option String} (h : members.get? name = x.map .string) :
    (ofMembers members).optional? name text? = some x :=
  optional?_same h fun _ => ⟨rfl, rfl⟩

theorem field?_whenText {text : String}
    (h : members.get? name = if text.isEmpty then none else some (.string text)) :
    (ofMembers members).field? name "" text? = some text := by
  split at h
  next hempty => rw [field?_absent h, String.isEmpty_iff.mp hempty]
  next => rw [field?_given h, ofJson, ofText, text?]

end Record

namespace Datum

variable {α β : Type}

theorem mapM_eq_some {read : α → Option β} {xs : List α} {ys : List β} :
    xs.mapM read = some ys ↔ List.Forall₂ (fun x y => read x = some y) xs ys := by
  induction xs generalizing ys with
  | nil =>
    rw [List.mapM_nil, List.forall₂_nil_left_iff]
    exact Option.some_inj.trans eq_comm
  | cons x rest ih =>
    rw [List.mapM_cons, List.forall₂_cons_left_iff]
    simp only [bind, Option.bind_eq_some_iff, ih]
    constructor
    · rintro ⟨y, hy, more, hmore, h⟩
      exact ⟨y, more, hy, hmore, (Option.some.inj h).symm⟩
    · rintro ⟨y, more, hy, hmore, rfl⟩
      exact ⟨y, hy, more, hmore, rfl⟩

theorem mapM_map {γ : Type} {read : α → Option β} {g : γ → α} {f : γ → β} {xs : List γ}
    (h : ∀ x ∈ xs, read (g x) = some (f x)) : (xs.map g).mapM read = some (xs.map f) := by
  rw [mapM_eq_some, List.forall₂_map_left_iff, List.forall₂_map_right_iff, List.forall₂_same]
  exact h

section

variable {encode : α → Json} {read : Datum → Option β} {f : α → β}

theorem listOf?_ofList {items : List α} (h : ∀ x ∈ items, read (ofJson (encode x)) = some (f x)) :
    listOf? read (ofJson (Json.ofList encode items)) = some (items.map f) := by
  rw [Json.ofList, ofJson, ofItems_eq, List.map_map]
  exact mapM_map h

theorem pairsOf?_ofTable {table : Table α}
    (h : ∀ entry ∈ table, read (ofJson (encode entry.2)) = some (f entry.2)) :
    pairsOf? read (ofJson (Json.ofTable encode table)) =
      some (table.map fun entry => (entry.1, f entry.2)) := by
  rw [Json.ofTable, ofJson, ofMembers_eq, List.map_map]
  refine mapM_map fun entry hm => ?_
  simp [ofText, text?, h entry hm]

theorem sorted_map {table : Table α} (h : table.Sorted) (f : α → β) :
    Table.Sorted (table.map fun entry => (entry.1, f entry.2)) :=
  List.pairwise_map.mpr h

theorem tableOf?_ofTable {table : Table α} (hsorted : table.Sorted)
    (h : ∀ entry ∈ table, read (ofJson (encode entry.2)) = some (f entry.2)) :
    tableOf? read (ofJson (Json.ofTable encode table)) =
      some (table.map fun entry => (entry.1, f entry.2)) := by
  rw [tableOf?, pairsOf?_ofTable h, Option.map_some, Table.ofList_of_sorted (sorted_map hsorted f)]

end

theorem field?_whenAny {encode : α → Json} {read : Datum → Option β} {f : α → β} {members : Members}
    {name : String} {items : List α}
    (h : members.get? name = if items.isEmpty then none else some (Json.ofList encode items))
    (hread : ∀ x ∈ items, read (ofJson (encode x)) = some (f x)) :
    (Record.ofMembers members).field? name [] (listOf? read) = some (items.map f) := by
  split at h
  next hempty => rw [Record.field?_absent h, List.isEmpty_iff.mp hempty, List.map_nil]
  next => rw [Record.field?_given h, listOf?_ofList hread]

section

variable {encode : α → Json} {read : Datum → Option α}

theorem listOf?_same {items : List α} (h : ∀ x ∈ items, read (ofJson (encode x)) = some x) :
    listOf? read (ofJson (Json.ofList encode items)) = some items := by
  rw [listOf?_ofList (f := id) h, List.map_id]

theorem tableOf?_same {table : Table α} (hsorted : table.Sorted)
    (h : ∀ entry ∈ table, read (ofJson (encode entry.2)) = some entry.2) :
    tableOf? read (ofJson (Json.ofTable encode table)) = some table := by
  rw [tableOf?_ofTable (f := id) hsorted h]
  exact congrArg some (List.map_id table)

theorem field?_whenAny_same {members : Members} {name : String} {items : List α}
    (h : members.get? name = if items.isEmpty then none else some (Json.ofList encode items))
    (hread : ∀ x, read (ofJson (encode x)) = some x) :
    (Record.ofMembers members).field? name [] (listOf? read) = some items := by
  rw [field?_whenAny (f := id) h fun x _ => hread x, List.map_id]

end

theorem listOf?_ofTexts (items : List String) :
    listOf? text? (ofJson (Json.ofTexts items)) = some items :=
  listOf?_same fun _ _ => rfl

theorem field?_texts {members : Members} {name : String} {items : List String}
    (h : members.get? name = if items.isEmpty then none else some (Json.ofList .string items)) :
    (Record.ofMembers members).field? name [] (listOf? text?) = some items :=
  field?_whenAny_same h fun _ => rfl

/-- What a list, a map or a record is taken apart into. -/
inductive Part (d : Datum) : Datum → Prop where
  | item {items : List Datum} {x : Datum} (hitems : d.items? = some items) (hx : x ∈ items) :
      Part d x
  | entry {entries : List (Datum × Datum)} {x : Datum × Datum}
      (hentries : d.entries? = some entries) (hx : x ∈ entries) : Part d x.2
  | field {known : List String} {r : Record} {name : String} {x : Datum}
      (hr : d.record? known = some r) (hx : (name, x) ∈ r.fields) : Part d x

theorem sizeOf_lt_of_items? {items : List Datum} {x : Datum} (hx : x ∈ items) :
    (d : Datum) → d.items? = some items → sizeOf x < sizeOf d
  | scalar s, h => by
    simp only [items?] at h
    split at h
    · cases h
      cases hx
    · cases h
  | list positional all, h => by
    obtain rfl := Option.some.inj h
    have := List.sizeOf_lt_of_mem hx
    simp only [list.sizeOf_spec]
    omega
  | map _, h => by cases h
  | tagged inner, h => by
    have := sizeOf_lt_of_items? hx inner (by simpa [items?] using h)
    simp only [tagged.sizeOf_spec]
    omega

theorem Part.sizeOf_lt {d x : Datum} (h : d.Part x) : sizeOf x < sizeOf d := by
  cases h with
  | item hitems hx => exact sizeOf_lt_of_items? hx d hitems
  | entry hentries hx => exact sizeOf_lt_of_entries? hx d hentries
  | field hr hx => exact sizeOf_lt_of_record? hx d hr

theorem exists_of_mapM {γ : Type} {read : γ → Option β} {xs : List γ} {ys : List β}
    (h : xs.mapM read = some ys) {y : β} (hy : y ∈ ys) : ∃ x ∈ xs, read x = some y := by
  rw [mapM_eq_some] at h
  induction h with
  | nil => cases hy
  | cons hfirst _ ih =>
    obtain rfl | hy := List.mem_cons.mp hy
    · exact ⟨_, List.mem_cons_self, hfirst⟩
    · obtain ⟨x, hx, hread⟩ := ih hy
      exact ⟨x, List.mem_cons_of_mem _ hx, hread⟩

section

variable {d : Datum} {read : Datum → Option α}

theorem exists_part_of_listOf? {xs : List α} (h : listOf? read d = some xs) :
    ∀ y ∈ xs, ∃ x, d.Part x ∧ read x = some y := by
  obtain ⟨items, hitems, hread⟩ := Option.bind_eq_some_iff.mp h
  intro y hy
  obtain ⟨x, hx, hread⟩ := exists_of_mapM hread hy
  exact ⟨x, .item hitems hx, hread⟩

theorem exists_part_of_pairsOf? {pairs : List (String × α)} (h : pairsOf? read d = some pairs) :
    ∀ pair ∈ pairs, ∃ x, d.Part x ∧ read x = some pair.2 := by
  obtain ⟨entries, hentries, hread⟩ := Option.bind_eq_some_iff.mp h
  intro pair hpair
  obtain ⟨entry, hentry, hread⟩ := exists_of_mapM hread hpair
  obtain ⟨name, -, hread⟩ := Option.bind_eq_some_iff.mp hread
  obtain ⟨y, hy, hread⟩ := Option.bind_eq_some_iff.mp hread
  obtain rfl := Option.some.inj hread
  exact ⟨entry.2, .entry hentries hentry, hy⟩

theorem exists_part_of_tableOf? {table : Table α} (h : tableOf? read d = some table) :
    table.Sorted ∧ ∀ entry ∈ table, ∃ x, d.Part x ∧ read x = some entry.2 := by
  obtain ⟨pairs, hpairs, rfl⟩ := Option.map_eq_some_iff.mp h
  refine ⟨Table.sorted_ofList pairs, fun entry hentry => ?_⟩
  exact exists_part_of_pairsOf? hpairs entry (Table.mem_of_mem_ofList hentry)

variable {known : List String} {r : Record} (hr : d.record? known = some r) {name : String}
include hr

theorem exists_part_of_required? {y : α} (h : r.required? name read = some y) :
    ∃ x, d.Part x ∧ read x = some y := by
  obtain ⟨x, hx, hread⟩ := Option.bind_eq_some_iff.mp h
  exact ⟨x, .field hr (Record.mem_of_get? hx), hread⟩

theorem exists_part_of_field? {absent y : α} (h : r.field? name absent read = some y) :
    y = absent ∨ ∃ x, d.Part x ∧ read x = some y := by
  rw [Record.field?] at h
  split at h
  next x hx => exact .inr ⟨x, .field hr (Record.mem_of_get? hx), h⟩
  next => exact .inl (Option.some.inj h).symm

theorem exists_part_of_optional? {o : Option α} (h : r.optional? name read = some o) :
    ∀ y, o = some y → ∃ x, d.Part x ∧ x.missing = false ∧ read x = some y := by
  rintro y rfl
  rw [Record.optional?] at h
  split at h
  next x hx =>
    rw [optional?] at h
    split at h
    · cases h
    next hmissing =>
      obtain ⟨z, hread, hz⟩ := Option.map_eq_some_iff.mp h
      obtain rfl := Option.some.inj hz
      exact ⟨x, .field hr (Record.mem_of_get? hx), eq_false_of_ne_true hmissing, hread⟩
  next => split at h <;> cases h

end

def IsJson (d : Datum) : Prop := ∃ value, d = ofJson value

theorem mem_of_knownFields? {known : List String} {entries : List (Datum × Datum)}
    {fields : List (String × Datum)} (h : knownFields? known entries = some fields)
    {field : String × Datum} (hm : field ∈ fields) : ∃ entry ∈ entries, entry.2 = field.2 := by
  induction entries generalizing fields with
  | nil =>
    cases h
    cases hm
  | cons entry rest ih =>
    obtain ⟨name, -, h⟩ := Option.bind_eq_some_iff.mp h
    obtain ⟨more, hmore, h⟩ := Option.bind_eq_some_iff.mp h
    have hrest : field ∈ more → ∃ other ∈ entry :: rest, other.2 = field.2 := by
      intro hm
      obtain ⟨other, hother, he⟩ := ih hmore hm
      exact ⟨other, List.mem_cons_of_mem _ hother, he⟩
    obtain rfl := Option.some.inj h
    split at hm
    · obtain rfl | hm := List.mem_cons.mp hm
      · exact ⟨entry, List.mem_cons_self, rfl⟩
      · exact hrest hm
    · exact hrest hm

theorem IsJson.part {d x : Datum} (h : d.IsJson) (hx : d.Part x) : x.IsJson := by
  have hmembers : ∀ members : Members, ∀ entry ∈ ofMembers members, IsJson entry.2 := by
    intro members entry hentry
    rw [ofMembers_eq] at hentry
    obtain ⟨member, -, rfl⟩ := List.mem_map.mp hentry
    exact ⟨member.2, rfl⟩
  have hitems : ∀ items : List Json, ∀ item ∈ ofItems items, IsJson item := by
    intro items item hitem
    rw [ofItems_eq] at hitem
    obtain ⟨value, -, rfl⟩ := List.mem_map.mp hitem
    exact ⟨value, rfl⟩
  obtain ⟨value, rfl⟩ := h
  cases hx with
  | item hparts hx =>
    cases value with
    | array items =>
      cases hparts
      exact hitems items x hx
    | null | bool | number | string | object => cases hparts
  | entry hparts hx =>
    cases value with
    | object members =>
      cases hparts
      exact hmembers members _ hx
    | null | bool | number | string | array => cases hparts
  | field hr hx =>
    cases value with
    | object members =>
      obtain ⟨fields, hfields, hr⟩ := Option.bind_eq_some_iff.mp hr
      split at hr
      · cases hr
        obtain ⟨entry, hentry, rfl⟩ := mem_of_knownFields? hfields hx
        exact hmembers members entry hentry
      · cases hr
    | array items =>
      rw [ofJson, record?] at hr
      split at hr
      · cases hr
        exact hitems items x (List.of_mem_zip hx).2
      · cases hr
    | null | bool | number | string => cases hr

end Datum

end ApiContract
