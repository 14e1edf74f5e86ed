import ApiContract.Datum.Basic

namespace ApiContract

/-- The fields that a datum has. Where they are given by place alone, the last ones may be
absent. -/
structure Record where
  byPlace : Bool
  fields : List (String × Datum)

namespace Record

def get? (r : Record) (name : String) : Option Datum := List.lookup name r.fields

def field? {α : Type} (r : Record) (name : String) (absent : α) (read : Datum → Option α) :
    Option α :=
  match r.get? name with
  | some d => read d
  | none => some absent

def required? {α : Type} (r : Record) (name : String) (read : Datum → Option α) : Option α :=
  (r.get? name).bind read

/-- A field that may be left out, or say that there is nothing. Only a record by name can leave it
out. -/
def optional? {α : Type} (r : Record) (name : String) (read : Datum → Option α) :
    Option (Option α) :=
  match r.get? name with
  | some d => d.optional? read
  | none => if r.byPlace then none else some none

theorem mem_of_get? {r : Record} {name : String} {d : Datum} (h : r.get? name = some d) :
    (name, d) ∈ r.fields := by
  obtain ⟨before, after, hs, _⟩ := List.lookup_eq_some_iff.1 h
  simp [hs]

/-- The same, where the reading has to know that it reads a field of this record. -/
def part? {α : Type} (r : Record) (name : String)
    (read : (d : Datum) → (name, d) ∈ r.fields → Option α) : Option (Option α) :=
  match h : r.get? name with
  | some d => if d.missing then some none else (read d (mem_of_get? h)).map some
  | none => if r.byPlace then none else some none

end Record

namespace Datum

def knownFields? (known : List String) : List (Datum × Datum) → Option (List (String × Datum))
  | [] => some []
  | (key, d) :: rest => do
    let name ← key.text?
    let fields ← knownFields? known rest
    return if known.contains name then (name, d) :: fields else fields

/-- A record with some of the known fields, none of them twice. Other fields are ignored. -/
def record? (known : List String) : Datum → Option Record
  | scalar s => if s.hollow then some ⟨false, []⟩ else none
  | list positional items =>
    if positional && items.length ≤ known.length then some ⟨true, known.zip items⟩ else none
  | map entries => do
    let fields ← knownFields? known entries
    if (fields.map Prod.fst).Nodup then return ⟨false, fields⟩ else none
  | tagged d => d.record? known

theorem sizeOf_lt_of_mem_knownFields? {known : List String} {entries : List (Datum × Datum)}
    {fields : List (String × Datum)} (h : knownFields? known entries = some fields) {name : String}
    {d : Datum} (hd : (name, d) ∈ fields) : sizeOf d < sizeOf entries := by
  induction entries generalizing fields with
  | nil => simp [knownFields?] at h; subst h; simp at hd
  | cons entry rest ih =>
    obtain ⟨key, value⟩ := entry
    simp only [knownFields?, Option.bind_eq_bind, Option.bind_eq_some_iff, Option.pure_def,
      Option.some.injEq] at h
    obtain ⟨written, _, more, hmore, rfl⟩ := h
    simp only [List.cons.sizeOf_spec, Prod.mk.sizeOf_spec]
    split at hd
    · rcases List.mem_cons.1 hd with he | hm
      · cases he; omega
      · have := ih hmore hm; omega
    · have := ih hmore hd; omega

theorem sizeOf_lt_of_record? {known : List String} {r : Record} {name : String} {x : Datum}
    (hx : (name, x) ∈ r.fields) : (d : Datum) → d.record? known = some r → sizeOf x < sizeOf d
  | scalar s, h => by
    simp only [record?] at h
    split at h
    · cases h; simp at hx
    · cases h
  | list positional items, h => by
    simp only [record?] at h
    split at h
    · cases h
      have := List.sizeOf_lt_of_mem (List.of_mem_zip hx).2
      simp only [list.sizeOf_spec]; omega
    · cases h
  | map entries, h => by
    simp only [record?, Option.bind_eq_bind, Option.bind_eq_some_iff] at h
    obtain ⟨fields, hf, h⟩ := h
    split at h
    · cases h
      have := sizeOf_lt_of_mem_knownFields? hf hx
      simp only [map.sizeOf_spec]; omega
    · cases h
  | tagged inner, h => by
    have := sizeOf_lt_of_record? hx inner (by simpa [record?] using h)
    simp only [tagged.sizeOf_spec]; omega

theorem sizeOf_lt_of_entries? {entries : List (Datum × Datum)} {entry : Datum × Datum}
    (hx : entry ∈ entries) : (d : Datum) → d.entries? = some entries → sizeOf entry.2 < sizeOf d
  | scalar s, h => by
    simp only [entries?] at h
    split at h
    · cases h; simp at hx
    · cases h
  | list _ _, h => by simp [entries?] at h
  | map all, h => by
    simp only [entries?, Option.some.injEq] at h
    subst h
    have := List.sizeOf_lt_of_mem hx
    obtain ⟨key, value⟩ := entry
    simp only [map.sizeOf_spec, Prod.mk.sizeOf_spec] at this ⊢; omega
  | tagged inner, h => by
    have := sizeOf_lt_of_entries? hx inner (by simpa [entries?] using h)
    simp only [tagged.sizeOf_spec]; omega
def pairsWithin? {α : Type} (d : Datum) (read : (x : Datum) → sizeOf x < sizeOf d → Option α) :
    Option (List (String × α)) :=
  match h : d.entries? with
  | some entries => entries.attach.mapM fun ⟨(key, value), hm⟩ => do
      return (← key.text?, ← read value (sizeOf_lt_of_entries? hm d h))
  | none => none

end Datum

end ApiContract
