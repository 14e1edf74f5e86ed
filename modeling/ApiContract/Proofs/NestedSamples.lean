import ApiContract.Proofs.FieldSamples
import ApiContract.Proofs.ProjectedFields
import ApiContract.Proofs.Records
import ApiContract.Proofs.StructNames
import Mathlib.Data.Set.Finite.Lemmas

namespace ApiContract

namespace Primitive

theorem keyword?_of_mem_colon {name : String} (h : ':' ∈ name.toList) : keyword? name = none := by
  have hother : ∀ names : List String,
      (∀ other ∈ names, ':' ∉ other.toList) → names.contains name = false := by
    intro names hnames
    rw [List.contains_eq_mem, decide_eq_false_iff_not]
    exact fun hname => hnames name hname h
  have hbool : name ≠ "bool" := by
    rintro rfl
    exact absurd h (by decide)
  rw [keyword?, hother _ (by decide), hother _ (by decide), hother _ (by decide)]
  simp [hbool]

theorem isObject_sample (keyword : String) : (sample keyword).isObject = false := by
  rw [sample]
  split
  · rfl
  split
  · rfl
  split <;> rfl

end Primitive

theorem Json.exists_members {value : Json} (h : value.isObject = true) :
    ∃ members, value = .object members := by
  cases value with
  | object members => exact ⟨members, rfl⟩
  | _ => cases h

def FieldType.item (type : FieldType) : FieldType := { type with optional := false, list := false }

namespace Structs

theorem keyword?_of_mem_ofFiles {files : List ParsedFile} {name : String} {s : Struct}
    (h : (name, s) ∈ ofFiles files) : Primitive.keyword? name = none := by
  obtain ⟨declared, hdeclared, hentry⟩ := List.mem_map.mp (Table.mem_of_mem_ofList h)
  obtain ⟨rfl, rfl⟩ := Prod.mk.inj hentry
  obtain ⟨scope, -, hscope⟩ := List.mem_flatMap.mp hdeclared
  obtain ⟨item, -, hitem⟩ := List.mem_filterMap.mp hscope
  split at hitem
  next own fields _ =>
    obtain rfl := Option.some.inj hitem
    refine Primitive.keyword?_of_mem_colon ?_
    rw [name_ofFields]
    simp
  next => cases hitem

variable (structs : Structs)

/-- The struct whose members a value of the type has. -/
def record? (type : FieldType) : Option Struct :=
  if type.list || (Primitive.keyword? type.name).isSome then none
  else (structs.find? type.name).filter fun s => s.form = .named

variable {structs} {type : FieldType} {s : Struct} {depth : Nat}

theorem record?_eq_some : structs.record? type = some s ↔ type.list = false ∧
      Primitive.keyword? type.name = none ∧ structs.find? type.name = some s ∧ s.form = .named := by
  rw [record?]
  split
  next h =>
    simp only [reduceCtorEq, false_iff]
    rintro ⟨hlist, hkeyword, -⟩
    simp [hlist, hkeyword] at h
  next h =>
    obtain ⟨hlist, hkeyword⟩ : type.list = false ∧ Primitive.keyword? type.name = none := by
      simpa using h
    simp [Option.filter_eq_some_iff, hlist, hkeyword]

theorem sampleOf_record (h : structs.record? type = some s) (inner : FieldType → Json) :
    structs.sampleOf (some inner) type =
      .object (Members.ofList (s.shown.map fun f => (f.written, inner f.type))) := by
  obtain ⟨-, hkeyword, hfind, hform⟩ := record?_eq_some.mp h
  obtain ⟨name, form, fields⟩ := s
  obtain rfl : form = .named := hform
  unfold sampleOf
  rw [hkeyword, hfind]
  rfl

theorem sampleOf_unknown (hkeyword : Primitive.keyword? type.name = none)
    (h : structs.record? type.item = none) (inner : Option (FieldType → Json)) :
    structs.sampleOf inner type = .null := by
  unfold sampleOf
  rw [hkeyword]
  dsimp only
  split
  next hfind => exact absurd h (by simp [record?, FieldType.item, hkeyword, hfind])
  next => rfl

theorem sampleOf_none (hkeyword : Primitive.keyword? type.name = none) :
    structs.sampleOf none type = .null := by
  unfold sampleOf
  rw [hkeyword]
  dsimp only
  split
  next hinner => cases hinner
  next => rfl

theorem sampleOf_of_record?_none (h : structs.record? type.item = none)
    (inner : Option (FieldType → Json)) :
    structs.sampleOf inner type = structs.sampleOf none type := by
  cases hkeyword : Primitive.keyword? type.name with
  | some keyword =>
    rw [structs.sampleOf_primitive inner hkeyword, structs.sampleOf_primitive none hkeyword]
  | none => rw [sampleOf_unknown hkeyword h, sampleOf_none hkeyword]

theorem isObject_sampleOf_none : (structs.sampleOf none type).isObject = false := by
  cases hkeyword : Primitive.keyword? type.name with
  | some keyword =>
    rw [structs.sampleOf_primitive none hkeyword]
    exact Primitive.isObject_sample keyword
  | none =>
    rw [sampleOf_none hkeyword]
    rfl

theorem record?_item (hlist : type.list = false) :
    structs.record? type.item = structs.record? type := by
  simp [record?, FieldType.item, hlist]

theorem sampleWithin_of_list (hlist : type.list = true) :
    structs.sampleWithin (depth + 1) type = .array [structs.sampleWithin depth type.item] := by
  rw [sampleWithin, if_pos hlist]
  rfl

theorem sampleWithin_zero_of_list (hlist : type.list = true) :
    structs.sampleWithin 0 type = .array [structs.sampleOf none type.item] := by
  rw [sampleWithin, hlist]
  rfl

theorem sampleWithin_of_record (h : structs.record? type = some s) :
    structs.sampleWithin (depth + 1) type = .object
        (Members.ofList (s.shown.map fun f => (f.written, structs.sampleWithin depth f.type))) := by
  have hlist : type.list = false := (record?_eq_some.mp h).1
  rw [sampleWithin, hlist, if_neg Bool.false_ne_true, sampleOf_record h]

theorem sampleWithin_of_none (hlist : type.list = false) (h : structs.record? type = none) :
    structs.sampleWithin depth type = structs.sampleOf none type := by
  rw [← record?_item hlist] at h
  cases depth with
  | zero => simp [sampleWithin, hlist]
  | succ depth => rw [sampleWithin, hlist, if_neg Bool.false_ne_true, sampleOf_of_record?_none h]

variable (structs)

/-- Whether a type has its whole sample within a depth: no struct in it lies so deep that it is left
out. -/
def fits : Nat → FieldType → Bool
  | 0, type => (structs.record? type.item).isNone
  | depth + 1, type =>
    if type.list then fits depth type.item
    else (structs.record? type).all fun s => s.shown.all fun f => fits depth f.type

/-- A field whose struct is to be merged into the one around it. -/
def merges (f : Field) : Bool := f.marks.flatten && (structs.record? f.type).isSome

def unmerged : Nat → FieldType → Bool
  | 0, _ => true
  | depth + 1, type =>
    if type.list then unmerged depth type.item
    else (structs.record? type).all fun s =>
      s.shown.all fun f => !structs.merges f && unmerged depth f.type

variable {structs}

theorem fits_of_record (h : structs.record? type = some s) :
    structs.fits (depth + 1) type = true ↔ ∀ f ∈ s.shown, structs.fits depth f.type = true := by
  have hlist : type.list = false := (record?_eq_some.mp h).1
  simp [fits, hlist, h]

theorem unmerged_of_record (h : structs.record? type = some s) :
    structs.unmerged (depth + 1) type = true ↔
      ∀ f ∈ s.shown, structs.merges f = false ∧ structs.unmerged depth f.type = true := by
  have hlist : type.list = false := (record?_eq_some.mp h).1
  simp [unmerged, hlist, h]

theorem fits_succ (h : structs.fits depth type = true) : structs.fits (depth + 1) type = true := by
  induction depth generalizing type with
  | zero =>
    have hitem : structs.record? type.item = none := by simpa [fits] using h
    cases hlist : type.list with
    | true =>
      rw [fits, if_pos hlist]
      exact h
    | false => simp [fits, hlist, record?_item hlist ▸ hitem]
  | succ depth ih =>
    cases hlist : type.list with
    | true =>
      rw [fits, if_pos hlist] at h ⊢
      exact ih h
    | false =>
      cases hrecord : structs.record? type with
      | none => simp [fits, hlist, hrecord]
      | some s =>
        rw [fits_of_record hrecord] at h ⊢
        exact fun f hf => ih (h f hf)

/-- A whole sample stays the same at every greater depth. -/
theorem sampleWithin_of_fits (h : structs.fits depth type = true) {more : Nat}
    (hle : depth ≤ more) : structs.sampleWithin depth type = structs.sampleWithin more type := by
  induction depth generalizing type more with
  | zero =>
    have hitem : structs.record? type.item = none := by simpa [fits] using h
    cases hlist : type.list with
    | false =>
      have hnone := record?_item hlist ▸ hitem
      rw [sampleWithin_of_none hlist hnone, sampleWithin_of_none hlist hnone]
    | true =>
      cases more with
      | zero => rfl
      | succ more =>
        have hsame : structs.sampleWithin more type.item = structs.sampleOf none type.item :=
          sampleWithin_of_none rfl hitem
        rw [sampleWithin_zero_of_list hlist, sampleWithin_of_list hlist, hsame]
  | succ depth ih =>
    obtain ⟨more, rfl⟩ : ∃ n, more = n + 1 := ⟨more - 1, by omega⟩
    have hle : depth ≤ more := Nat.le_of_succ_le_succ hle
    cases hlist : type.list with
    | true =>
      rw [fits, if_pos hlist] at h
      rw [sampleWithin_of_list hlist, sampleWithin_of_list hlist, ih h hle]
    | false =>
      cases hrecord : structs.record? type with
      | none => rw [sampleWithin_of_none hlist hrecord, sampleWithin_of_none hlist hrecord]
      | some s =>
        rw [fits_of_record hrecord] at h
        rw [sampleWithin_of_record hrecord, sampleWithin_of_record hrecord]
        refine congrArg (fun entries => Json.object (Members.ofList entries))
          (List.map_congr_left fun f hf => ?_)
        rw [ih (h f hf) hle]

theorem sample_of_record (h : structs.record? type = some s)
    (hfits : structs.fits depthLimit type = true) : structs.sample type =
    .object (Members.ofList (s.shown.map fun f => (f.written, structs.sample f.type))) := by
  rw [depthLimit, fits_of_record h] at hfits
  rw [sample, depthLimit, sampleWithin_of_record h]
  refine congrArg (fun entries => Json.object (Members.ofList entries))
    (List.map_congr_left fun f hf => ?_)
  rw [sampleWithin_of_fits (hfits f hf) (Nat.le_succ 3)]
  rfl

theorem isObject_sampleWithin (depth : Nat) (h : structs.record? type = none) :
    (structs.sampleWithin depth type).isObject = false := by
  cases hlist : type.list with
  | false =>
    rw [sampleWithin_of_none hlist h]
    exact isObject_sampleOf_none
  | true =>
    cases depth with
    | zero =>
      rw [sampleWithin_zero_of_list hlist]
      rfl
    | succ depth =>
      rw [sampleWithin_of_list hlist]
      rfl

theorem isObject_sample : (structs.sample type).isObject = (structs.record? type).isSome := by
  cases hrecord : structs.record? type with
  | none => exact isObject_sampleWithin depthLimit hrecord
  | some s =>
    rw [sample, depthLimit, sampleWithin_of_record hrecord]
    rfl

theorem merges_iff {f : Field} :
    structs.merges f = true ↔ f.marks.flatten = true ∧ (structs.sample f.type).isObject = true := by
  rw [merges, Bool.and_eq_true, isObject_sample]

end Structs

namespace Transformers

theorem put_of_not_object (result : Members) (f : Field) {value : Json}
    (h : value.isObject = false) : put result f value = result.insert f.written value := by
  rw [put]
  rintro inner -
  rintro rfl
  cases h

variable {structs : Structs} {s : Struct}

theorem put_sample (result : Members) {f : Field} (h : structs.merges f = false) (depth : Nat) :
    put result f (structs.sampleWithin depth f.type) =
      result.insert f.written (structs.sampleWithin depth f.type) := by
  cases hflat : f.marks.flatten with
  | false => exact put_of_not_flat hflat result _
  | true =>
    have hrecord : structs.record? f.type = none := by simpa [Structs.merges, hflat] using h
    exact put_of_not_object result f (Structs.isObject_sampleWithin depth hrecord)

theorem project_nothing (hform : s.form = .named) : project structs s none (.object []) =
    .object (s.shown.foldl (fun result f => put result f (structs.sample f.type)) []) := by
  rw [project, if_pos hform]
  rfl

theorem foldl_put_sample {fields : List Field} (depth : Nat)
    (h : ∀ f ∈ fields, structs.merges f = false) :
    fields.foldl (fun result f => put result f (structs.sampleWithin depth f.type)) [] =
      Members.ofList (fields.map fun f => (f.written, structs.sampleWithin depth f.type)) := by
  rw [Members.ofList, List.foldl_map]
  exact List.foldl_ext _ _ _ fun result f hf => put_sample result (h f hf) depth

end Transformers

/-- The written form of a type whose lists have one element and whose primitives are samples. A
field that is to be merged has its members in the struct around it, at every level. -/
inductive Structs.Written (structs : Structs) : FieldType → Json → Prop where
  | list {type : FieldType} {item : Json} (hlist : type.list = true)
      (hitem : Written structs type.item item) : Written structs type (.array [item])
  | primitive {type : FieldType} {keyword : String} (hlist : type.list = false)
      (hkeyword : Primitive.keyword? type.name = some keyword) :
      Written structs type (Primitive.sample keyword)
  | record {type : FieldType} {s : Struct} (hrecord : structs.record? type = some s)
      (value : Field → Json) (hvalue : ∀ f ∈ s.shown, Written structs f.type (value f)) :
      Written structs type
        (.object (s.shown.foldl (fun result f => Transformers.put result f (value f)) []))
  | unknown {type : FieldType} (hlist : type.list = false)
      (hkeyword : Primitive.keyword? type.name = none) (hrecord : structs.record? type = none) :
      Written structs type .null

namespace Structs

variable {structs : Structs} {type : FieldType} {s : Struct} {depth : Nat}

theorem written_sampleOf_none (hlist : type.list = false) (h : structs.record? type = none) :
    structs.Written type (structs.sampleOf none type) := by
  cases hkeyword : Primitive.keyword? type.name with
  | some keyword =>
    rw [structs.sampleOf_primitive none hkeyword]
    exact .primitive hlist hkeyword
  | none =>
    rw [sampleOf_none hkeyword]
    exact .unknown hlist hkeyword h

theorem written_sampleWithin (hfits : structs.fits depth type = true)
    (hunmerged : structs.unmerged depth type = true) :
    structs.Written type (structs.sampleWithin depth type) := by
  induction depth generalizing type with
  | zero =>
    have hitem : structs.record? type.item = none := by simpa [fits] using hfits
    cases hlist : type.list with
    | false =>
      have hnone := record?_item hlist ▸ hitem
      rw [sampleWithin_of_none hlist hnone]
      exact written_sampleOf_none hlist hnone
    | true =>
      rw [sampleWithin_zero_of_list hlist]
      exact .list hlist (written_sampleOf_none rfl hitem)
  | succ depth ih =>
    cases hlist : type.list with
    | true =>
      rw [fits, if_pos hlist] at hfits
      rw [unmerged, if_pos hlist] at hunmerged
      rw [sampleWithin_of_list hlist]
      exact .list hlist (ih hfits hunmerged)
    | false =>
      cases hrecord : structs.record? type with
      | none =>
        rw [sampleWithin_of_none hlist hrecord]
        exact written_sampleOf_none hlist hrecord
      | some s =>
        rw [fits_of_record hrecord] at hfits
        rw [unmerged_of_record hrecord] at hunmerged
        rw [sampleWithin_of_record hrecord,
          ← Transformers.foldl_put_sample depth fun f hf => (hunmerged f hf).1]
        exact .record hrecord (fun f => structs.sampleWithin depth f.type) fun f hf =>
          ih (hfits f hf) (hunmerged f hf).2

/-- A type has at most one written form. -/
theorem Written.unique {value other : Json} (h : structs.Written type value)
    (hother : structs.Written type other) : value = other := by
  induction h generalizing other with
  | @list type item hlist hitem ih =>
    cases hother with
    | list _ hitem => rw [ih hitem]
    | primitive hother => cases hlist.symm.trans hother
    | record hrecord => cases hlist.symm.trans (record?_eq_some.mp hrecord).1
    | unknown hother => cases hlist.symm.trans hother
  | @primitive type keyword hlist hkeyword =>
    cases hother with
    | list hother => cases hother.symm.trans hlist
    | primitive _ hother => rw [Option.some.inj (hkeyword.symm.trans hother)]
    | record hrecord => cases hkeyword.symm.trans (record?_eq_some.mp hrecord).2.1
    | unknown _ hother => cases hkeyword.symm.trans hother
  | @record type s hrecord value hvalue ih =>
    cases hother with
    | list hother => cases hother.symm.trans (record?_eq_some.mp hrecord).1
    | primitive _ hother => cases hother.symm.trans (record?_eq_some.mp hrecord).2.1
    | record hother more hmore =>
      obtain rfl := Option.some.inj (hrecord.symm.trans hother)
      refine congrArg Json.object (List.foldl_ext _ _ _ fun result f hf => ?_)
      rw [ih f hf (hmore f hf)]
    | unknown _ _ hother => cases hrecord.symm.trans hother
  | @unknown type hlist hkeyword hrecord =>
    cases hother with
    | list hother => cases hother.symm.trans hlist
    | primitive _ hother => cases hkeyword.symm.trans hother
    | record hother => cases hrecord.symm.trans hother
    | unknown => rfl

end Structs

def Struct.unflattened (s : Struct) : Struct :=
  { s with fields := s.fields.map fun f => { f with marks := { f.marks with flatten := false } } }

theorem Struct.shown_unflattened (s : Struct) : s.unflattened.shown =
    s.shown.map fun f => { f with marks := { f.marks with flatten := false } } := by
  rw [shown, unflattened, List.filter_map]
  rfl

namespace Transformers

variable {structs : Structs} {s : Struct}

theorem project_unflattened (hform : s.form = .named) :
    project structs s.unflattened none (.object []) =
      .object (Members.ofList (s.shown.map fun f => (f.written, structs.sample f.type))) := by
  rw [project_nothing (s := s.unflattened) hform, Struct.shown_unflattened, Members.ofList,
    List.foldl_map, List.foldl_map]
  exact congrArg Json.object (List.foldl_ext _ _ _ fun result f hf => put_of_not_flat rfl result _)

theorem mem_put {result : Members} {f : Field} {value : Json} {entry : String × Json}
    (h : entry ∈ put result f value) :
    entry = (f.written, value) ∧ (f.marks.flatten = true → value.isObject = false) ∨
      (∃ inner, f.marks.flatten = true ∧ value = .object inner ∧ entry ∈ inner) ∨
      entry ∈ result := by
  unfold put at h
  split at h
  next inner hflat =>
    obtain h | h := Members.mem_extend h
    · exact .inr (.inl ⟨inner, hflat, rfl, h⟩)
    · exact .inr (.inr h)
  next hplain =>
    obtain rfl | h := Members.mem_insert h
    · refine .inl ⟨rfl, fun hflat => Bool.eq_false_iff.mpr fun hobject => ?_⟩
      obtain ⟨inner, hinner⟩ := Json.exists_members hobject
      exact hplain inner hflat hinner
    · exact .inr (.inr h)

theorem mem_foldl_put {fields : List Field} {value : Field → Json} {result : Members}
    {entry : String × Json}
    (h : entry ∈ fields.foldl (fun result f => put result f (value f)) result) : (∃ f ∈ fields,
      entry = (f.written, value f) ∧ (f.marks.flatten = true → (value f).isObject = false)) ∨
    (∃ f ∈ fields, ∃ inner, f.marks.flatten = true ∧ value f = .object inner ∧ entry ∈ inner) ∨
    entry ∈ result := by
  induction fields generalizing result with
  | nil => exact .inr (.inr h)
  | cons f fields ih =>
    obtain ⟨g, hg, hentry⟩ | ⟨g, hg, hentry⟩ | hresult := ih h
    · exact .inl ⟨g, List.mem_cons_of_mem _ hg, hentry⟩
    · exact .inr (.inl ⟨g, List.mem_cons_of_mem _ hg, hentry⟩)
    · obtain hentry | hentry | hentry := mem_put hresult
      · exact .inl ⟨f, List.mem_cons_self, hentry⟩
      · exact .inr (.inl ⟨f, List.mem_cons_self, hentry⟩)
      · exact .inr (.inr hentry)

/-- Where the written names are different, a field that is to be merged is found under its own name
only if another such field has it among its members. That one is larger. -/
theorem exists_larger (hnames : (s.shown.map Field.written).Nodup)
    (h : Members.ofList (s.shown.map fun f => (f.written, structs.sample f.type)) =
        s.shown.foldl (fun result f => put result f (structs.sample f.type)) []) {f : Field}
    (hf : f ∈ s.shown) (hmerges : structs.merges f = true) : ∃ g ∈ s.shown,
    structs.merges g = true ∧ sizeOf (structs.sample f.type) < sizeOf (structs.sample g.type) := by
  have hentry : (f.written, structs.sample f.type) ∈
      s.shown.foldl (fun result f => put result f (structs.sample f.type)) [] := by
    rw [← h, Members.ofList_of_nodup (by simpa [Members.names, Function.comp_def] using hnames)]
    exact List.mem_map_of_mem hf
  obtain ⟨g, hg, heq, hplain⟩ | ⟨g, hg, inner, hflat, hvalue, hinner⟩ | hnil := mem_foldl_put hentry
  · obtain rfl := List.inj_on_of_nodup_map hnames hf hg (Prod.mk.inj heq).1
    obtain ⟨hflat, hobject⟩ := Structs.merges_iff.mp hmerges
    exact absurd hobject (by simp [hplain hflat])
  · refine ⟨g, hg, Structs.merges_iff.mpr ⟨hflat, by rw [hvalue]; rfl⟩, ?_⟩
    have hsize := List.sizeOf_lt_of_mem hinner
    rw [hvalue, Json.object.sizeOf_spec]
    rw [Prod.mk.sizeOf_spec] at hsize
    omega
  · cases hnil

/-- There is a largest one among the fields that are to be merged, and so there is none. -/
theorem merges_eq_false (hnames : (s.shown.map Field.written).Nodup)
    (h : Members.ofList (s.shown.map fun f => (f.written, structs.sample f.type)) =
      s.shown.foldl (fun result f => put result f (structs.sample f.type)) []) :
    ∀ f ∈ s.shown, structs.merges f = false := by
  intro f hf
  by_contra hmerges
  let merged : Set Field := {g | g ∈ s.shown ∧ structs.merges g = true}
  have hfinite : merged.Finite := (List.finite_toSet s.shown).subset fun _ hg => hg.1
  obtain ⟨largest, ⟨hlargest, hmerged⟩, hmax⟩ := Set.exists_max_image merged
    (fun g => sizeOf (structs.sample g.type)) hfinite ⟨f, hf, by simpa using hmerges⟩
  obtain ⟨g, hg, hgmerges, hlt⟩ := exists_larger hnames h hlargest hmerged
  exact absurd (hmax g ⟨hg, hgmerges⟩) (Nat.not_le_of_lt hlt)

end Transformers

namespace Structs

open Transformers

theorem written_iff_project {structs : Structs} {type : FieldType} {s : Struct}
    (hrecord : structs.record? type = some s) (hfits : structs.fits depthLimit type = true)
    (hunmerged : ∀ f ∈ s.shown, structs.unmerged depthLimit f.type = true) (value : Json) :
    structs.Written type value ↔ value = project structs s none (.object []) := by
  have hwritten : structs.Written type (project structs s none (.object [])) := by
    rw [project_nothing (record?_eq_some.mp hrecord).2.2.2]
    refine .record hrecord (fun f => structs.sample f.type) fun f hf => ?_
    exact written_sampleWithin (fits_succ ((fits_of_record hrecord).mp hfits f hf)) (hunmerged f hf)
  exact ⟨fun h => h.unique hwritten, fun h => h ▸ hwritten⟩

/-- The sample of a struct that fits is the projection of nothing onto the struct without its marks
for merging. It is the projection onto the struct itself if no field of that is to be merged, and in
no other case as long as the written names are different. That projection is the only written form
if no field of a struct inside is to be merged. -/
theorem sample_eq_project {files : List ParsedFile} {name : String} {s : Struct}
    (hs : (name, s) ∈ ofFiles files) (hform : s.form = .named)
    (hfits : (ofFiles files).fits depthLimit { name } = true) :
    (ofFiles files).sample { name } = project (ofFiles files) s.unflattened none (.object []) ∧
      ((∀ f ∈ s.shown, (ofFiles files).merges f = false) →
        (ofFiles files).sample { name } = project (ofFiles files) s none (.object [])) ∧
      ((s.shown.map Field.written).Nodup →
        (ofFiles files).sample { name } = project (ofFiles files) s none (.object []) →
        ∀ f ∈ s.shown, (ofFiles files).merges f = false) ∧
      ((∀ f ∈ s.shown, (ofFiles files).unmerged depthLimit f.type = true) →
        ∀ value, (ofFiles files).Written { name } value ↔
          value = project (ofFiles files) s none (.object [])) := by
  have hfind : (ofFiles files).find? name = some s := by
    have hlookup : List.lookup name (ofFiles files) = some s :=
      (Table.sorted_ofList _).get?_of_mem hs
    rw [find?, Name.lookup?, hlookup]
  have hrecord : (ofFiles files).record? { name } = some s :=
    record?_eq_some.mpr ⟨rfl, keyword?_of_mem_ofFiles hs, hfind, hform⟩
  have hsample := sample_of_record hrecord hfits
  refine ⟨?_, fun hmerges => ?_, fun hnames heq => ?_, written_iff_project hrecord hfits⟩
  · rw [hsample, project_unflattened hform]
  · rw [hsample, project_nothing hform]
    exact congrArg Json.object (foldl_put_sample depthLimit hmerges).symm
  · rw [hsample, project_nothing hform] at heq
    exact merges_eq_false hnames (Json.object.inj heq)

open Source

def declared (marks : List Token) (name : String) (type : TypeExpr) : FieldDecl :=
  ⟨[⟨.ofIdent "serde", .list marks⟩], name, type⟩

def profileItems : List Item :=
  [.struct [] "Post" (.named [declared [] "title" (.path (.ofIdent "String"))]) [],
    .struct [] "User" (.named [declared [] "id" (.path (.ofIdent "u64")),
      declared [.ident "skip"] "password" (.path (.ofIdent "String")),
      declared [] "posts" (PlainType.applied "Vec" (.path (.ofIdent "Post")))]) [],
    .struct [] "Profile" (.named [declared [.ident "flatten"] "user" (.path (.ofIdent "User")),
      declared [] "kind" (.path (.ofIdent "String"))]) []]

def profileFile : ParsedFile := ⟨"src/models.rs", ["crate", "models"], profileItems⟩

theorem ofFiles_profileFile : ofFiles [profileFile] =
    ofScopes [.ofItems "src/models.rs" ["crate", "models"] profileItems] := by
  simp [ofFiles, Scope.ofFile, Scope.nested, profileFile, profileItems]

theorem evaluated_profileFile : ((ofFiles [profileFile]).any fun entry =>
        entry.1 = "crate::models::User" && entry.2.form = .named &&
          (ofFiles [profileFile]).fits depthLimit { name := "crate::models::User" } &&
          entry.2.shown.all fun f => !(ofFiles [profileFile]).merges f &&
            (ofFiles [profileFile]).unmerged depthLimit f.type) =
      true ∧
    ((ofFiles [profileFile]).any fun entry =>
        entry.1 = "crate::models::Profile" && entry.2.form = .named &&
          (ofFiles [profileFile]).fits depthLimit { name := "crate::models::Profile" } &&
          (((ofFiles [profileFile]).sample { name := "crate::models::Profile" }).get?
            "user").isSome &&
          ((project (ofFiles [profileFile]) entry.2 none (.object [])).get? "user").isNone) =
      true := by
  rw [ofFiles_profileFile]
  decide

/-- The sample of a user, whose posts are not merged. -/
theorem sample_eq_project_user :
    ∃ s, ("crate::models::User", s) ∈ ofFiles [profileFile] ∧ s.form = .named ∧
      (ofFiles [profileFile]).fits depthLimit { name := "crate::models::User" } = true ∧
      (ofFiles [profileFile]).sample { name := "crate::models::User" } =
        project (ofFiles [profileFile]) s none (.object []) ∧
      (ofFiles [profileFile]).Written { name := "crate::models::User" }
        ((ofFiles [profileFile]).sample { name := "crate::models::User" }) := by
  obtain ⟨⟨name, s⟩, hs, hchecked⟩ := List.any_eq_true.mp evaluated_profileFile.1
  simp only [Bool.and_eq_true, decide_eq_true_eq, List.all_eq_true, Bool.not_eq_true'] at hchecked
  obtain ⟨⟨⟨rfl, hform⟩, hfits⟩, hfields⟩ := hchecked
  obtain ⟨-, hequal, -, hwritten⟩ := sample_eq_project hs hform hfits
  have hsame := hequal fun f hf => (hfields f hf).1
  exact ⟨s, hs, hform, hfits, hsame, (hwritten (fun f hf => (hfields f hf).2) _).mpr hsame⟩

/-- A user that is to be merged into a profile is a member of the sample, but not of the
projection. -/
theorem not_sample_eq_project : ¬ ∀ (files : List ParsedFile) (name : String) (s : Struct),
    (name, s) ∈ ofFiles files → s.form = .named → (ofFiles files).fits depthLimit { name } = true →
      (ofFiles files).sample { name } = project (ofFiles files) s none (.object []) := by
  intro h
  obtain ⟨⟨name, s⟩, hs, hchecked⟩ := List.any_eq_true.mp evaluated_profileFile.2
  simp only [Bool.and_eq_true, decide_eq_true_eq] at hchecked
  obtain ⟨⟨⟨⟨rfl, hform⟩, hfits⟩, hsample⟩, hproject⟩ := hchecked
  rw [h [profileFile] _ s hs hform hfits] at hsample
  rw [Option.isNone_iff_eq_none.mp hproject] at hsample
  cases hsample

end Structs

end ApiContract
