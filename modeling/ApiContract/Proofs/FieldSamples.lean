import ApiContract.Struct.Index

namespace ApiContract

open Source

namespace Primitive

/-- The values that a type keyword stands for. Every integer is also a number. -/
def Describes (keyword : String) : Json → Prop
  | .string _ => keyword = "string"
  | .bool _ => keyword = "boolean"
  | .number (.int _) => keyword = "integer" ∨ keyword = "number"
  | .number (.float _) => keyword = "number"
  | .array _ => False
  | .object _ => False
  | .null => False

theorem mem_of_keyword? {name keyword : String} (h : keyword? name = some keyword) :
    keyword ∈ ["string", "number", "boolean", "integer"] := by
  rw [keyword?] at h
  split at h
  · simp [← Option.some.inj h]
  split at h
  · simp [← Option.some.inj h]
  split at h
  · simp [← Option.some.inj h]
  split at h
  · simp [← Option.some.inj h]
  · cases h

theorem describes_sample {name keyword : String} (h : keyword? name = some keyword) :
    Describes keyword (sample keyword) := by
  have hkeyword := mem_of_keyword? h
  simp only [List.mem_cons, List.not_mem_nil, or_false] at hkeyword
  obtain rfl | rfl | rfl | rfl := hkeyword
  · rfl
  · rfl
  · rfl
  · exact .inl rfl

end Primitive

theorem Structs.sampleOf_primitive (structs : Structs) (inner : Option (FieldType → Json))
    {type : FieldType} {keyword : String} (h : Primitive.keyword? type.name = some keyword) :
    structs.sampleOf inner type = Primitive.sample keyword := by
  unfold sampleOf
  rw [h]

/-- Types that are made of primitive types by options and lists. -/
inductive PlainType where
  | primitive (name keyword : String) (h : Primitive.keyword? name = some keyword)
  | option (inside : PlainType)
  | list (inside : PlainType)

namespace PlainType

/-- The ways to write a type. Of a path only the last segment counts, and of its arguments the first
type. -/
inductive Spells : PlainType → TypeExpr → Prop where
  | primitive {name keyword : String} {h : Primitive.keyword? name = some keyword} (rooted : Bool)
      (before : List Segment) :
      Spells (.primitive name keyword h) (.path (.mk rooted (before ++ [.mk name .none])))
  | option {inside : PlainType} {expr : TypeExpr} (h : Spells inside expr) (rooted : Bool)
      (before : List Segment) (more : List GenericArg) : Spells (.option inside)
      (.path (.mk rooted (before ++ [.mk "Option" (.angled (.type expr :: more))])))
  | list {inside : PlainType} {expr : TypeExpr} (h : Spells inside expr) (rooted : Bool)
      (before : List Segment) (more : List GenericArg) : Spells (.list inside)
      (.path (.mk rooted (before ++ [.mk "Vec" (.angled (.type expr :: more))])))
  | reference {type : PlainType} {expr : TypeExpr} (h : Spells type expr) :
      Spells type (.reference expr)

/-- The values of a type. -/
def Has : PlainType → Json → Prop
  | primitive _ keyword _, value => Primitive.Describes keyword value
  | option inside, value => value = .null ∨ inside.Has value
  | list inside, value => ∃ items, value = .array items ∧ ∀ item ∈ items, inside.Has item

def keyword : PlainType → String
  | primitive _ keyword _ => keyword
  | option inside => inside.keyword
  | list inside => inside.keyword

/-- How many lists a type is made of. -/
def lists : PlainType → Nat
  | primitive .. => 0
  | option inside => inside.lists
  | list inside => inside.lists + 1

def options : PlainType → Nat
  | primitive .. => 0
  | option inside => inside.options + 1
  | list inside => inside.options

def isOption : PlainType → Bool
  | primitive .. => false
  | option _ => true
  | list _ => false

/-- What is kept of a type. -/
def kept : PlainType → FieldType
  | primitive name _ _ => { name }
  | option inside => { inside.kept with optional := true }
  | list inside => { inside.kept with list := true }

theorem ofLast_concat (scope : Scope) (before : List Segment) (name : String)
    (arguments : Arguments) : FieldType.ofLast scope (before ++ [.mk name arguments]) =
    FieldType.ofArguments scope arguments := by
  induction before with
  | nil => simp [FieldType.ofLast]
  | cons segment before ih =>
    obtain ⟨other, otherArguments⟩ := segment
    simpa [FieldType.ofLast] using ih

theorem ofExpr_of_spells (scope : Scope) {type : PlainType} {expr : TypeExpr}
    (h : type.Spells expr) : FieldType.ofExpr scope expr = type.kept := by
  induction h with
  | @primitive name keyword hkeyword rooted before =>
    rw [FieldType.ofExpr, ofLast_concat]
    simp [FieldType.ofArguments, FieldType.ofSegments, Segment.name, hkeyword, kept]
  | option _ rooted before more ih =>
    rw [FieldType.ofExpr, ofLast_concat]
    simp [FieldType.ofArguments, FieldType.ofArgs, FieldType.ofSegments, Segment.name, ih, kept]
  | list _ rooted before more ih =>
    rw [FieldType.ofExpr, ofLast_concat]
    simp [FieldType.ofArguments, FieldType.ofArgs, FieldType.ofSegments, Segment.name, ih, kept]
  | reference _ ih => rw [FieldType.ofExpr, ih]

theorem keyword?_kept (type : PlainType) :
    Primitive.keyword? type.kept.name = some type.keyword := by
  induction type with
  | primitive name keyword h => exact h
  | option inside ih => exact ih
  | list inside ih => exact ih

theorem optional_kept (type : PlainType) : type.kept.optional = true ↔ type.options ≠ 0 := by
  induction type with
  | primitive name keyword h => simp [kept, options]
  | option inside ih => simp [kept, options]
  | list inside ih => exact ih

theorem list_kept (type : PlainType) : type.kept.list = true ↔ type.lists ≠ 0 := by
  induction type with
  | primitive name keyword h => simp [kept, lists]
  | option inside ih => exact ih
  | list inside ih => simp [kept, lists]

theorem sample_kept (structs : Structs) (type : PlainType) :
    structs.sample type.kept =
      if type.lists = 0 then Primitive.sample type.keyword
      else .array [Primitive.sample type.keyword] := by
  rw [Structs.sample, Structs.depthLimit, Structs.sampleWithin]
  by_cases hlists : type.lists = 0
  · have hlist : type.kept.list = false :=
      Bool.eq_false_iff.mpr (mt type.list_kept.mp (not_not_intro hlists))
    rw [if_neg (by simp [hlist]), if_pos hlists, structs.sampleOf_primitive _ type.keyword?_kept]
  · have hitem : structs.sampleWithin 3 { type.kept with optional := false, list := false } =
        Primitive.sample type.keyword := by
      rw [Structs.sampleWithin, if_neg Bool.false_ne_true]
      exact structs.sampleOf_primitive _ type.keyword?_kept
    rw [if_pos (type.list_kept.mpr hlists), if_neg hlists, hitem]

variable {value : Json}

theorem has_iff (type : PlainType) (h : Primitive.Describes type.keyword value) :
    type.Has value ↔ type.lists = 0 := by
  have hnull : value ≠ .null := by
    rintro rfl
    exact h
  induction type with
  | primitive name keyword hkeyword => exact iff_of_true h rfl
  | option inside ih => exact (or_iff_right hnull).trans (ih h)
  | list inside ih =>
    refine iff_of_false ?_ (Nat.succ_ne_zero _)
    rintro ⟨items, rfl, -⟩
    exact h

theorem has_singleton_iff (type : PlainType) (h : Primitive.Describes type.keyword value) :
    type.Has (.array [value]) ↔ type.lists = 1 := by
  induction type with
  | primitive name keyword hkeyword => exact iff_of_false id nofun
  | option inside ih => exact (or_iff_right nofun).trans (ih h)
  | list inside ih =>
    have hitems : (inside.list).Has (.array [value]) ↔ inside.Has value := by simp [Has]
    rw [hitems, inside.has_iff h, lists, Nat.add_eq_right]

/-- The sample of a field is a value of its type exactly if the type has no list inside a list. The
mark of an option says whether the type is one exactly if it is one, or is made without options. -/
theorem has_sample_of_spells (structs : Structs) (scope : Scope) {type : PlainType}
    {expr : TypeExpr} (h : type.Spells expr) :
    (type.Has (structs.sample (FieldType.ofExpr scope expr)) ↔ type.lists ≤ 1) ∧
      ((FieldType.ofExpr scope expr).optional = type.isOption ↔
        type.isOption = true ∨ type.options = 0) := by
  have hsample := Primitive.describes_sample type.keyword?_kept
  rw [ofExpr_of_spells scope h]
  constructor
  · rw [sample_kept]
    split
    next hlists => simp [type.has_iff hsample, hlists]
    next hlists =>
      rw [type.has_singleton_iff hsample]
      omega
  · cases type with
    | primitive name keyword hkeyword => simp [kept, isOption, options]
    | option inside => simp [kept, isOption]
    | list inside =>
      rw [isOption, Bool.eq_false_iff, ne_eq, optional_kept, Classical.not_not]
      exact (or_iff_right Bool.false_ne_true).symm

def text : PlainType := .primitive "String" "string" rfl

def applied (name : String) (argument : TypeExpr) : TypeExpr :=
  .path (.mk false [.mk name (.angled [.type argument])])

theorem spells_text : text.Spells (.path (.ofIdent "String")) := .primitive false []

theorem spells_option {inside : PlainType} {expr : TypeExpr} (h : inside.Spells expr) :
    (option inside).Spells (applied "Option" expr) :=
  .option h false [] []

theorem spells_list {inside : PlainType} {expr : TypeExpr} (h : inside.Spells expr) :
    (list inside).Spells (applied "Vec" expr) :=
  .list h false [] []

def libraryScope : Scope := .ofItems "src/lib.rs" ["crate"] []

theorem has_sample_of_optional_texts :
    (option (list text)).Spells (applied "Option" (applied "Vec" (.path (.ofIdent "String")))) ∧
      (option (list text)).Has (Structs.sample [] (FieldType.ofExpr libraryScope
        (applied "Option" (applied "Vec" (.path (.ofIdent "String")))))) ∧
      (FieldType.ofExpr libraryScope
          (applied "Option" (applied "Vec" (.path (.ofIdent "String"))))).optional =
        true := by
  have hspells := spells_option (spells_list spells_text)
  obtain ⟨hhas, hoptional⟩ := has_sample_of_spells [] libraryScope hspells
  exact ⟨hspells, hhas.mpr (by decide), hoptional.mpr (.inl rfl)⟩

/-- A list of lists has a sample that is no value of it, and a list of options is marked as
optional. -/
theorem not_has_sample :
    (¬ ∀ (structs : Structs) (scope : Scope) (type : PlainType) (expr : TypeExpr),
        type.Spells expr → type.Has (structs.sample (FieldType.ofExpr scope expr))) ∧
      ¬ ∀ (scope : Scope) (type : PlainType) (expr : TypeExpr),
        type.Spells expr → (FieldType.ofExpr scope expr).optional = type.isOption := by
  constructor
  · intro h
    have hspells := spells_list (spells_list spells_text)
    have hhas := h [] libraryScope _ _ hspells
    rw [ofExpr_of_spells _ hspells, sample_kept, if_neg (by decide),
      has_singleton_iff _ (Primitive.describes_sample (keyword?_kept _))] at hhas
    exact absurd hhas (by decide)
  · intro h
    have hspells := spells_list (spells_option spells_text)
    have hoptional := h libraryScope _ _ hspells
    rw [ofExpr_of_spells _ hspells] at hoptional
    exact absurd hoptional (by decide)

end PlainType

end ApiContract
