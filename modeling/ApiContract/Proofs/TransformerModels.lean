import ApiContract.Proofs.ByteOrder
import ApiContract.Proofs.Table
import ApiContract.Schema.Synthesis
import Mathlib.Data.List.Infix

namespace ApiContract

theorem Text.contains_iff (part s : List Char) : contains part s = true ↔ part <:+: s := by
  induction s with
  | nil => simp [contains]
  | cons c rest ih =>
    rw [contains, Bool.or_eq_true, List.isPrefixOf_iff_prefix, ih, List.infix_cons_iff]

theorem Name.exists_lookup?_of_mem {α : Type} {entries : Table α} {name : String}
    (h : name ∈ entries.keys) : ∃ value, lookup? entries name = some value := by
  obtain ⟨value, hvalue⟩ := (Table.mem_keys entries name).mp h
  exact ⟨value, by rw [lookup?, show List.lookup name entries = some value from hvalue]⟩

theorem Fixtures.exists_instances {fixtures : Fixtures} {type : String} (h : type ∈ fixtures.names)
    (stored : Bool) (count : Nat) :
    ∃ items, fixtures.instances stored type count = .ok items ∧ items.length = count := by
  obtain ⟨fixture, hfixture⟩ := Name.exists_lookup?_of_mem h
  exact ⟨_, by rw [instances, hfixture], by rw [List.length_map, List.length_range]⟩

namespace Synthesizer

/-- A model is preferred to another one for its longer short name, or else for its name. -/
def Precedes (model other : String) : Prop :=
  (Name.short other).utf8ByteSize < (Name.short model).utf8ByteSize ∨
    (Name.short other).utf8ByteSize = (Name.short model).utf8ByteSize ∧
      Text.bytes model < Text.bytes other

theorem precedes_of_le {model other : String} (hlt : model < other)
    (hle : (Name.short other).utf8ByteSize ≤ (Name.short model).utf8ByteSize) :
    Precedes model other := by
  obtain h | h := hle.lt_or_eq
  · exact .inl h
  · exact .inr ⟨h, (Text.bytes_lt_iff model other).mpr hlt⟩

theorem longest_eq_none {names : List String} (h : longest names = none) : names = [] := by
  cases names with
  | nil => rfl
  | cons name rest =>
    rw [longest] at h
    split at h
    · cases h
    · split at h <;> cases h

theorem precedes_of_longest {names : List String} (hsorted : names.Pairwise (· < ·))
    {model : String} (h : longest names = some model) :
    model ∈ names ∧ ∀ other ∈ names, other ≠ model → Precedes model other := by
  induction names generalizing model with
  | nil => cases h
  | cons name rest ih =>
    obtain ⟨hfirst, hrest⟩ := List.pairwise_cons.mp hsorted
    rw [longest] at h
    cases hlongest : longest rest with
    | none =>
      rw [hlongest] at h
      obtain rfl := Option.some.inj h
      obtain rfl := longest_eq_none hlongest
      exact ⟨List.mem_singleton_self name,
        fun other hother hne => absurd (List.mem_singleton.mp hother) hne⟩
    | some best =>
      obtain ⟨hmem, hbest⟩ := ih hrest hlongest
      rw [hlongest] at h
      dsimp only at h
      split at h
      next hlt =>
        obtain rfl := Option.some.inj h
        refine ⟨List.mem_cons_of_mem name hmem, fun other hother hne => ?_⟩
        obtain rfl | hother := List.mem_cons.mp hother
        · exact .inl hlt
        · exact hbest other hother hne
      next hlt =>
        obtain rfl := Option.some.inj h
        refine ⟨List.mem_cons_self, fun other hother hne => ?_⟩
        have hother := (List.mem_cons.mp hother).resolve_left hne
        -- no name in the rest is longer than the best of them
        have hle : (Name.short other).utf8ByteSize ≤ (Name.short best).utf8ByteSize := by
          by_cases heq : other = best
          · rw [heq]
          · obtain h | ⟨h, -⟩ := hbest other hother heq
            · exact h.le
            · exact h.le
        exact precedes_of_le (hfirst other hother) (hle.trans (Nat.le_of_not_lt hlt))

variable {R : Type} (s : Synthesizer Fixtures R) {transformer model : String}

/-- A known type whose short name is part of the transformer's. -/
def Suits (transformer model : String) : Prop :=
  model ∈ s.fixtures.names ∧ (Name.short model).toList <:+: (Name.short transformer).toList

instance : Decidable (s.Suits transformer model) :=
  inferInstanceAs (Decidable (_ ∧ (Name.short model).toList <:+: (Name.short transformer).toList))

/-- The model that the name of a transformer tells. -/
structure IsTold (transformer model : String) : Prop where
  suits : s.Suits transformer model
  first : ∀ other, s.Suits transformer other → other ≠ model → Precedes model other

theorem mem_suiting : model ∈ s.fixtures.names.filter (fun name =>
    Text.contains (Name.short name).toList (Name.short transformer).toList) ↔
      s.Suits transformer model := by
  rw [List.mem_filter, Text.contains_iff, Suits]

theorem isTold_of_modelFor? (hsorted : s.fixtures.table.Sorted)
    (h : s.modelFor? transformer = some model) : s.IsTold transformer model := by
  have hnames : s.fixtures.names.Pairwise (· < ·) := List.pairwise_map.mpr hsorted
  obtain ⟨hmem, hfirst⟩ := precedes_of_longest (hnames.filter _) h
  exact ⟨s.mem_suiting.mp hmem, fun other hother => hfirst other (s.mem_suiting.mpr hother)⟩

theorem modelFor?_eq_none_iff :
    s.modelFor? transformer = none ↔ ∀ model, ¬ s.Suits transformer model := by
  constructor
  · intro h model hsuits
    have hnil := longest_eq_none h
    exact List.not_mem_nil (hnil ▸ s.mem_suiting.mpr hsuits)
  · intro h
    have hnil : s.fixtures.names.filter (fun name =>
        Text.contains (Name.short name).toList (Name.short transformer).toList) = [] :=
      List.eq_nil_iff_forall_not_mem.mpr fun model hmem => h model (s.mem_suiting.mp hmem)
    exact congrArg longest hnil

/-- Where nothing is configured for a transformer, it is shown with the model that its name tells,
if there is one, and else with what its source tells. A model that the name tells has instances, as
many as one asks for. -/
theorem input_of_name (hsorted : s.fixtures.table.Sorted)
    (hinput : Name.lookup? s.transformerInputs transformer = none) (source : Shape) :
    ((∃ model, s.Suits transformer model) → ∃ model, s.IsTold transformer model ∧
          s.input? transformer source = some (.model model) ∧ (∀ stored count,
            ∃ items, s.fixtures.instances stored model count = .ok items ∧ items.length = count) ∧
          ∀ collection paginated, ∃ items, items.length = itemCount collection ∧
            s.batch? transformer collection paginated source =
              .ok ⟨items, some model, collection, paginated⟩) ∧
      ((∀ model, ¬ s.Suits transformer model) →
        s.input? transformer source = sourceInput? source) := by
  refine ⟨?_, fun hnone => ?_⟩
  · rintro ⟨suiting, hsuiting⟩
    obtain ⟨model, hmodel⟩ : ∃ model, s.modelFor? transformer = some model :=
      Option.ne_none_iff_exists'.mp fun h => s.modelFor?_eq_none_iff.mp h suiting hsuiting
    have htold := s.isTold_of_modelFor? hsorted hmodel
    have hshown : s.input? transformer source = some (.model model) := by
      rw [input?, hinput]
      dsimp only
      rw [hmodel]
    have hinstances := Fixtures.exists_instances htold.suits.1
    refine ⟨model, htold, hshown, hinstances, fun collection paginated => ?_⟩
    obtain ⟨items, hitems, hlength⟩ := hinstances s.stored (itemCount collection)
    refine ⟨items, hlength, ?_⟩
    rw [batch?, hshown]
    exact congrArg (Except.map _) hitems
  · rw [input?, hinput]
    dsimp only
    rw [s.modelFor?_eq_none_iff.mpr hnone]

def knowing (names : List String) : Synthesizer where
  fixtures := { table := names.map fun name => (name, {}), variant := "documentation" }
  transformers := { structs := [], wrap := none }
  typeExamples := []
  transformerInputs := []
  stored := false

/-- The short names of all three types are part of `UserResource`. Two of them are longest, and the
first of these counts. -/
theorem input_of_user_resource :
    let s := knowing ["crate::U", "crate::admin::User", "crate::models::User"]
    s.fixtures.table.Sorted ∧ Name.lookup? s.transformerInputs "crate::http::UserResource" = none ∧
      s.Suits "crate::http::UserResource" "crate::U" ∧
      s.Suits "crate::http::UserResource" "crate::models::User" ∧
      s.IsTold "crate::http::UserResource" "crate::admin::User" ∧ ∀ stored, ∃ items,
        s.fixtures.instances stored "crate::admin::User" 3 = .ok items ∧ items.length = 3 := by
  intro s
  have hsorted : s.fixtures.table.Sorted := by decide
  have hinput : Name.lookup? s.transformerInputs "crate::http::UserResource" = none := rfl
  have hsuits : s.Suits "crate::http::UserResource" "crate::U" := by decide
  have hother : s.Suits "crate::http::UserResource" "crate::models::User" := by decide
  obtain ⟨model, htold, hshown, hinstances, -⟩ :=
    (s.input_of_name hsorted hinput .unresolved).1 ⟨_, hsuits⟩
  obtain rfl : model = "crate::admin::User" := by
    have hmodel :
        s.input? "crate::http::UserResource" .unresolved = some (.model "crate::admin::User") := rfl
    exact Input.model.inj (Option.some.inj (hshown.symm.trans hmodel))
  exact ⟨hsorted, hinput, hsuits, hother, htold, fun stored => hinstances stored 3⟩

end Synthesizer

end ApiContract
