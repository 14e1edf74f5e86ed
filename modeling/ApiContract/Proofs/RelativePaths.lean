import ApiContract.Proofs.Imports

namespace ApiContract.Scope

open Source Imports

/-- A written path means another one in a scope: by itself, and in an import whose name is not bound
again. -/
def Means (scope : Scope) (written path : List String) : Prop :=
  scope.resolve (Name.join written) = Name.join path ∧
    ∀ before name after, Item.bindings scope.items = before ++ (written, name) :: after →
      name ∉ after.map Prod.snd → scope.alias? name = some (Name.join path)

def upwards : Nat → List String → List String
  | 0, names => "self" :: names
  | steps + 1, names => List.replicate (steps + 1) "super" ++ names

/-- The module as many steps above one below the root, and never above the root. -/
def ancestor (modules : List String) (steps : Nat) : List String :=
  "crate" :: modules.take (modules.length - steps)

theorem leadsTo_upwards {modules names : List String} {steps : Nat}
    (hsteps : steps ≤ modules.length) (hnames : ∀ name ∈ names, name ∉ starts) :
    LeadsTo ("crate" :: modules) (upwards steps names) (ancestor modules steps ++ names) := by
  cases steps with
  | zero =>
    rw [ancestor, Nat.sub_zero, List.take_length]
    exact .here names
  | succ steps =>
    have hfirst : names.head? ≠ some "super" := by
      intro hfirst
      exact hnames "super" (List.mem_of_mem_head? hfirst) (by decide)
    have hlength :
        max 1 (("crate" :: modules).length - (steps + 1)) = modules.length - (steps + 1) + 1 := by
      rw [List.length_cons]
      omega
    have habove : LeadsTo ("crate" :: modules) (upwards (steps + 1) names) _ :=
      .above (Nat.succ_pos steps) hfirst
    rwa [hlength, List.take_succ_cons] at habove

theorem head?_upwards (steps : Nat) (names : List String) :
    (upwards steps names).head? = some "self" ∨ (upwards steps names).head? = some "super" := by
  cases steps with
  | zero => exact .inl rfl
  | succ steps => exact .inr rfl

theorem isPart_upwards {names : List String} (h : ∀ name ∈ names, Name.IsPart name) (steps : Nat) :
    ∀ part ∈ upwards steps names, Name.IsPart part := by
  cases steps with
  | zero => exact List.forall_mem_cons.mpr ⟨by decide, h⟩
  | succ steps =>
    refine List.forall_mem_append.mpr ⟨fun part hm => ?_, h⟩
    rw [List.eq_of_mem_replicate hm]
    decide

theorem means_of_leadsTo {file : String} {module written path : List String} {items : List Item}
    (hparts : ∀ part ∈ written, Name.IsPart part)
    (hstart : written.head? = some "self" ∨ written.head? = some "super")
    (hleads : LeadsTo module written path) : (ofItems file module items).Means written path := by
  refine ⟨?_, fun before name after himport hlast => get?_ofItems himport hlast hleads⟩
  cases written with
  | nil => simp at hstart
  | cons first rest =>
    obtain ⟨hcrate, hrelative⟩ : first ≠ "crate" ∧ (first = "self" ∨ first = "super") := by
      obtain hfirst | hfirst := hstart
      · cases hfirst
        exact ⟨by decide, .inl rfl⟩
      · cases hfirst
        exact ⟨by decide, .inr rfl⟩
    rw [resolve, Name.segments_join hparts]
    dsimp only
    rw [if_neg hcrate, if_pos hrelative, target]
    exact congrArg Name.join hleads.absolute_eq

theorem resolve_root (scope : Scope) {names : List String} (h : ∀ name ∈ names, Name.IsPart name) :
    scope.resolve (Name.join ("crate" :: names)) = Name.join ("crate" :: names) := by
  have hparts : ∀ part ∈ "crate" :: names, Name.IsPart part :=
    List.forall_mem_cons.mpr ⟨by decide, h⟩
  rw [resolve, Name.segments_join hparts]
  rfl

theorem mem_ancestor {modules : List String} {steps : Nat} {name : String}
    (h : name ∈ ancestor modules steps) : name = "crate" ∨ name ∈ modules := by
  obtain h | h := List.mem_cons.mp h
  · exact .inl h
  · exact .inr (List.mem_of_mem_take h)

theorem ordinary_ancestor {modules names : List String}
    (h : ∀ name ∈ modules ++ names, Name.IsPart name ∧ name ∉ starts) (steps : Nat) :
    ∀ part ∈ ancestor modules steps ++ names,
      Name.IsPart part ∧ part ≠ "self" ∧ part ≠ "super" := by
  have hall : ∀ part ∈ modules ++ names, Name.IsPart part ∧ part ≠ "self" ∧ part ≠ "super" :=
    fun part hm => ⟨(h part hm).1, (ne_of_not_mem_starts (h part hm).2).2⟩
  intro part hm
  obtain hm | hm := List.mem_append.mp hm
  · obtain rfl | hm := mem_ancestor hm
    · decide
    · exact hall part (List.mem_append_left _ hm)
  · exact hall part (List.mem_append_right _ hm)

/-- A path that keeps its words `super` behind the module is not the one from as many modules up. -/
theorem join_upwards_ne {modules names : List String} {steps : Nat}
    (h : ∀ name ∈ modules ++ names, Name.IsPart name ∧ name ∉ starts) (hclimbs : 0 < steps) :
    Name.join ("crate" :: modules ++ upwards steps names) ≠
      Name.join (ancestor modules steps ++ names) := by
  intro heq
  obtain ⟨hmodules, hnames⟩ := List.forall_mem_append.mp h
  have hwritten : ∀ part ∈ upwards steps names, Name.IsPart part :=
    isPart_upwards (fun name hm => (hnames name hm).1) steps
  have hkept : ∀ part ∈ "crate" :: modules ++ upwards steps names, Name.IsPart part :=
    List.forall_mem_append.mpr
      ⟨List.forall_mem_cons.mpr ⟨by decide, fun part hm => (hmodules part hm).1⟩, hwritten⟩
  -- one of the two has a `super`, and the other has none
  have hsuper : "super" ∈ ancestor modules steps ++ names := by
    rw [← Name.join_injective hkept (fun part hm => (ordinary_ancestor h steps part hm).1) heq]
    obtain ⟨steps, rfl⟩ := Nat.exists_eq_add_one.mpr hclimbs
    exact List.mem_append_right _ List.mem_cons_self
  exact (ordinary_ancestor h steps "super" hsuper).2.2 rfl

/-- A path from as many modules up means the path from there, which is written from the root and
means itself. With `self` before it, it climbs no more: its words `super` stay behind the module. -/
theorem means_upwards (file : String) {modules names : List String} (items : List Item)
    {steps : Nat} (hsteps : steps ≤ modules.length)
    (hordinary : ∀ name ∈ modules ++ names, Name.IsPart name ∧ name ∉ starts) :
    (ofItems file ("crate" :: modules) items).Means (upwards steps names)
        (ancestor modules steps ++ names) ∧
      (∀ part ∈ Name.segments (Name.join (ancestor modules steps ++ names)),
        part ≠ "self" ∧ part ≠ "super") ∧
      (ofItems file ("crate" :: modules) items).resolve
          (Name.join (ancestor modules steps ++ names)) =
        Name.join (ancestor modules steps ++ names) ∧
      (0 < steps → (ofItems file ("crate" :: modules) items).Means ("self" :: upwards steps names)
            ("crate" :: modules ++ upwards steps names) ∧
          Name.join ("crate" :: modules ++ upwards steps names) ≠
            Name.join (ancestor modules steps ++ names)) := by
  have hnames := (List.forall_mem_append.mp hordinary).2
  have hwritten : ∀ part ∈ upwards steps names, Name.IsPart part :=
    isPart_upwards (fun name hm => (hnames name hm).1) steps
  have hcanonical := ordinary_ancestor hordinary steps
  have hparts : ∀ part ∈ ancestor modules steps ++ names, Name.IsPart part :=
    fun part hm => (hcanonical part hm).1
  refine ⟨?_, ?_, ?_, fun hclimbs => ⟨?_, join_upwards_ne hordinary hclimbs⟩⟩
  · exact means_of_leadsTo hwritten (head?_upwards steps names)
      (leadsTo_upwards hsteps fun name hm => (hnames name hm).2)
  · rw [Name.segments_join hparts]
    exact fun part hm => (hcanonical part hm).2
  · exact resolve_root _ (List.forall_mem_cons.mp hparts).2
  · exact means_of_leadsTo (List.forall_mem_cons.mpr ⟨by decide, hwritten⟩) (.inl rfl) (.here _)

/-- An import that climbs out of a module, beside one that stays in it. -/
theorem means_upwards_controllers :
    (ofItems "src/http/controllers.rs" ["crate", "http", "controllers"]
          [.imports (.path "super" (.path "resources" (.name "UserResource")))]).alias?
          "UserResource" =
        some "crate::http::resources::UserResource" ∧
      (ofItems "src/http/controllers.rs" ["crate", "http", "controllers"]
          [.imports (.path "super" (.path "resources" (.name "UserResource")))]).resolve
          "self::super::resources::UserResource" =
        "crate::http::controllers::super::resources::UserResource" := by
  have hordinary : ∀ name ∈ ["http", "controllers"] ++ ["resources", "UserResource"],
      Name.IsPart name ∧ name ∉ starts := by decide
  obtain ⟨⟨-, halias⟩, -, -, hself⟩ := means_upwards "src/http/controllers.rs"
    [.imports (.path "super" (.path "resources" (.name "UserResource")))] (Nat.le_succ 1) hordinary
  have himported := halias [] "UserResource" [] rfl (by decide)
  have hkept := (hself Nat.one_pos).1.1
  have hpath : Name.join (ancestor ["http", "controllers"] 1 ++ ["resources", "UserResource"]) =
      "crate::http::resources::UserResource" := by decide
  have hwritten : Name.join ("self" :: upwards 1 ["resources", "UserResource"]) =
      "self::super::resources::UserResource" := by
    decide
  have hleft :
      Name.join ("crate" :: ["http", "controllers"] ++ upwards 1 ["resources", "UserResource"]) =
        "crate::http::controllers::super::resources::UserResource" := by
    decide
  rw [hpath] at himported
  rw [hwritten, hleft] at hkept
  exact ⟨himported, hkept⟩

/-- Behind `self` a `super` does not climb. -/
theorem not_resolve_self_upwards :
    ¬ ∀ (file : String) (modules names : List String) (items : List Item) (steps : Nat),
      steps ≤ modules.length → names ≠ [] →
        (∀ name ∈ modules ++ names, Name.IsPart name ∧ name ∉ starts) →
        (ofItems file ("crate" :: modules) items).resolve
            (Name.join ("self" :: List.replicate steps "super" ++ names)) =
          Name.join (ancestor modules steps ++ names) := by
  intro hall
  have hclimbed := hall "src/models.rs" ["models"] ["User"] [] 1 (Nat.le_refl 1)
    (List.cons_ne_nil _ _) (by decide)
  exact absurd hclimbed (by decide)

end ApiContract.Scope
