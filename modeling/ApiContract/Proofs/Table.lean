import ApiContract.Table

namespace ApiContract

theorem lt_of_not_lt_of_ne {s t : String} (h : ¬ s < t) (hne : s ≠ t) : t < s := by
  by_cases hts : t < s
  · exact hts
  · exact absurd (String.le_antisymm (String.not_lt.mp hts) (String.not_lt.mp h)) hne

namespace Table

variable {α β : Type}

/-- Keys increase strictly, so that no key has two entries. -/
def Sorted (table : Table α) : Prop := table.Pairwise fun x y => x.1 < y.1

instance (table : Table α) : Decidable table.Sorted :=
  inferInstanceAs (Decidable (table.Pairwise fun x y => x.1 < y.1))

theorem get?_cons (entry : String × α) (rest : Table α) (key : String) :
    get? (entry :: rest) key = if key = entry.1 then some entry.2 else get? rest key := by
  obtain ⟨k, v⟩ := entry
  by_cases h : key = k
  · simp [get?, h]
  · have hb : (key == k) = false := by simpa using h
    simp [get?, List.lookup_cons, h, hb]

theorem get?_insert (table : Table α) (key other : String) (value : α) :
    get? (insert table key value) other = if other = key then some value else get? table other := by
  induction table with
  | nil => rw [insert, get?_cons]
  | cons entry rest ih =>
    obtain ⟨k, v⟩ := entry
    by_cases hk : key = k
    · subst k
      rw [insert, if_pos rfl, get?_cons, get?_cons]
      by_cases ho : other = key <;> simp [ho]
    · by_cases hlt : key < k
      · rw [insert, if_neg hk, if_pos hlt, get?_cons]
      · rw [insert, if_neg hk, if_neg hlt, get?_cons, get?_cons, ih]
        by_cases ho : other = key
        · simp [ho, hk]
        · simp [ho]

theorem mem_of_get? {table : Table α} {key : String} {value : α} (h : get? table key = some value) :
    (key, value) ∈ table := by
  induction table with
  | nil => simp at h
  | cons entry rest ih =>
    rw [get?_cons] at h
    by_cases hk : key = entry.1
    · rw [if_pos hk, Option.some.injEq] at h
      subst hk h
      simp
    · rw [if_neg hk] at h
      exact List.mem_cons_of_mem _ (ih h)

theorem contains_iff (table : Table α) (key : String) :
    contains table key = true ↔ ∃ value, get? table key = some value := by
  rw [contains, Option.isSome_iff_exists]

theorem mem_insert {table : Table α} {key : String} {value : α} {entry : String × α}
    (h : entry ∈ insert table key value) : entry = (key, value) ∨ entry ∈ table := by
  induction table with
  | nil => exact Or.inl (by simpa [insert] using h)
  | cons first rest ih =>
    simp only [insert] at h
    split at h
    · obtain h | h := List.mem_cons.mp h
      · exact Or.inl h
      · exact Or.inr (List.mem_cons_of_mem _ h)
    · split at h
      · exact List.mem_cons.mp h
      · obtain h | h := List.mem_cons.mp h
        · exact Or.inr (by simp [h])
        · obtain h | h := ih h
          · exact Or.inl h
          · exact Or.inr (List.mem_cons_of_mem _ h)

theorem get?_ofList (before after : List (String × α)) {key : String} (value : α)
    (h : key ∉ after.map Prod.fst) :
    get? (ofList (before ++ (key, value) :: after)) key = some value := by
  have hafter : ∀ table : Table α, get? table key = some value →
      get? (after.foldl (fun table entry => insert table entry.1 entry.2) table) key =
        some value := by
    induction after with
    | nil => exact fun _ h => h
    | cons entry after ih =>
      intro table ht
      rw [List.map_cons, List.mem_cons, not_or] at h
      rw [List.foldl_cons]
      exact ih h.2 _ (by rw [get?_insert, if_neg h.1, ht])
  rw [ofList, List.foldl_append, List.foldl_cons]
  exact hafter _ (get?_insert_self _ key value)

theorem get?_append (table more : Table α) (key : String) :
    get? (table ++ more) key = (get? table key).or (get? more key) := List.lookup_append

/-- What is found for a key is the last of its values. -/
theorem get?_ofList_reverse (entries : List (String × α)) (key : String) :
    get? (ofList entries) key = get? entries.reverse key := by
  have hfold : ∀ table : Table α,
      get? (entries.foldl (fun table entry => insert table entry.1 entry.2) table) key =
        (get? entries.reverse key).or (get? table key) := by
    induction entries with
    | nil => exact fun table => rfl
    | cons entry entries ih =>
      intro table
      rw [List.foldl_cons, ih, get?_insert, List.reverse_cons, get?_append, Option.or_assoc,
        get?_cons, get?_nil]
      by_cases h : key = entry.1 <;> simp [h]
  rw [ofList, hfold, get?_nil, Option.or_none]

theorem get?_ofList_flatMap (f : β → List (String × α)) (lists : List β) (key : String) :
    get? (ofList (lists.flatMap f)) key =
      lists.reverse.findSome? fun x => get? (ofList (f x)) key := by
  rw [get?_ofList_reverse]
  induction lists with
  | nil => rfl
  | cons x lists ih =>
    rw [List.flatMap_cons, List.reverse_append, get?_append, ih, List.reverse_cons,
      List.findSome?_append, List.findSome?_singleton, get?_ofList_reverse]

/-- In a list of entries that are made from the elements of another, the first element with a key
counts. -/
theorem get?_map_entries (name : β → String) (value : β → α) (elements : List β) (key : String) :
    get? (elements.map fun x => (name x, value x)) key =
      (elements.find? fun x => name x = key).map value := by
  induction elements with
  | nil => rfl
  | cons x elements ih =>
    rw [List.map_cons, get?_cons, ih]
    by_cases h : name x = key
    · simp [h]
    · rw [if_neg fun he => h he.symm, List.find?_cons_of_neg (by simpa using h)]

theorem exists_get?_reverse_flatMap {f : β → List (String × α)} {lists : List β} {key : String}
    {value : α} (h : get? (lists.flatMap f).reverse key = some value) :
    ∃ x ∈ lists, get? (f x).reverse key = some value := by
  induction lists with
  | nil => cases h
  | cons x lists ih =>
    rw [List.flatMap_cons, List.reverse_append, get?_append] at h
    obtain h | ⟨-, h⟩ := Option.or_eq_some_iff.mp h
    · obtain ⟨other, hm, hother⟩ := ih h
      exact ⟨other, List.mem_cons_of_mem _ hm, hother⟩
    · exact ⟨x, List.mem_cons_self, h⟩

theorem Sorted.nil : Sorted ([] : Table α) := List.Pairwise.nil

theorem Sorted.insert {table : Table α} (h : table.Sorted) (key : String) (value : α) :
    Sorted (Table.insert table key value) := by
  induction table with
  | nil => exact List.pairwise_singleton _ _
  | cons entry rest ih =>
    obtain ⟨hfirst, hrest⟩ := List.pairwise_cons.mp h
    simp only [Table.insert]
    split
    next hk => exact List.pairwise_cons.mpr ⟨fun other hm => hk ▸ hfirst other hm, hrest⟩
    next hk =>
      split
      next hlt =>
        refine List.pairwise_cons.mpr ⟨?_, h⟩
        intro other hm
        obtain rfl | hm := List.mem_cons.mp hm
        · exact hlt
        · exact String.lt_trans hlt (hfirst other hm)
      next hlt =>
        refine List.pairwise_cons.mpr ⟨?_, ih hrest⟩
        intro other hm
        obtain rfl | hm := mem_insert hm
        · exact lt_of_not_lt_of_ne hlt hk
        · exact hfirst other hm

theorem sorted_ofList (entries : List (String × α)) : (ofList entries).Sorted := by
  have hfold : ∀ table : Table α, table.Sorted →
      Sorted (entries.foldl (fun table entry => Table.insert table entry.1 entry.2) table) := by
    induction entries with
    | nil => exact fun _ h => h
    | cons entry entries ih => exact fun table h => ih _ (h.insert _ _)
  exact hfold [] .nil

theorem Sorted.get?_of_mem {table : Table α} (h : table.Sorted) {key : String} {value : α}
    (hm : (key, value) ∈ table) : get? table key = some value := by
  induction table with
  | nil => simp at hm
  | cons entry rest ih =>
    obtain ⟨hfirst, hrest⟩ := List.pairwise_cons.mp h
    rw [get?_cons]
    obtain rfl | hm := List.mem_cons.mp hm
    · simp
    · have hne : key ≠ entry.1 := fun he => String.lt_irrefl _ (he ▸ hfirst _ hm)
      rw [if_neg hne, ih hrest hm]

theorem Sorted.mem_iff {table : Table α} (h : table.Sorted) (key : String) (value : α) :
    (key, value) ∈ table ↔ get? table key = some value :=
  ⟨h.get?_of_mem, mem_of_get?⟩

theorem mem_keys (table : Table α) (key : String) :
    key ∈ table.keys ↔ ∃ value, get? table key = some value := by
  induction table with
  | nil => simp [keys]
  | cons entry rest ih =>
    rw [keys, List.map_cons, List.mem_cons, get?_cons]
    by_cases h : key = entry.1
    · simp [h]
    · rw [if_neg h, ← ih, or_iff_right h, keys]

theorem exists_get?_ofList {entries : List (String × α)} {key : String}
    (h : key ∈ entries.map Prod.fst) :
    ∃ value, get? (ofList entries) key = some value ∧ (key, value) ∈ entries := by
  have hkey : key ∈ Table.keys entries.reverse := by
    rw [keys, List.map_reverse, List.mem_reverse]
    exact h
  obtain ⟨value, hvalue⟩ := (mem_keys _ _).mp hkey
  rw [get?_ofList_reverse]
  exact ⟨value, hvalue, List.mem_reverse.mp (mem_of_get? hvalue)⟩

theorem Sorted.get?_rest {entry : String × α} {rest : Table α} (h : Sorted (entry :: rest)) :
    get? rest entry.1 = none := by
  obtain ⟨hfirst, -⟩ := List.pairwise_cons.mp h
  cases hg : get? rest entry.1 with
  | none => rfl
  | some value => exact absurd (hfirst _ (mem_of_get? hg)) (String.lt_irrefl _)

theorem Sorted.nodup {table : Table α} (h : table.Sorted) : table.Nodup := by
  refine List.Pairwise.imp ?_ h
  intro x y hxy he
  subst he
  exact String.lt_irrefl _ hxy

/-- A sorted table is determined by what is found in it. -/
theorem Sorted.ext {table other : Table α} (h : table.Sorted) (h' : other.Sorted)
    (hget : ∀ key, get? table key = get? other key) : table = other := by
  have hmem : ∀ entry, entry ∈ table ↔ entry ∈ other := by
    rintro ⟨key, value⟩
    rw [h.mem_iff, h'.mem_iff, hget]
  have hirrefl : ∀ x y : String × α, x.1 < y.1 → y.1 < x.1 → x = y :=
    fun x y hxy hyx => absurd (String.lt_trans hxy hyx) (String.lt_irrefl _)
  apply List.Perm.eq_of_pairwise (fun x y _ _ => hirrefl x y) h h'
  exact (List.perm_ext_iff_of_nodup h.nodup h'.nodup).mpr hmem

theorem get?_map (f : String → α → β) (table : Table α) (key : String) :
    get? (table.map fun entry => (entry.1, f entry.1 entry.2)) key =
      (get? table key).map (f key) := by
  induction table with
  | nil => rfl
  | cons entry rest ih =>
    rw [List.map_cons, get?_cons, get?_cons, ih]
    by_cases h : key = entry.1 <;> simp [h]

end Table

namespace NameSet

theorem mem_insert (names : NameSet) (name other : String) :
    other ∈ insert names name ↔ other = name ∨ other ∈ names := by
  induction names with
  | nil => simp [insert]
  | cons n rest ih =>
    simp only [insert]
    split
    next h => simp [h]
    next =>
      split
      · exact List.mem_cons
      · rw [List.mem_cons, ih, List.mem_cons]
        exact or_left_comm

theorem pairwise_insert {names : NameSet} (h : names.Pairwise (· < ·)) (name : String) :
    (insert names name).Pairwise (· < ·) := by
  induction names with
  | nil => exact List.pairwise_singleton _ _
  | cons n rest ih =>
    obtain ⟨hfirst, hrest⟩ := List.pairwise_cons.mp h
    simp only [insert]
    split
    next => exact h
    next hne =>
      split
      next hlt =>
        refine List.pairwise_cons.mpr ⟨?_, h⟩
        intro other hm
        obtain rfl | hm := List.mem_cons.mp hm
        · exact hlt
        · exact String.lt_trans hlt (hfirst other hm)
      next hlt =>
        refine List.pairwise_cons.mpr ⟨?_, ih hrest⟩
        intro other hm
        obtain rfl | hm := (mem_insert rest name other).mp hm
        · exact lt_of_not_lt_of_ne hlt hne
        · exact hfirst other hm

theorem mem_ofList (names : List String) (name : String) : name ∈ ofList names ↔ name ∈ names := by
  have hfold :
      ∀ (known : NameSet), name ∈ names.foldl insert known ↔ name ∈ known ∨ name ∈ names := by
    induction names with
    | nil => simp
    | cons n rest ih =>
      intro known
      rw [List.foldl_cons, ih, mem_insert, List.mem_cons]
      constructor
      · rintro ((h | h) | h) <;> simp [h]
      · rintro (h | h | h) <;> simp [h]
  simpa [ofList] using hfold []

theorem pairwise_ofList (names : List String) : (ofList names).Pairwise (· < ·) := by
  have hfold : ∀ known : NameSet, known.Pairwise (· < ·) →
      (names.foldl insert known).Pairwise (· < ·) := by
    induction names with
    | nil => exact fun _ h => h
    | cons n rest ih => exact fun known h => ih _ (pairwise_insert h n)
  exact hfold [] List.Pairwise.nil

theorem ext_of_pairwise {names other : NameSet} (h : names.Pairwise (· < ·))
    (h' : other.Pairwise (· < ·)) (hmem : ∀ name, name ∈ names ↔ name ∈ other) : names = other := by
  have hasymm : ∀ x y : String, x < y → y < x → x = y :=
    fun x y hxy hyx => absurd (String.lt_trans hxy hyx) (String.lt_irrefl _)
  have hnodup : ∀ {names : NameSet}, names.Pairwise (· < ·) → names.Nodup :=
    fun h => h.imp String.ne_of_lt
  apply List.Perm.eq_of_pairwise (fun x y _ _ => hasymm x y) h h'
  exact (List.perm_ext_iff_of_nodup (hnodup h) (hnodup h')).mpr hmem

end NameSet

end ApiContract
