import ApiContract.Proofs.RequestParameters
import Mathlib.Data.List.Induction

namespace ApiContract.Rules

abbrev Entry := String × List String

theorem itemsOwner?_eq_some {name owner : String} :
    itemsOwner? name = some owner ↔ name = owner ++ ".*" := by
  rw [itemsOwner?, Option.map_eq_some_iff]
  constructor
  · rintro ⟨front, hfront, rfl⟩
    rw [← String.toList_inj, Text.suffix?_eq_some.mp hfront, String.toList_append,
      String.toList_ofList]
    rfl
  · rintro rfl
    refine ⟨owner.toList, Text.suffix?_eq_some.mpr ?_, String.ofList_toList⟩
    rw [String.toList_append]
    rfl

/-- The field that a name speaks of: what stands before `.*` at its end, or else the name. -/
def subject (name : String) : String := (itemsOwner? name).getD name

theorem subject_eq_iff {name field : String} :
    subject name = field ↔ name = field ∧ itemsOwner? name = none ∨ name = field ++ ".*" := by
  rw [subject, ← itemsOwner?_eq_some]
  cases itemsOwner? name <;> simp

/-- The tokens of the entries for a field itself. A name that ends with `.*` speaks of items. -/
def ownTokens (entries : List Entry) (name : String) : List (List String) :=
  (entries.filter fun entry => entry.1 = name ∧ itemsOwner? entry.1 = none).map Prod.snd

def itemTokens (entries : List Entry) (name : String) : List (List String) :=
  (entries.filter fun entry => entry.1 = name ++ ".*").map Prod.snd

def mentioned (entries : List Entry) : List String :=
  (entries.map fun entry => subject entry.1).eraseDups

/-- What all entries together say about a field. -/
def described (entries : List Entry) (name : String) : FieldRules :=
  let own := ownTokens entries name
  let field := fieldOf name (own.getLast?.getD [])
  { field with
    array := field.array || !(itemTokens entries name).isEmpty || 1 < own.length
    itemsType := (itemTokens entries name).getLast?.map fun tokens => (fieldOf name tokens).type }

def merged (entry : Entry) (known : Option FieldRules) : FieldRules :=
  match itemsOwner? entry.1 with
  | some owner =>
    { known.getD { name := owner } with
        array := true, itemsType := some (fieldOf owner entry.2).type }
  | none =>
    match known with
    | some field => { fieldOf entry.1 entry.2 with array := true, itemsType := field.itemsType }
    | none => fieldOf entry.1 entry.2

theorem addEntry_eq (fields : List FieldRules) (entry : Entry) :
    addEntry fields entry = update fields (subject entry.1) (merged entry) := by
  rw [addEntry, subject]
  cases howner : itemsOwner? entry.1 with
  | some owner =>
    refine congrArg (update fields owner) (funext fun known => ?_)
    simp only [merged, howner]
  | none =>
    refine congrArg (update fields entry.1) (funext fun known => ?_)
    cases known <;> simp only [merged, howner]

theorem update_map {names : List String} (hnames : names.Nodup) {f : String → FieldRules}
    (hf : ∀ name, (f name).name = name) (name : String) (change : Option FieldRules → FieldRules) :
    update (names.map f) name change =
      if name ∈ names then
        names.map fun other => if other = name then change (some (f name)) else f other
      else names.map f ++ [change none] := by
  induction names with
  | nil => simp [update]
  | cons first rest ih =>
    obtain ⟨hfirst, hrest⟩ := List.nodup_cons.mp hnames
    rw [List.map_cons, update, hf]
    by_cases hname : first = name
    · subst hname
      have hothers : rest.map f =
          rest.map fun other => if other = first then change (some (f first)) else f other :=
        List.map_congr_left fun other hother => (if_neg (ne_of_mem_of_not_mem hother hfirst)).symm
      rw [if_pos rfl, if_pos List.mem_cons_self, List.map_cons, if_pos rfl, hothers]
    · rw [if_neg hname, ih hrest]
      have hmem : name ∈ first :: rest ↔ name ∈ rest := by simp [Ne.symm hname]
      simp only [hmem, List.map_cons, if_neg hname]
      split <;> rfl

section

variable (entries : List Entry) (entry : Entry) (name : String)

theorem ownTokens_concat :
    ownTokens (entries ++ [entry]) name = ownTokens entries name ++
      if entry.1 = name ∧ itemsOwner? entry.1 = none then [entry.2] else [] := by
  rw [ownTokens, ownTokens, List.filter_append, List.map_append, List.filter_cons]
  simp only [decide_eq_true_eq]
  split <;> rfl

theorem itemTokens_concat : itemTokens (entries ++ [entry]) name =
    itemTokens entries name ++ if entry.1 = name ++ ".*" then [entry.2] else [] := by
  rw [itemTokens, itemTokens, List.filter_append, List.map_append, List.filter_cons]
  simp only [decide_eq_true_eq]
  split <;> rfl

theorem mentioned_concat : mentioned (entries ++ [entry]) =
    if subject entry.1 ∈ mentioned entries then mentioned entries
    else mentioned entries ++ [subject entry.1] := by
  rw [mentioned, mentioned, List.map_append, List.eraseDups_append]
  split
  next h => simp [List.removeAll, List.mem_eraseDups.mp h]
  next h => simp [List.removeAll, mt List.mem_eraseDups.mpr h, List.eraseDups_cons]

end

variable {entries : List Entry}

theorem mem_mentioned {name : String} :
    name ∈ mentioned entries ↔ ownTokens entries name ≠ [] ∨ itemTokens entries name ≠ [] := by
  rw [mentioned, List.mem_eraseDups, ownTokens, itemTokens]
  simp only [List.mem_map, ne_eq, List.map_eq_nil_iff, List.filter_eq_nil_iff, decide_eq_true_eq,
    subject_eq_iff]
  grind

theorem nodup_mentioned (entries : List Entry) : (mentioned entries).Nodup := by
  induction entries using List.reverseRecOn with
  | nil => exact .nil
  | append_singleton entries entry ih =>
    rw [mentioned_concat]
    split
    · exact ih
    next hnew => exact List.concat_eq_append ▸ ih.concat hnew

theorem name_described (entries : List Entry) (name : String) :
    (described entries name).name = name :=
  name_fieldOf _ _

theorem described_concat_of_ne {entry : Entry} {name : String} (h : subject entry.1 ≠ name) :
    described (entries ++ [entry]) name = described entries name := by
  obtain ⟨hown, hitems⟩ := not_or.mp (mt subject_eq_iff.mpr h)
  have hownTokens := ownTokens_concat entries entry name
  have hitemTokens := itemTokens_concat entries entry name
  rw [if_neg hown, List.append_nil] at hownTokens
  rw [if_neg hitems, List.append_nil] at hitemTokens
  rw [described, described, hownTokens, hitemTokens]

theorem described_of_not_mentioned {name : String} (h : name ∉ mentioned entries) :
    described entries name = { name } := by
  obtain ⟨hown, hitems⟩ : ownTokens entries name = [] ∧ itemTokens entries name = [] := by
    simpa using mt mem_mentioned.mpr h
  rw [described, hown, hitems]
  rfl

theorem described_concat_items {entry : Entry} {owner : String}
    (h : itemsOwner? entry.1 = some owner) :
    described (entries ++ [entry]) owner = { described entries owner with
          array := true, itemsType := some (fieldOf owner entry.2).type } := by
  have hown : ownTokens (entries ++ [entry]) owner = ownTokens entries owner := by
    rw [ownTokens_concat, if_neg (by simp [h]), List.append_nil]
  have hitems : itemTokens (entries ++ [entry]) owner = itemTokens entries owner ++ [entry.2] := by
    rw [itemTokens_concat, if_pos (itemsOwner?_eq_some.mp h)]
  simp [described, hown, hitems]

/-- An entry for a field itself takes the place of the one before. What was said about items stays,
and if anything was said before, the field is taken for a list. -/
theorem described_concat_own {entry : Entry} (h : itemsOwner? entry.1 = none) :
    described (entries ++ [entry]) entry.1 =
      { fieldOf entry.1 entry.2 with
        array := (fieldOf entry.1 entry.2).array || decide (entry.1 ∈ mentioned entries)
        itemsType := (described entries entry.1).itemsType } := by
  have hown : ownTokens (entries ++ [entry]) entry.1 = ownTokens entries entry.1 ++ [entry.2] := by
    rw [ownTokens_concat, if_pos ⟨rfl, h⟩]
  have hitems : itemTokens (entries ++ [entry]) entry.1 = itemTokens entries entry.1 := by
    rw [itemTokens_concat, if_neg (fun heq => by simp [itemsOwner?_eq_some.mpr heq] at h),
      List.append_nil]
  have harray : (!(itemTokens entries entry.1).isEmpty ||
      decide (1 < (ownTokens entries entry.1 ++ [entry.2]).length)) =
      decide (entry.1 ∈ mentioned entries) := by
    rw [Bool.eq_iff_iff]
    simp [mem_mentioned, List.length_pos_iff, or_comm]
  simp only [described, hown, hitems, List.getLast?_concat, Option.getD_some, Bool.or_assoc, harray]

theorem itemsType_fieldOf (name : String) (tokens : List String) :
    (fieldOf name tokens).itemsType = none := by
  have hrule :
      ∀ (field : FieldRules) (rule : Rule), (applyRule field rule).itemsType = field.itemsType := by
    intro field rule
    unfold applyRule
    split <;> rfl
  rw [fieldOf, List.foldl_map]
  induction tokens using List.reverseRecOn with
  | nil => rfl
  | append_singleton tokens token ih =>
    rw [List.foldl_append, List.foldl_cons, List.foldl_nil, hrule, ih]

theorem merged_described (entries : List Entry) (entry : Entry) :
    merged entry (if subject entry.1 ∈ mentioned entries then
        some (described entries (subject entry.1)) else none) =
      described (entries ++ [entry]) (subject entry.1) := by
  cases howner : itemsOwner? entry.1 with
  | some owner =>
    rw [subject, howner, Option.getD_some, described_concat_items howner]
    simp only [merged, howner]
    split
    · rfl
    next hnew => rw [described_of_not_mentioned hnew, Option.getD_none]
  | none =>
    rw [subject, howner, Option.getD_none, described_concat_own howner]
    by_cases hold : entry.1 ∈ mentioned entries
    · simp [merged, howner, hold]
    · have hself :
          { fieldOf entry.1 entry.2 with itemsType := none } = fieldOf entry.1 entry.2 := by
        rw [← itemsType_fieldOf entry.1 entry.2]
      simp [merged, howner, hold, described_of_not_mentioned hold, hself]

theorem foldl_addEntry (entries : List Entry) :
    entries.foldl addEntry [] = (mentioned entries).map (described entries) := by
  induction entries using List.reverseRecOn with
  | nil => rfl
  | append_singleton entries entry ih =>
    rw [List.foldl_append, List.foldl_cons, List.foldl_nil, ih, addEntry_eq,
      update_map (nodup_mentioned entries) (name_described entries), mentioned_concat]
    have hmerged := merged_described entries entry
    have hothers : ∀ name ∈ mentioned entries, name ≠ subject entry.1 →
        described entries name = described (entries ++ [entry]) name :=
      fun name _ hne => (described_concat_of_ne hne.symm).symm
    split
    next hold =>
      rw [if_pos hold] at hmerged
      refine List.map_congr_left fun name hname => ?_
      split
      next heq => rw [hmerged, heq]
      next hne => exact hothers name hname hne
    next hnew =>
      rw [if_neg hnew] at hmerged
      rw [hmerged, List.map_append, List.map_singleton]
      refine congrArg (· ++ _) (List.map_congr_left fun name hname => ?_)
      exact hothers name hname (ne_of_mem_of_not_mem hname hnew)

theorem interpret_eq (rules : Json) :
    interpret rules = (mentioned (normalize rules)).map (described (normalize rules)) :=
  foldl_addEntry _

theorem names_interpret (rules : Json) :
    (interpret rules).map FieldRules.name = mentioned (normalize rules) := by
  have hnames : FieldRules.name ∘ described (normalize rules) = id := funext (name_described _)
  rw [interpret_eq, List.map_map, hnames, List.map_id]

theorem mentioned_object (members : Members) :
    mentioned (normalize (.object members)) = (members.names.map subject).eraseDups := by
  rw [mentioned, normalize, List.map_map, Members.names, List.map_map]
  rfl

theorem nodup_names_normalize {members : Members} (h : members.names.Nodup) :
    ((normalize (.object members)).map Prod.fst).Nodup := by
  rw [normalize, List.map_map]
  exact h

variable {others : List Entry}

theorem mentioned_perm (h : entries.Perm others) : (mentioned entries).Perm (mentioned others) := by
  rw [List.perm_ext_iff_of_nodup (nodup_mentioned entries) (nodup_mentioned others)]
  intro name
  rw [mentioned, mentioned, List.mem_eraseDups, List.mem_eraseDups]
  exact (h.map _).mem_iff

theorem length_filter_le_one (hnames : (entries.map Prod.fst).Nodup) {p : Entry → Bool}
    (name : String) (hp : ∀ entry, p entry = true → entry.1 = name) :
    (entries.filter p).length ≤ 1 := by
  have hnodup : ((entries.filter p).map Prod.fst).Nodup :=
    hnames.sublist (List.filter_sublist.map Prod.fst)
  have hsame : (entries.filter p).map Prod.fst = List.replicate (entries.filter p).length name := by
    refine List.eq_replicate_iff.mpr ⟨List.length_map _, fun other hother => ?_⟩
    obtain ⟨entry, hentry, rfl⟩ := List.mem_map.mp hother
    exact hp entry (List.mem_filter.mp hentry).2
  rw [hsame] at hnodup
  exact List.nodup_replicate.mp hnodup

theorem filter_eq_of_perm (hnames : (entries.map Prod.fst).Nodup) (h : entries.Perm others)
    {p : Entry → Bool} (name : String) (hp : ∀ entry, p entry = true → entry.1 = name) :
    entries.filter p = others.filter p := by
  have hlength := length_filter_le_one hnames name hp
  have hperm := h.filter p
  generalize entries.filter p = found at hlength hperm
  match found, hlength with
  | [], _ => exact (List.nil_perm.mp hperm).symm
  | [_], _ => exact List.singleton_perm.mp hperm

theorem described_eq_of_perm (hnames : (entries.map Prod.fst).Nodup) (h : entries.Perm others)
    (name : String) : described entries name = described others name := by
  have hown : ownTokens entries name = ownTokens others name := by
    refine congrArg (List.map Prod.snd) (filter_eq_of_perm hnames h name fun entry hentry => ?_)
    exact (decide_eq_true_iff.mp hentry).1
  have hitems : itemTokens entries name = itemTokens others name := by
    refine congrArg (List.map Prod.snd)
      (filter_eq_of_perm hnames h (name ++ ".*") fun entry hentry => ?_)
    exact decide_eq_true_iff.mp hentry
  rw [described, described, hown, hitems]

/-- The members of an object can stand in any order: its fields are the same, each with all that is
said about it, and they stand in the order in which members speak of them first. -/
theorem interpret_perm {members others : Members} (hnames : members.names.Nodup)
    (h : members.Perm others) : (interpret (.object members)).Perm (interpret (.object others)) ∧
    (interpret (.object members)).map FieldRules.name = (members.names.map subject).eraseDups ∧
    (interpret (.object others)).map FieldRules.name = (others.names.map subject).eraseDups := by
  have horder : ∀ members : Members,
      (interpret (.object members)).map FieldRules.name = (members.names.map subject).eraseDups :=
    fun members => (names_interpret _).trans (mentioned_object members)
  refine ⟨?_, horder members, horder others⟩
  have hperm : (normalize (.object members)).Perm (normalize (.object others)) := h.map _
  rw [interpret_eq, interpret_eq,
    ← funext (described_eq_of_perm (nodup_names_normalize hnames) hperm)]
  exact (mentioned_perm hperm).map _

def itemsFirst : Members :=
  [("tags.*", .string "integer"), ("title", .string "required"), ("tags", .string "required|array")]

def itemsLast : Members :=
  [("title", .string "required"), ("tags", .string "required|array"), ("tags.*", .string "integer")]

theorem interpret_perm_items :
    (interpret (.object itemsFirst)).Perm (interpret (.object itemsLast)) ∧
      (interpret (.object itemsFirst)).map FieldRules.name = ["tags", "title"] ∧
      (interpret (.object itemsLast)).map FieldRules.name = ["title", "tags"] := by
  have hperm : itemsFirst.Perm itemsLast :=
    @List.perm_append_comm _ (itemsFirst.take 1) (itemsFirst.drop 1)
  obtain ⟨hfields, hfirst, hlast⟩ := interpret_perm (by decide) hperm
  exact ⟨hfields, hfirst.trans (by decide), hlast.trans (by decide)⟩

def Says (names tokens : List String) : Prop := ∃ token ∈ tokens, (Rule.parse token).name ∈ names

theorem mark_fieldOf {mark : FieldRules → Bool} {names : List String}
    (hrule : ∀ field rule, mark (applyRule field rule) = (mark field || decide (rule.name ∈ names)))
    {name : String} (hname : mark { name } = false) (tokens : List String) :
    mark (fieldOf name tokens) = true ↔ Says names tokens := by
  have hfold : ∀ (rules : List Rule) (field : FieldRules), mark (rules.foldl applyRule field) =
      (mark field || rules.any fun rule => decide (rule.name ∈ names)) := by
    intro rules
    induction rules with
    | nil => simp
    | cons rule rules ih =>
      intro field
      rw [List.foldl_cons, ih, hrule, List.any_cons, Bool.or_assoc]
  rw [fieldOf, hfold, hname, Says]
  simp

theorem array_applyRule (field : FieldRules) (rule : Rule) :
    (applyRule field rule).array = (field.array || decide (rule.name ∈ ["array"])) := by
  unfold applyRule note
  split <;> simp_all

theorem required_applyRule (field : FieldRules) (rule : Rule) : (applyRule field rule).required =
    (field.required || decide (rule.name ∈ ["required", "present"])) := by
  unfold applyRule note
  split <;> simp_all

theorem array_fieldOf (name : String) (tokens : List String) :
    (fieldOf name tokens).array = true ↔ Says ["array"] tokens :=
  mark_fieldOf array_applyRule rfl tokens

theorem required_fieldOf (name : String) (tokens : List String) :
    (fieldOf name tokens).required = true ↔ Says ["required", "present"] tokens :=
  mark_fieldOf required_applyRule rfl tokens

theorem not_says_nil (names : List String) : ¬ Says names [] := by simp [Says]

theorem getLast?_eq_some_iff {own : List (List String)} (h : own.length ≤ 1)
    (tokens : List String) : own.getLast? = some tokens ↔ tokens ∈ own := by
  match own, h with
  | [], _ => simp
  | [_], _ => simp [eq_comm]

theorem says_last_iff (own : List (List String)) (names : List String) :
    Says names (own.getLast?.getD []) ↔
      ∃ tokens, own.getLast? = some tokens ∧ Says names tokens := by
  cases own.getLast? <;> simp [not_says_nil]

theorem isSome_itemsType_described (entries : List Entry) (name : String) :
    (described entries name).itemsType.isSome = true ↔ itemTokens entries name ≠ [] := by
  simp [described]

theorem array_described (entries : List Entry) (name : String) :
    (described entries name).array = true ↔
      ((∃ tokens ∈ ownTokens entries name, Says ["array"] tokens) ∨ itemTokens entries name ≠ []) ∨
        1 < (ownTokens entries name).length := by
  have harray := array_fieldOf name ((ownTokens entries name).getLast?.getD [])
  rw [says_last_iff] at harray
  by_cases hown : 1 < (ownTokens entries name).length
  · simp [described, hown]
  · simp only [getLast?_eq_some_iff (Nat.not_lt.mp hown)] at harray
    simp [described, hown, harray]

theorem required_described (entries : List Entry) (name : String) :
    (described entries name).required = true ↔ ∃ tokens,
        (ownTokens entries name).getLast? = some tokens ∧ Says ["required", "present"] tokens :=
  (required_fieldOf _ _).trans (says_last_iff _ _)

theorem length_ownTokens_le_one (hnames : (entries.map Prod.fst).Nodup) (name : String) :
    (ownTokens entries name).length ≤ 1 := by
  rw [ownTokens, List.length_map]
  exact length_filter_le_one hnames name fun entry hentry => (decide_eq_true_iff.mp hentry).1

/-- A field has a type of items if there is an entry for its items. It is a list if there is one, if
an entry for the field itself says so, and also if there are several entries for it. Of these the
last one tells whether it is required; where there is only one, any entry does. In an object there
is only one. -/
theorem marks_of_interpret (rules : Json) {field : FieldRules} (h : field ∈ interpret rules) :
    let own := ownTokens (normalize rules) field.name
    let items := itemTokens (normalize rules) field.name
    (field.itemsType.isSome = true ↔ items ≠ []) ∧ (field.array = true ↔
        ((∃ tokens ∈ own, Says ["array"] tokens) ∨ items ≠ []) ∨ 1 < own.length) ∧
      (field.required = true ↔
        ∃ tokens, own.getLast? = some tokens ∧ Says ["required", "present"] tokens) ∧
      (own.length ≤ 1 →
        (field.required = true ↔ ∃ tokens ∈ own, Says ["required", "present"] tokens)) ∧
      ∀ members : Members, members.names.Nodup → rules = .object members → own.length ≤ 1 := by
  intro own items
  rw [interpret_eq] at h
  obtain ⟨name, -, rfl⟩ := List.mem_map.mp h
  have hname : (described (normalize rules) name).name = name := name_described _ _
  have hrequired : (described (normalize rules) name).required = true ↔
      ∃ tokens, own.getLast? = some tokens ∧ Says ["required", "present"] tokens := by
    rw [required_described, ← hname]
  refine ⟨?_, ?_, hrequired, fun honce => ?_, ?_⟩
  · rw [isSome_itemsType_described, ← hname]
  · rw [array_described, ← hname]
  · rw [hrequired]
    simp only [getLast?_eq_some_iff honce]
  · rintro members hnames rfl
    exact length_ownTokens_le_one (nodup_names_normalize hnames) _

def tagged : Json :=
  .array [.array [.string "tags.*", .string "integer"],
    .array [.string "tags", .string "required|max:3"], .array [.string "title", .string "required"]]

theorem marks_of_tagged : ∃ field ∈ interpret tagged,
    field.itemsType.isSome = true ∧ field.array = true ∧ field.required = true := by
  have hm : { name := "tags", required := true, array := true, itemsType := some "integer",
              notes := ["Maximum 3."] } ∈
      interpret tagged := by
    decide
  obtain ⟨hitems, harray, -, hrequired, -⟩ := marks_of_interpret tagged hm
  have hgiven : itemTokens (normalize tagged) "tags" ≠ [] := by decide
  refine ⟨_, hm, hitems.mpr hgiven, harray.mpr (.inl (.inr hgiven)),
    (hrequired (by decide)).mpr ?_⟩
  exact ⟨["required", "max:3"], by decide, "required", List.mem_cons_self,
    by decide⟩

def twice (first second : String) : Json :=
  .array [.array [.string "name", .string first], .array [.string "name", .string second]]

/-- A second entry for a field makes a list of it though no rule says so, and what the first one
required is no longer required. -/
theorem not_marks_of_twice : (¬ ∀ rules field, field ∈ interpret rules → (field.array = true ↔
        (∃ tokens ∈ ownTokens (normalize rules) field.name, Says ["array"] tokens) ∨
          itemTokens (normalize rules) field.name ≠ [])) ∧
    ¬ ∀ rules field, field ∈ interpret rules → (field.required = true ↔
        ∃ tokens ∈ ownTokens (normalize rules) field.name,
          Says ["required", "present"] tokens) := by
  unfold Says
  constructor
  · intro h
    have harray := h (twice "string" "string") { name := "name", array := true } (by decide)
    revert harray
    decide
  · intro h
    have hrequired :=
      h (twice "required" "string") { name := "name", array := true } (by decide)
    revert hrequired
    decide

end ApiContract.Rules
