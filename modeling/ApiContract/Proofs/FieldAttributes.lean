import ApiContract.Proofs.LiteralNotations
import ApiContract.Proofs.NestedSamples
import Mathlib.Data.List.TakeWhile

namespace ApiContract

open Source Reading Grammar

namespace FieldMarks

/-- One entry of an attribute. -/
inductive Mark where
  | word (name : String)
  | assignment (name : String) (text : String)
  | list (name : String) (inside : List Token)

namespace Mark

def name : Mark → String
  | word name => name
  | assignment name _ => name
  | list name _ => name

def tokens : Mark → List Token
  | word name => [.ident name]
  | assignment name text => [.ident name, .punct '=' false, .literal (.string text)]
  | list name inside => [.ident name, .group .round inside]

def isList : Mark → Bool
  | list .. => true
  | _ => false

def skips : Mark → Bool
  | word name => name = "skip" || name = "skip_serializing"
  | _ => false

def flattens : Mark → Bool
  | word name => name = "flatten"
  | _ => false

def rename? : Mark → Option String
  | assignment name text => if name = "rename" then some text else none
  | _ => none

def tells (m : Mark) : Bool := m.skips || m.flattens || m.rename?.isSome

/-- The format refuses `rename` without a name, and anything behind the words that stand alone. -/
def isRegular : Mark → Bool
  | word name => name ≠ "rename"
  | assignment name _ => name ∉ ["skip", "skip_serializing", "flatten"]
  | list name _ => name ∉ ["skip", "skip_serializing", "flatten"]

end Mark

def apply (marks : FieldMarks) (m : Mark) : FieldMarks where
  rename := m.rename?.or marks.rename
  skip := marks.skip || m.skips
  flatten := marks.flatten || m.flattens

/-- What some entries say, if all of them count. -/
def told (ms : List Mark) : FieldMarks where
  rename := (ms.filterMap Mark.rename?).getLast?
  skip := ms.any Mark.skips
  flatten := ms.any Mark.flattens

/-- The entries of one attribute that count. -/
def readable (ms : List Mark) : List Mark := ms.takeWhile fun m => !m.isList

variable {m : Mark} {ms ms' : List Mark} {rest tokens : List Token} {attributes : List Attribute}

theorem path_run (m : Mark) (h : Ends rest) :
    Meta.path.run (m.tokens ++ rest) = some (.ofIdent m.name, m.tokens.tail ++ rest) := by
  cases m <;> cases h <;> rfl

theorem text_run (text : String) (h : Ends rest) :
    (forTokens (.literal (.string text) :: rest)).expr.run (.literal (.string text) :: rest) =
      some (.lit (.string text), rest) := by
  obtain ⟨depth, hdepth⟩ :
      ∃ depth, 16 * (Token.weightAll (.literal (.string text) :: rest) + 4) = depth + 5 :=
    Nat.exists_eq_add_of_le' (by omega)
  rw [forTokens, hdepth]
  cases h <;> rfl

theorem entry_of_other {name : String}
    (hname : name ∉ ["rename", "skip", "skip_serializing", "flatten"]) (marks : FieldMarks) :
    entry (.ofIdent name) marks = do
      if ← acceptOp "=" then
        let tokens ← ahead
        let _ ← (forTokens tokens).expr
        return marks
      else return marks := by
  rw [entry, Path.ofIdent, Path.ident?]
  split
  case h_5 => rfl
  all_goals
    next heq =>
      obtain rfl := Option.some.inj heq
      exact absurd hname (by decide)

theorem entry_word (name : String) (hname : name ≠ "rename") (marks : FieldMarks) (h : Ends rest) :
    (entry (.ofIdent name) marks).run rest = some (marks.apply (.word name), rest) := by
  by_cases hknown : name ∈ ["skip", "skip_serializing", "flatten"]
  · simp only [List.mem_cons, List.not_mem_nil, or_false] at hknown
    obtain rfl | rfl | rfl := hknown
      <;> simp [apply, Mark.rename?, Mark.skips, Mark.flattens] <;> rfl
  · have happly : marks.apply (.word name) = marks := by
      simp only [List.mem_cons, List.not_mem_nil, or_false, not_or] at hknown
      simp [apply, Mark.rename?, Mark.skips, Mark.flattens, hknown]
    rw [entry_of_other (by simpa [hname] using hknown), happly]
    cases h <;> rfl

theorem entry_assignment (name text : String)
    (hname : name ∉ ["skip", "skip_serializing", "flatten"]) (marks : FieldMarks) (h : Ends rest) :
    (entry (.ofIdent name) marks).run (.punct '=' false :: .literal (.string text) :: rest) =
      some (marks.apply (.assignment name text), rest) := by
  by_cases hrename : name = "rename"
  · subst hrename
    simp [apply, Mark.rename?, Mark.skips, Mark.flattens]
    rfl
  · have happly : marks.apply (.assignment name text) = marks := by
      simp [apply, Mark.rename?, Mark.skips, Mark.flattens, hrename]
    have hvalue : (acceptOp "=").run (.punct '=' false :: .literal (.string text) :: rest) =
        some (true, .literal (.string text) :: rest) := rfl
    have hahead : ahead.run (.literal (.string text) :: rest) =
        some (.literal (.string text) :: rest, .literal (.string text) :: rest) := rfl
    rw [entry_of_other (by simpa [hrename] using hname), happly, Reader.run_bind, hvalue]
    dsimp only
    rw [if_pos rfl, Reader.run_bind, hahead]
    dsimp only
    rw [Reader.run_bind, text_run text h]
    rfl

theorem entry_run (hregular : m.isRegular = true) (hlist : m.isList = false) (marks : FieldMarks)
    (h : Ends rest) :
    (entry (.ofIdent m.name) marks).run (m.tokens.tail ++ rest) = some (marks.apply m, rest) := by
  cases m with
  | word name => exact entry_word name (of_decide_eq_true hregular) marks h
  | assignment name text => exact entry_assignment name text (of_decide_eq_true hregular) marks h
  | list => cases hlist

theorem walk_nil (fuel : Nat) (marks : FieldMarks) : Meta.walk entry fuel marks [] = marks := by
  cases fuel <;> rfl

theorem walk_last (hregular : m.isRegular = true) (hlist : m.isList = false) (fuel : Nat)
    (marks : FieldMarks) : Meta.walk entry (fuel + 1) marks m.tokens = marks.apply m := by
  have hpath := path_run m .nil
  rw [List.append_nil] at hpath
  rw [Meta.walk, hpath]
  dsimp only
  rw [entry_run hregular hlist marks .nil]
  rfl

theorem walk_more (hregular : m.isRegular = true) (hlist : m.isList = false) (joint : Bool)
    (fuel : Nat) (marks : FieldMarks) :
    Meta.walk entry (fuel + 1) marks (m.tokens ++ .punct ',' joint :: rest) =
      Meta.walk entry fuel (marks.apply m) rest := by
  rw [Meta.walk, path_run m (.comma joint rest)]
  dsimp only
  rw [entry_run hregular hlist marks (.comma joint rest)]
  change (if rest.isEmpty = true then marks.apply m else _) = _
  cases rest with
  | nil => exact (walk_nil fuel _).symm
  | cons => rfl

/-- A list behind a name ends the attribute. Behind `rename` it is no name, and behind any other
name it is left over. -/
theorem walk_list (hregular : m.isRegular = true) (hlist : m.isList = true) (h : Ends rest)
    (fuel : Nat) (marks : FieldMarks) : Meta.walk entry fuel marks (m.tokens ++ rest) = marks := by
  cases fuel with
  | zero => rfl
  | succ fuel =>
    rw [Meta.walk, path_run m h]
    cases m with
    | word => cases hlist
    | assignment => cases hlist
    | list name inside =>
      have hname := of_decide_eq_true hregular
      by_cases hrename : name = "rename"
      · subst hrename
        rfl
      · dsimp only [Mark.name, Mark.tokens, List.tail_cons, List.cons_append, List.nil_append]
        rw [entry_of_other (by simpa [hrename] using hname)]
        rfl

theorem walk_joined (h : Source.Joined (ms.map Mark.tokens) tokens)
    (hregular : ∀ m ∈ ms, m.isRegular = true) {fuel : Nat} (hfuel : ms.length < fuel)
    (marks : FieldMarks) : Meta.walk entry fuel marks tokens = (readable ms).foldl apply marks := by
  induction ms generalizing tokens fuel marks with
  | nil =>
    cases h
    exact walk_nil fuel marks
  | cons m ms ih =>
    obtain ⟨hfirst, hrest⟩ := List.forall_mem_cons.mp hregular
    rw [List.length_cons] at hfuel
    obtain ⟨fuel, rfl⟩ : ∃ k, fuel = k + 1 := Nat.exists_eq_add_one.mpr (by omega)
    cases hlist : m.isList with
    | true =>
      have hnone : readable (m :: ms) = [] := by simp [readable, hlist]
      rw [hnone, List.foldl_nil]
      generalize hpieces : (m :: ms).map Mark.tokens = pieces at h
      cases h with
      | nil => cases hpieces
      | last piece =>
        obtain ⟨rfl, -⟩ := List.cons.inj hpieces
        simpa using walk_list hfirst hlist .nil (fuel + 1) marks
      | more piece joint =>
        obtain ⟨rfl, -⟩ := List.cons.inj hpieces
        exact walk_list hfirst hlist (.comma joint _) (fuel + 1) marks
    | false =>
      have hmore : readable (m :: ms) = m :: readable ms := by simp [readable, hlist]
      rw [hmore, List.foldl_cons]
      generalize hpieces : (m :: ms).map Mark.tokens = pieces at h
      cases h with
      | nil => cases hpieces
      | last piece =>
        obtain ⟨rfl, hnil⟩ := List.cons.inj hpieces
        obtain rfl : ms = [] := List.map_eq_nil_iff.mp hnil
        exact walk_last hfirst hlist fuel marks
      | more piece joint hjoined =>
        obtain ⟨rfl, rfl⟩ := List.cons.inj hpieces
        rw [walk_more hfirst hlist]
        exact ih hjoined hrest (by omega) _

theorem length_le_of_joined {pieces : List (List Token)} (h : Source.Joined pieces tokens)
    (hne : ∀ piece ∈ pieces, piece ≠ []) : pieces.length ≤ tokens.length := by
  induction h with
  | nil => exact Nat.le_refl _
  | last piece => exact List.length_pos_iff.mpr (hne piece List.mem_cons_self)
  | more piece joint _ ih =>
    have hrest := ih fun other hother => hne other (List.mem_cons_of_mem _ hother)
    rw [List.length_append, List.length_cons, List.length_cons]
    omega

theorem fold_joined (h : Source.Joined (ms.map Mark.tokens) tokens)
    (hregular : ∀ m ∈ ms, m.isRegular = true) (marks : FieldMarks) :
    Meta.fold entry marks tokens = (readable ms).foldl apply marks := by
  have hlength := length_le_of_joined h fun piece hpiece => by
    obtain ⟨m, -, rfl⟩ := List.mem_map.mp hpiece
    cases m <;> exact List.cons_ne_nil _ _
  rw [List.length_map] at hlength
  exact walk_joined h hregular (Nat.lt_succ_of_le hlength) marks

theorem foldl_apply (ms : List Mark) (marks : FieldMarks) : ms.foldl apply marks =
    { rename := (ms.filterMap Mark.rename?).getLast?.or marks.rename
      skip := marks.skip || ms.any Mark.skips
      flatten := marks.flatten || ms.any Mark.flattens } := by
  induction ms generalizing marks with
  | nil => simp
  | cons m ms ih =>
    rw [List.foldl_cons, ih, List.any_cons, List.any_cons, ← Bool.or_assoc, ← Bool.or_assoc,
      List.filterMap_cons]
    cases hrename : m.rename? with
    | none => simp [apply, hrename]
    | some text =>
      rw [List.getLast?_cons]
      cases (ms.filterMap Mark.rename?).getLast? <;> simp [apply, hrename]

theorem told_eq_foldl (ms : List Mark) : told ms = ms.foldl apply {} := by
  rw [foldl_apply]
  simp [told]

/-- Entries say the same in any order, if the name is given at most once. -/
theorem told_perm (h : ms.Perm ms') (hone : (ms.filterMap Mark.rename?).length ≤ 1) :
    told ms = told ms' := by
  have hrenames : ms.filterMap Mark.rename? = ms'.filterMap Mark.rename? := by
    have hperm := h.filterMap Mark.rename?
    generalize ms.filterMap Mark.rename? = texts at hperm hone
    match texts with
    | [] => exact hperm.nil_eq
    | [text] => exact (List.singleton_perm.mp hperm)
    | _ :: _ :: texts => exact absurd hone (by simp)
  rw [told, told, hrenames, h.any_eq, h.any_eq]

theorem told_eq_nothing : told ms = {} ↔ ∀ m ∈ ms, m.tells = false := by
  simp only [told, FieldMarks.mk.injEq, List.getLast?_eq_none_iff, List.filterMap_eq_nil_iff,
    List.any_eq_false, Mark.tells, Bool.or_eq_false_iff, Option.isSome_eq_false_iff,
    Option.isNone_iff_eq_none, Bool.not_eq_true, ← forall_and]
  exact forall_congr' fun m => ⟨fun h hm => by grind, fun h => by grind⟩

/-- The attributes of the data format, among others, hold these groups of entries. -/
def Holds (groups : List (List Mark)) (attributes : List Attribute) : Prop :=
  List.Forall₂ (fun ms tokens => Source.Joined (ms.map Mark.tokens) tokens) groups
    (Meta.lists "serde" attributes)

/-- Some entries in any order, distributed over any number of attributes. -/
def Arranged (ms : List Mark) (attributes : List Attribute) : Prop :=
  ∃ groups, groups.flatten.Perm ms ∧ Holds groups attributes

theorem ofAttributes_of_holds {groups : List (List Mark)} (h : Holds groups attributes)
    (hregular : ∀ ms ∈ groups, ∀ m ∈ ms, m.isRegular = true) :
    ofAttributes attributes = told (groups.flatMap readable) := by
  rw [told_eq_foldl, ofAttributes]
  rw [Holds] at h
  generalize Meta.lists "serde" attributes = lists at h
  generalize ({} : FieldMarks) = marks
  induction h generalizing marks with
  | nil => rfl
  | cons hjoined _ ih =>
    obtain ⟨hfirst, hrest⟩ := List.forall_mem_cons.mp hregular
    rw [List.foldl_cons, List.flatMap_cons, List.foldl_append, fold_joined hjoined hfirst, ih hrest]

def attributeOf (ms : List Mark) : Attribute :=
  ⟨.ofIdent "serde", .list (ms.flatMap fun m => m.tokens ++ [.punct ',' false])⟩

theorem holds_attributes (groups : List (List Mark)) : Holds groups (groups.map attributeOf) := by
  have hlists : Meta.lists "serde" (groups.map attributeOf) =
      groups.map fun ms => ms.flatMap fun m => m.tokens ++ [.punct ',' false] := by
    rw [Meta.lists, List.filterMap_map]
    exact congrFun List.filterMap_eq_map' groups
  rw [Holds, hlists, List.forall₂_map_right_iff, List.forall₂_same]
  rintro ms -
  induction ms with
  | nil => exact .nil
  | cons m ms ih =>
    rw [List.map_cons, List.flatMap_cons, List.append_assoc]
    exact .more m.tokens false ih

theorem flatMap_readable {groups : List (List Mark)} (h : ∀ m ∈ groups.flatten, m.isList = false) :
    groups.flatMap readable = groups.flatten := by
  have hgroups : groups.map readable = groups.map id := by
    refine List.map_congr_left fun group hgroup => List.takeWhile_eq_self_iff.mpr fun m hm => ?_
    simp [h m (List.mem_flatten.mpr ⟨group, hgroup, hm⟩)]
  rw [List.flatMap_def, hgroups, List.map_id]

theorem exists_arranged_ne {list telling : Mark} (hregular : ∀ m ∈ ms, m.isRegular = true)
    (hlist : list ∈ ms) (hisList : list.isList = true) (htelling : telling ∈ ms)
    (htells : telling.tells = true) : ∃ attributes attributes', Arranged ms attributes ∧
    Arranged ms attributes' ∧ ofAttributes attributes ≠ ofAttributes attributes' := by
  obtain ⟨before, after, rfl⟩ := List.append_of_mem hlist
  let apart := (before ++ list :: after).map fun m => [m]
  have hperm : [list :: (before ++ after)].flatten.Perm (before ++ list :: after) := by
    rw [List.flatten_singleton]
    exact List.perm_middle.symm
  have hapart : apart.flatten = before ++ list :: after := List.flatMap_singleton' _
  refine ⟨apart.map attributeOf, [list :: (before ++ after)].map attributeOf,
    ⟨apart, hapart ▸ .refl _, holds_attributes _⟩, ⟨_, hperm, holds_attributes _⟩, ?_⟩
  have hall : ∀ groups : List (List Mark), groups.flatten.Perm (before ++ list :: after) →
      ∀ group ∈ groups, ∀ m ∈ group, m.isRegular = true :=
    fun groups h group hgroup m hm =>
      hregular m (h.mem_iff.mp (List.mem_flatten.mpr ⟨group, hgroup, hm⟩))
  rw [ofAttributes_of_holds (holds_attributes _) (hall _ (hapart ▸ .refl _)),
    ofAttributes_of_holds (holds_attributes _) (hall _ hperm)]
  have hnothing : [list :: (before ++ after)].flatMap readable = [] := by simp [readable, hisList]
  have hkept : telling ∈ apart.flatMap readable := by
    have hown : telling.isList = false := by
      cases telling with
      | list => cases htells
      | word | assignment => rfl
    exact List.mem_flatMap.mpr
      ⟨[telling], List.mem_map.mpr ⟨telling, htelling, rfl⟩, by simp [readable, hown]⟩
  rw [hnothing]
  intro heq
  exact absurd (told_eq_nothing.mp heq telling hkept) (by simp [htells])

end FieldMarks

namespace Struct

/-- The structs are shown alike: as transformers, whatever is projected onto them, and as
samples. -/
structure ShownAlike (s s' : Struct) : Prop where
  project : ∀ structs model item,
      Transformers.project structs s model item = Transformers.project structs s' model item
  sample : ∀ {structs structs' : Structs} {type : FieldType},
      structs.record? type = some s → structs'.record? type = some s' →
        ∀ inner, structs.sampleOf (some inner) type = structs'.sampleOf (some inner) type

theorem shownAlike_of_skip (scope : Scope) (name : String) (before after : List FieldDecl)
    {f : FieldDecl} (h : (FieldMarks.ofAttributes f.attributes).skip = true) :
    ShownAlike (ofFields scope name (.named (before ++ f :: after)))
      (ofFields scope name (.named (before ++ after))) := by
  have hshown : (ofFields scope name (.named (before ++ f :: after))).shown =
      (ofFields scope name (.named (before ++ after))).shown := by
    simp [shown, ofFields, h]
  refine ⟨fun structs model item => ?_, fun hs hs' inner => ?_⟩
  · change Json.object (List.foldl _ _ (shown _)) = Json.object (List.foldl _ _ (shown _))
    rw [hshown]
  · rw [Structs.sampleOf_record hs, Structs.sampleOf_record hs', hshown]

end Struct

namespace FieldMarks

/-- Of the entries that the attributes of a field hold, those count that no list precedes in their
attribute. All arrangements of some entries say the same exactly if there is no list among them, or
nothing that it could hide. Without lists all entries count, so that a field which is marked as
skipped anywhere is never shown. -/
theorem marks_of_arranged {ms : List Mark} (hregular : ∀ m ∈ ms, m.isRegular = true)
    (hone : (ms.filterMap Mark.rename?).length ≤ 1) : (∀ groups attributes, groups.flatten.Perm ms →
      Holds groups attributes → ofAttributes attributes = told (groups.flatMap readable)) ∧
    ((∀ attributes attributes', Arranged ms attributes → Arranged ms attributes' →
        ofAttributes attributes = ofAttributes attributes') ↔
      (∀ m ∈ ms, m.isList = false) ∨ ∀ m ∈ ms, m.tells = false) ∧
    ((∀ m ∈ ms, m.isList = false) → ∀ attributes, Arranged ms attributes →
        ofAttributes attributes = told ms ∧ ((∃ m ∈ ms, m.skips = true) →
            ∀ scope name before after field type, Struct.ShownAlike
              (Struct.ofFields scope name (.named (before ++ ⟨attributes, field, type⟩ :: after)))
              (Struct.ofFields scope name (.named (before ++ after))))) := by
  have hread : ∀ groups attributes, groups.flatten.Perm ms → Holds groups attributes →
      ofAttributes attributes = told (groups.flatMap readable) :=
    fun groups attributes hperm hholds => ofAttributes_of_holds hholds fun group hgroup m hm =>
      hregular m (hperm.mem_iff.mp (List.mem_flatten.mpr ⟨group, hgroup, hm⟩))
  have hplain : (∀ m ∈ ms, m.isList = false) →
      ∀ attributes, Arranged ms attributes → ofAttributes attributes = told ms := by
    rintro hlists attributes ⟨groups, hperm, hholds⟩
    rw [hread groups attributes hperm hholds,
      flatMap_readable fun m hm => hlists m (hperm.mem_iff.mp hm)]
    exact (told_perm hperm.symm hone).symm
  refine ⟨hread, ⟨fun hsame => ?_, ?_⟩,
    fun hlists attributes harranged => ⟨hplain hlists attributes harranged, ?_⟩⟩
  · by_contra hboth
    obtain ⟨⟨list, hlist, hisList⟩, telling, htelling, htells⟩ :
        (∃ m ∈ ms, m.isList = true) ∧ ∃ m ∈ ms, m.tells = true := by simpa using hboth
    obtain ⟨attributes, attributes', h, h', hne⟩ :=
      exists_arranged_ne hregular hlist hisList htelling htells
    exact hne (hsame attributes attributes' h h')
  · rintro (hlists | hsilent) attributes attributes' h h'
    · rw [hplain hlists attributes h, hplain hlists attributes' h']
    · have hnothing : ∀ attributes, Arranged ms attributes → ofAttributes attributes = {} := by
        rintro attributes ⟨groups, hperm, hholds⟩
        rw [hread groups attributes hperm hholds, told_eq_nothing]
        intro m hm
        obtain ⟨group, hgroup, hm⟩ := List.mem_flatMap.mp hm
        exact hsilent m (hperm.mem_iff.mp
          (List.mem_flatten.mpr ⟨group, hgroup, (List.takeWhile_sublist _).subset hm⟩))
      rw [hnothing attributes h, hnothing attributes' h']
  · rintro ⟨m, hm, hskips⟩ scope name before after field type
    refine Struct.shownAlike_of_skip scope name before after ?_
    rw [hplain hlists attributes harranged]
    exact List.any_eq_true.mpr ⟨m, hm, hskips⟩

theorem marks_of_hidden_key :
    let ms : List Mark :=
      [.word "skip", .assignment "with" "hex", .assignment "rename" "key", .word "default"]
    let attributes := [[.assignment "rename" "key", .word "default"],
      [.word "skip", .assignment "with" "hex"]].map attributeOf
    (∀ m ∈ ms, m.isRegular = true) ∧ (ms.filterMap Mark.rename?).length ≤ 1 ∧
      (∀ m ∈ ms, m.isList = false) ∧ (∃ m ∈ ms, m.skips = true) ∧ Arranged ms attributes ∧
      ofAttributes attributes = { rename := some "key", skip := true } ∧
      ofAttributes attributes = ofAttributes [attributeOf ms] ∧ ∀ scope type,
        Struct.ShownAlike (Struct.ofFields scope "User" (.named [⟨attributes, "secret", type⟩]))
          (Struct.ofFields scope "User" (.named [])) := by
  intro ms attributes
  have hregular : ∀ m ∈ ms, m.isRegular = true := by decide
  have hone : (ms.filterMap Mark.rename?).length ≤ 1 := by decide
  have hlists : ∀ m ∈ ms, m.isList = false := by decide
  have hskips : ∃ m ∈ ms, m.skips = true := by decide
  have harranged : Arranged ms attributes :=
    ⟨[[.assignment "rename" "key", .word "default"], [.word "skip", .assignment "with" "hex"]],
      @List.perm_append_comm _ [_, _] [_, _], holds_attributes _⟩
  have hwhole : Arranged ms [attributeOf ms] := ⟨[ms], .refl ms, holds_attributes [ms]⟩
  obtain ⟨-, hsame, hplain⟩ := marks_of_arranged hregular hone
  obtain ⟨htold, hhidden⟩ := hplain hlists attributes harranged
  refine ⟨hregular, hone, hlists, hskips, harranged, htold,
    hsame.mpr (.inl hlists) _ _ harranged hwhole, fun scope type => ?_⟩
  exact hhidden hskips scope "User" [] [] "secret" type

/-- Behind `rename(serialize = "key")` the word `skip` is lost, and before it the word counts. -/
theorem not_marks_of_arranged :
    ¬ ∀ (ms : List Mark) (attributes attributes' : List Attribute), (∀ m ∈ ms, m.isRegular = true) →
      (ms.filterMap Mark.rename?).length ≤ 1 → Arranged ms attributes → Arranged ms attributes' →
      ofAttributes attributes = ofAttributes attributes' := by
  intro h
  let renamed : Mark :=
    .list "rename" [.ident "serialize", .punct '=' false, .literal (.string "key")]
  let skipped : Mark := .word "skip"
  have hfirst : Arranged [renamed, skipped] [attributeOf [renamed, skipped]] :=
    ⟨[[renamed, skipped]], .refl _, holds_attributes [[renamed, skipped]]⟩
  have hlast : Arranged [renamed, skipped] [attributeOf [skipped, renamed]] :=
    ⟨[[skipped, renamed]], .swap renamed skipped [], holds_attributes [[skipped, renamed]]⟩
  have hsame := h _ _ _ (by decide) (by decide) hfirst hlast
  have hshown : ofAttributes [attributeOf [renamed, skipped]] = {} := rfl
  have hhidden : ofAttributes [attributeOf [skipped, renamed]] = { skip := true } := rfl
  rw [hshown, hhidden] at hsame
  cases hsame

end FieldMarks

end ApiContract
