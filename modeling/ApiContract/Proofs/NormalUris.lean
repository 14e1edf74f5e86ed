import ApiContract.Proofs.NestedUris
import ApiContract.Proofs.RequestParameters

namespace ApiContract

namespace Text

theorem not_mem_of_mem_cutAt {separator : Char} {s piece : List Char}
    (h : piece ∈ cutAt separator s) : separator ∉ piece := by
  induction s generalizing piece with
  | nil =>
    obtain rfl := List.mem_singleton.mp h
    exact List.not_mem_nil
  | cons c s ih =>
    by_cases hc : c = separator
    · rw [cutAt, if_pos hc] at h
      obtain rfl | h := List.mem_cons.mp h
      · exact List.not_mem_nil
      · exact ih h
    · cases hs : cutAt separator s with
      | nil => exact absurd hs (cutAt_ne_nil separator s)
      | cons first pieces =>
        rw [hs] at ih
        rw [cutAt, if_neg hc, hs, grow] at h
        obtain rfl | h := List.mem_cons.mp h
        · exact List.not_mem_cons_of_ne_of_not_mem (Ne.symm hc) (ih List.mem_cons_self)
        · exact ih (List.mem_cons_of_mem _ h)

theorem cutAt_join {separator : Char} {pieces : List (List Char)} (hne : pieces ≠ [])
    (h : ∀ piece ∈ pieces, separator ∉ piece) :
    cutAt separator (join [separator] pieces) = pieces := by
  induction pieces with
  | nil => exact absurd rfl hne
  | cons piece pieces ih =>
    obtain ⟨hpiece, hpieces⟩ := List.forall_mem_cons.mp h
    cases pieces with
    | nil => exact cutAt_of_not_mem hpiece
    | cons next pieces =>
      rw [join, List.append_assoc, List.singleton_append, cutAt_append, cutAt_of_not_mem hpiece,
        ih (List.cons_ne_nil _ _) hpieces, List.singleton_append]

theorem head?_join {separator piece : List Char} (h : piece ≠ []) (pieces : List (List Char)) :
    (join separator (piece :: pieces)).head? = piece.head? := by
  cases pieces with
  | nil => rfl
  | cons next pieces => rw [join, List.append_assoc, List.head?_append_of_ne_nil _ h]

theorem getLast?_join {separator piece : List Char} (h : piece ≠ []) (pieces : List (List Char)) :
    (join separator (pieces ++ [piece])).getLast? = piece.getLast? := by
  cases pieces with
  | nil => rfl
  | cons first pieces =>
    have hlast : join separator [piece] = piece := rfl
    rw [join_append separator (List.cons_ne_nil _ _) (List.cons_ne_nil _ _), hlast,
      List.getLast?_append_of_ne_nil _ h]

end Text

namespace Uri

open Text

/-- There is but one segment, or neither the first nor the last of them is empty. -/
def Closed (segments : List (List Char)) : Prop :=
  segments.length = 1 ∨ segments.head? ≠ some [] ∧ segments.getLast? ≠ some []

theorem closed_cutAt {s : List Char} (h : strip isSlash s = s) : Closed (cutAt '/' s) := by
  obtain ⟨hhead, hlast⟩ := strip_eq_self_iff.mp h
  rw [← join_cutAt '/' s] at hhead hlast
  by_cases hone : (cutAt '/' s).length = 1
  · exact .inl hone
  refine .inr ⟨fun hempty => ?_, fun hempty => ?_⟩
  · obtain ⟨rest, hrest⟩ := List.head?_eq_some_iff.mp hempty
    cases rest with
    | nil => exact hone (by rw [hrest]; rfl)
    | cons next rest =>
      rw [hrest] at hhead
      exact absurd (hhead '/' rfl) (by decide)
  · obtain ⟨front, hfront⟩ := List.getLast?_eq_some_iff.mp hempty
    cases front with
    | nil => exact hone (by rw [hfront]; rfl)
    | cons first front =>
      rw [hfront, join_append _ (List.cons_ne_nil _ _) (List.cons_ne_nil _ _), join,
        List.append_nil, List.getLast?_concat] at hlast
      exact absurd (hlast '/' rfl) (by decide)

theorem isSlash_eq_false {c : Char} {segment : List Char} (h : '/' ∉ segment) (hc : c ∈ segment) :
    isSlash c = false := by
  rw [isSlash, decide_eq_false_iff_not]
  rintro rfl
  exact h hc

theorem Closed.strip_join {segments : List (List Char)} (h : Closed segments)
    (hslash : ∀ segment ∈ segments, '/' ∉ segment) :
    strip isSlash (join ['/'] segments) = join ['/'] segments := by
  rw [strip_eq_self_iff]
  obtain hone | ⟨hhead, hlast⟩ := h
  · obtain ⟨segment, rfl⟩ := List.length_eq_one_iff.mp hone
    have hnone := hslash segment List.mem_cons_self
    exact ⟨fun c hc => isSlash_eq_false hnone (List.mem_of_mem_head? hc),
      fun c hc => isSlash_eq_false hnone (List.mem_of_getLast? hc)⟩
  · constructor
    · cases segments with
      | nil => exact nofun
      | cons first segments =>
        have hne : first ≠ [] := fun heq => hhead (congrArg some heq)
        rw [head?_join hne]
        exact fun c hc =>
          isSlash_eq_false (hslash first List.mem_cons_self) (List.mem_of_mem_head? hc)
    · cases segments using List.reverseRecOn with
      | nil => exact nofun
      | append_singleton front last =>
        rw [List.getLast?_concat] at hlast
        have hne : last ≠ [] := fun heq => hlast (congrArg some heq)
        rw [getLast?_join hne]
        exact fun c hc => isSlash_eq_false
          (hslash last (List.mem_append_right _ List.mem_cons_self)) (List.mem_of_getLast? hc)

theorem Closed.cutAt_strip_join {segments : List (List Char)} (h : Closed segments)
    (hne : segments ≠ []) (hslash : ∀ segment ∈ segments, '/' ∉ segment) :
    cutAt '/' (strip isSlash (join ['/'] segments)) = segments := by
  rw [h.strip_join hslash, cutAt_join hne hslash]

theorem Closed.map {segments : List (List Char)} (h : Closed segments) {f : List Char → List Char}
    (hf : ∀ segment, f segment = [] → segment = []) : Closed (segments.map f) := by
  refine h.imp (fun hone => by rw [List.length_map, hone]) fun ⟨hhead, hlast⟩ =>
    ⟨fun hempty => ?_, fun hempty => ?_⟩
  · rw [List.head?_map, Option.map_eq_some_iff] at hempty
    obtain ⟨segment, hsegment, heq⟩ := hempty
    exact hhead (hf segment heq ▸ hsegment)
  · rw [List.getLast?_map, Option.map_eq_some_iff] at hempty
    obtain ⟨segment, hsegment, heq⟩ := hempty
    exact hlast (hf segment heq ▸ hsegment)

def unmarked (name : List Char) : List Char := dropEnd (· = '?') (dropStart (· = '*') name)

/-- A name with the marker of a wildcard before it, or that of an optional segment behind it. -/
def Marked (name : List Char) : Prop := name.head? = some '*' ∨ name.getLast? = some '?'

instance (name : List Char) : Decidable (Marked name) :=
  inferInstanceAs (Decidable (name.head? = some '*' ∨ name.getLast? = some '?'))

theorem unmarked_eq_self_iff {name : List Char} : unmarked name = name ↔ ¬ Marked name := by
  have hends :
      unmarked name = name ↔ dropStart (· = '*') name = name ∧ dropEnd (· = '?') name = name := by
    refine ⟨drop_of_eq_self, fun ⟨hstart, hend⟩ => ?_⟩
    rw [unmarked, hstart, hend]
  have hnone : ∀ (found : Option Char) (marker : Char),
      (∀ c ∈ found, decide (c = marker) = false) ↔ found ≠ some marker := by
    intro found marker
    cases found <;> simp
  rw [hends, dropStart_eq_self_iff, dropEnd_eq_self_iff, hnone, hnone, Marked, not_or]

theorem not_marked_unmarked (name : List Char) : ¬ Marked (unmarked name) := by
  rintro (hstar | hmark)
  · obtain ⟨back, hback⟩ : unmarked name <+: dropStart (· = '*') name := List.rdropWhile_prefix _ _
    have hhead : (dropStart (· = '*') name).head? = some '*' := by
      rw [← hback, List.head?_append, hstar, Option.some_or]
    exact absurd (dropStart_eq_self_iff.mp (List.dropWhile_idempotent _ name) '*' hhead) (by decide)
  · exact absurd (dropEnd_eq_self_iff.mp (List.rdropWhile_idempotent _ _) '?' hmark) (by decide)

/-- A segment and its normal form. -/
inductive Normal : List Char → List Char → Prop where
  | colon (name : List Char) : Normal (':' :: name) (braced name)
  | star (name : List Char) : Normal ('*' :: name) (braced name)
  | braces (name : List Char) : Normal (braced name) (braced (unmarked name))
  | plain {segment : List Char} (hbraces : placeholder? segment = none) : Normal segment segment

theorem normal_normalizeSegment (segment : List Char) :
    Normal segment (normalizeSegment segment) := by
  unfold normalizeSegment
  split
  next name => exact .colon name
  next name => exact .star name
  next =>
    split
    next name hname =>
      rw [placeholder?_eq_some.mp hname]
      exact .braces name
    next hbraces => exact .plain hbraces

theorem braced_injective {name other : List Char} (h : braced name = braced other) :
    name = other := by
  simpa [braced] using h

theorem normalizeSegment_braced (name : List Char) :
    normalizeSegment (braced name) = braced (unmarked name) := by
  have hnormal := normal_normalizeSegment (braced name)
  generalize hsegment : braced name = segment at hnormal
  generalize normalizeSegment segment = form at hnormal
  cases hnormal with
  | colon other | star other => simp [braced] at hsegment
  | braces other => rw [braced_injective hsegment]
  | plain hbraces =>
    rw [← hsegment, placeholder?_eq_some.mpr rfl] at hbraces
    cases hbraces

theorem braced_unmarked_eq_iff {name : List Char} :
    braced (unmarked name) = braced name ↔ ¬ Marked name := by
  rw [← unmarked_eq_self_iff]
  exact ⟨braced_injective, congrArg braced⟩

/-- A placeholder that does not stand in braces keeps its markers. -/
def KeepsMarker (segment : List Char) : Prop :=
  ∃ name, Marked name ∧ (segment = ':' :: name ∨ segment = '*' :: name)

theorem keepsMarker_colon {name : List Char} : KeepsMarker (':' :: name) ↔ Marked name := by
  simp [KeepsMarker]

theorem keepsMarker_star {name : List Char} : KeepsMarker ('*' :: name) ↔ Marked name := by
  simp [KeepsMarker]

theorem normalizeSegment_eq_nil {segment : List Char} (h : normalizeSegment segment = []) :
    segment = [] := by
  have hnormal := normal_normalizeSegment segment
  rw [h] at hnormal
  cases hnormal with
  | plain => rfl

theorem not_mem_braced {c : Char} {name : List Char} (hopen : c ≠ '{') (hclose : c ≠ '}')
    (h : c ∉ name) : c ∉ braced name := by
  simp [braced, hopen, hclose, h]

theorem mem_of_mem_unmarked {c : Char} {name : List Char} (h : c ∈ unmarked name) : c ∈ name :=
  (List.dropWhile_suffix _).mem ((List.rdropWhile_prefix _ _).mem h)

theorem not_mem_normalizeSegment {segment : List Char} (h : '/' ∉ segment) :
    '/' ∉ normalizeSegment segment := by
  have hnormal := normal_normalizeSegment segment
  generalize normalizeSegment segment = form at hnormal
  cases hnormal with
  | colon name | star name =>
    exact not_mem_braced (by decide) (by decide) fun hm => h (List.mem_cons_of_mem _ hm)
  | braces name =>
    refine not_mem_braced (by decide) (by decide) fun hm => h ?_
    exact List.mem_cons_of_mem _ (List.mem_append_left _ (mem_of_mem_unmarked hm))
  | plain => exact h

/-- A normal form stays as it is, unless it is that of a placeholder with a marker that was kept. -/
theorem normalizeSegment_normalizeSegment_iff {segment : List Char} :
    normalizeSegment (normalizeSegment segment) = normalizeSegment segment ↔
      ¬ KeepsMarker segment := by
  have hnormal := normal_normalizeSegment segment
  generalize hform : normalizeSegment segment = form at hnormal
  cases hnormal with
  | colon name => rw [normalizeSegment_braced, braced_unmarked_eq_iff, keepsMarker_colon]
  | star name => rw [normalizeSegment_braced, braced_unmarked_eq_iff, keepsMarker_star]
  | braces name =>
    rw [normalizeSegment_braced, braced_unmarked_eq_iff]
    simp [KeepsMarker, braced, not_marked_unmarked]
  | plain =>
    refine iff_of_true hform ?_
    rintro ⟨name, -, rfl | rfl⟩
    · cases hform
    · cases hform

/-- Ways to write the placeholder of a name. -/
inductive Spells (name : List Char) : List Char → Prop where
  | colon : Spells name (':' :: name)
  | star : Spells name ('*' :: name)
  | braces {stars marks : List Char} (hstars : ∀ c ∈ stars, c = '*')
      (hmarks : ∀ c ∈ marks, c = '?') : Spells name (braced (stars ++ name ++ marks))

theorem unmarked_surrounded {name stars marks : List Char} (h : ¬ Marked name)
    (hstars : ∀ c ∈ stars, c = '*') (hmarks : ∀ c ∈ marks, c = '?') :
    unmarked (stars ++ name ++ marks) = name := by
  have hall : ∀ {marker : Char} {markers : List Char}, (∀ c ∈ markers, c = marker) →
      ∀ c ∈ markers, decide (c = marker) = true := fun h c hc => decide_eq_true (h c hc)
  obtain ⟨hstart, hend⟩ := drop_of_eq_self (unmarked_eq_self_iff.mpr h)
  rw [unmarked, List.append_assoc, dropStart_append,
    if_pos (dropStart_eq_nil_iff.mpr (hall hstars)), dropStart_append]
  split
  next hname =>
    -- the name is empty, and a question mark is no asterisk
    obtain rfl : name = [] := hstart.symm.trans hname
    have hmarks' : dropStart (· = '*') marks = marks := by
      rw [dropStart_eq_self_iff]
      intro c hc
      rw [hmarks c (List.mem_of_mem_head? hc)]
      decide
    rw [hmarks']
    exact dropEnd_append_of_forall [] (hall hmarks)
  next => rw [hstart, dropEnd_append_of_forall _ (hall hmarks), hend]

theorem exists_surrounded (name : List Char) : ∃ stars marks : List Char, (∀ c ∈ stars, c = '*') ∧
    (∀ c ∈ marks, c = '?') ∧ name = stars ++ unmarked name ++ marks := by
  obtain ⟨marks, hmarks, hrest⟩ := exists_dropEnd (· = '?') (dropStart (· = '*') name)
  refine ⟨name.takeWhile (· = '*'), marks, fun c hc => ?_,
    fun c hc => of_decide_eq_true (hmarks c hc), ?_⟩
  · exact of_decide_eq_true (List.mem_takeWhile_imp (p := fun c => decide (c = '*')) hc)
  · rw [List.append_assoc, unmarked, ← hrest]
    exact (List.takeWhile_append_dropWhile (p := fun c => decide (c = '*'))).symm

/-- The spellings of a name are the segments that have the name in braces as their normal form. -/
theorem normalizeSegment_eq_braced_iff {name segment : List Char} (h : ¬ Marked name) :
    normalizeSegment segment = braced name ↔ Spells name segment := by
  constructor
  · intro hform
    have hnormal := normal_normalizeSegment segment
    generalize normalizeSegment segment = form at hform hnormal
    cases hnormal with
    | colon other =>
      obtain rfl := braced_injective hform
      exact .colon
    | star other =>
      obtain rfl := braced_injective hform
      exact .star
    | braces other =>
      obtain ⟨stars, marks, hstars, hmarks, hother⟩ := exists_surrounded other
      rw [hother, braced_injective hform]
      exact .braces hstars hmarks
    | plain hbraces =>
      exact absurd hbraces (by rw [placeholder?_eq_some.mpr hform]; exact Option.some_ne_none _)
  · intro hspells
    cases hspells with
    | colon => rfl
    | star => rfl
    | braces hstars hmarks => rw [normalizeSegment_braced, unmarked_surrounded h hstars hmarks]

/-- The same segment, or the same placeholder without markers of its own, however it is written. -/
def Respelled (segment other : List Char) : Prop :=
  segment = other ∨ ∃ name, ¬ Marked name ∧ Spells name segment ∧ Spells name other

theorem Respelled.normalizeSegment_eq {segment other : List Char} (h : Respelled segment other) :
    normalizeSegment segment = normalizeSegment other := by
  obtain rfl | ⟨name, hname, hsegment, hother⟩ := h
  · rfl
  · rw [(normalizeSegment_eq_braced_iff hname).mpr hsegment,
      (normalizeSegment_eq_braced_iff hname).mpr hother]

def segments (uri : String) : List (List Char) := cutAt '/' (strip isSlash uri.toList)

theorem normalizeChars_eq (uri : String) :
    normalizeChars uri.toList = '/' :: join ['/'] ((segments uri).map normalizeSegment) := rfl

theorem not_mem_of_mem_segments {uri : String} {segment : List Char} (h : segment ∈ segments uri) :
    '/' ∉ segment :=
  not_mem_of_mem_cutAt h

theorem not_mem_of_mem_normal {uri : String} :
    ∀ segment ∈ (segments uri).map normalizeSegment, '/' ∉ segment := by
  intro segment h
  obtain ⟨written, hwritten, rfl⟩ := List.mem_map.mp h
  exact not_mem_normalizeSegment (not_mem_of_mem_segments hwritten)

theorem segments_normalize (uri : String) :
    segments (normalize uri) = (segments uri).map normalizeSegment := by
  have hclosed : Closed ((segments uri).map normalizeSegment) :=
    (closed_cutAt (strip_strip _)).map fun _ => normalizeSegment_eq_nil
  have hslash : ∀ c ∈ ['/'], isSlash c = true := by simp [isSlash]
  rw [segments, toList_normalize, normalizeChars_eq, ← List.singleton_append,
    strip_append_left hslash]
  exact hclosed.cutAt_strip_join (by simp [segments, cutAt_ne_nil]) not_mem_of_mem_normal

theorem normalize_eq_iff {uri other : String} : normalize uri = normalize other ↔
    (segments uri).map normalizeSegment = (segments other).map normalizeSegment := by
  constructor
  · intro h
    rw [← segments_normalize, ← segments_normalize, h]
  · intro h
    rw [← String.toList_inj, toList_normalize, toList_normalize, normalizeChars_eq,
      normalizeChars_eq, h]

theorem placeholders_normalize (uri : String) : placeholders (normalize uri) =
    (((segments uri).map normalizeSegment).filterMap placeholder?).map String.ofList := by
  have hpieces : cutAt '/' (normalize uri).toList = [] :: (segments uri).map normalizeSegment := by
    rw [toList_normalize, normalizeChars_eq, cutAt, if_pos rfl,
      cutAt_join (by simp [segments, cutAt_ne_nil]) not_mem_of_mem_normal]
  rw [placeholders, hpieces]
  rfl

theorem keepsMarker_iff {segment : List Char} : KeepsMarker segment ↔
    ∃ name, placeholder? (normalizeSegment segment) = some name ∧ Marked name := by
  simp only [placeholder?_eq_some]
  constructor
  · rintro ⟨name, hmarked, rfl | rfl⟩
    · exact ⟨name, rfl, hmarked⟩
    · exact ⟨name, rfl, hmarked⟩
  · rintro ⟨name, hform, hmarked⟩
    by_contra hkeeps
    rw [← normalizeSegment_normalizeSegment_iff, hform, normalizeSegment_braced,
      braced_unmarked_eq_iff] at hkeeps
    exact hkeeps hmarked

theorem forall_not_keepsMarker_iff {uri : String} :
    (∀ segment ∈ segments uri, ¬ KeepsMarker segment) ↔
      ∀ name ∈ placeholders (normalize uri), ¬ Marked name.toList := by
  simp only [placeholders_normalize, keepsMarker_iff, List.mem_map, List.mem_filterMap]
  constructor
  · rintro h _ ⟨name, ⟨_, ⟨segment, hsegment, rfl⟩, hname⟩, rfl⟩ hmarked
    rw [String.toList_ofList] at hmarked
    exact h segment hsegment ⟨name, hname, hmarked⟩
  · rintro h segment hsegment ⟨name, hname, hmarked⟩
    refine h (String.ofList name) ⟨name, ⟨_, ⟨segment, hsegment, rfl⟩, hname⟩, rfl⟩ ?_
    rwa [String.toList_ofList]

theorem normalize_normalize_iff {uri : String} : normalize (normalize uri) = normalize uri ↔
    ∀ segment ∈ segments uri, ¬ KeepsMarker segment := by
  rw [normalize_eq_iff, segments_normalize, List.map_map, List.map_inj_left]
  simp only [Function.comp_apply, normalizeSegment_normalizeSegment_iff]

theorem not_keepsMarker_normalizeSegment (segment : List Char) :
    ¬ KeepsMarker (normalizeSegment segment) := by
  have hnormal := normal_normalizeSegment segment
  generalize hform : normalizeSegment segment = form at hnormal
  cases hnormal with
  | colon name | star name | braces name => simp [KeepsMarker, braced]
  | plain => rw [← normalizeSegment_normalizeSegment_iff, hform, hform]

theorem placeholder?_normalizeSegment (segment : List Char) :
    placeholder? (normalizeSegment (normalizeSegment segment)) =
      (placeholder? (normalizeSegment segment)).map unmarked := by
  have hnormal := normal_normalizeSegment segment
  generalize hform : normalizeSegment segment = form at hnormal
  have hbraced : ∀ name, placeholder? (braced name) = some name :=
    fun _ => placeholder?_eq_some.mpr rfl
  cases hnormal with
  | colon name | star name | braces name =>
    rw [normalizeSegment_braced, hbraced, hbraced, Option.map_some]
  | plain hbraces => rw [hform, hbraces, Option.map_none]

theorem placeholders_normalize_normalize (uri : String) : placeholders (normalize (normalize uri)) =
    (placeholders (normalize uri)).map fun name => String.ofList (unmarked name.toList) := by
  simp only [placeholders_normalize, segments_normalize, List.map_filterMap, List.filterMap_map]
  congr 1
  funext segment
  simp [placeholder?_normalizeSegment, Option.map_map, Function.comp_def]

theorem normalize_eq_of_respelled {uri other : String}
    (h : List.Forall₂ Respelled (segments uri) (segments other)) :
    normalize uri = normalize other := by
  rw [normalize_eq_iff, ← List.forall₂_eq_eq_eq, List.forall₂_map_left_iff,
    List.forall₂_map_right_iff]
  exact h.imp fun _ _ => Respelled.normalizeSegment_eq

/-- A path is in normal form after one step unless a placeholder keeps a marker, and after two steps
it always is. Paths with the same placeholders, written without such markers, have one normal
form. -/
theorem normalize_normalize (uri : String) :
    (normalize (normalize uri) = normalize uri ↔ ∀ segment ∈ segments uri, ¬ KeepsMarker segment) ∧
      (normalize (normalize uri) = normalize uri ↔
        ∀ name ∈ placeholders (normalize uri), ¬ Marked name.toList) ∧
      normalize (normalize (normalize uri)) = normalize (normalize uri) ∧
      placeholders (normalize (normalize uri)) =
        (placeholders (normalize uri)).map (fun name => String.ofList (unmarked name.toList)) ∧
      ∀ other, List.Forall₂ Respelled (segments uri) (segments other) →
        normalize uri = normalize other := by
  refine ⟨normalize_normalize_iff, ?_, ?_, placeholders_normalize_normalize uri,
    fun _ => normalize_eq_of_respelled⟩
  · rw [normalize_normalize_iff, forall_not_keepsMarker_iff]
  · rw [normalize_normalize_iff, segments_normalize]
    intro segment hsegment
    obtain ⟨written, -, rfl⟩ := List.mem_map.mp hsegment
    exact not_keepsMarker_normalizeSegment written

/-- Spellings of the placeholder of `user`, with slashes or without. -/
theorem normalize_normalize_user :
    List.Forall₂ Respelled (segments "/users/:user/") (segments "users/{**user?}") ∧
    normalize "/users/:user/" = normalize "users/{**user?}" := by
  have hwritten : segments "/users/:user/" = ["users".toList, ':' :: "user".toList] := by
    decide
  have hother : segments "users/{**user?}" =
      ["users".toList, braced (['*', '*'] ++ "user".toList ++ ['?'])] := by decide
  have hspelled :
      List.Forall₂ Respelled (segments "/users/:user/") (segments "users/{**user?}") := by
    have hbraces : Spells "user".toList (braced (['*', '*'] ++ "user".toList ++ ['?'])) :=
      .braces (by simp) (by simp)
    rw [hwritten, hother]
    exact .cons (.inl rfl) (.cons (.inr ⟨_, by decide, .colon, hbraces⟩) .nil)
  exact ⟨hspelled, (normalize_normalize "/users/:user/").2.2.2.2 _ hspelled⟩

/-- Behind a colon the marker of an optional segment gets into the name. -/
theorem not_normalize_normalize : ¬ ∀ uri, normalize (normalize uri) = normalize uri := by
  intro h
  have hkept : normalize (normalize ":name?") ≠ normalize ":name?" := by decide
  exact hkept (h ":name?")

end Uri

end ApiContract
