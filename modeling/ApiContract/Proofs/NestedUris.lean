import ApiContract.Proofs.FilePaths
import ApiContract.Proofs.Stripping
import ApiContract.Route.Uri

namespace ApiContract

namespace Text

theorem join_append (separator : List Char) {pieces more : List (List Char)} (h : pieces ≠ [])
    (hmore : more ≠ []) : join separator (pieces ++ more) =
    join separator pieces ++ separator ++ join separator more := by
  induction pieces with
  | nil => exact absurd rfl h
  | cons piece pieces ih =>
    cases pieces with
    | nil =>
      cases more with
      | nil => exact absurd rfl hmore
      | cons next more => rfl
    | cons next pieces =>
      rw [List.cons_append, List.cons_append, join, ← List.cons_append,
        ih (List.cons_ne_nil _ _), join]
      simp only [List.append_assoc]

end Text

namespace Uri

open Text

theorem toList_normalize (uri : String) : (normalize uri).toList = normalizeChars uri.toList :=
  String.toList_ofList

theorem normalize_eq_root {uri : String} (h : strip isSlash uri.toList = []) :
    normalize uri = "/" := by
  rw [normalize, normalizeChars, h]
  decide

/-- A path ends with another if its normal form does; with that of the root every path does. -/
def EndsWith (uri ending : String) : Prop :=
  normalize ending = "/" ∨ (normalize ending).toList <:+ (normalize uri).toList

theorem EndsWith.refl (uri : String) : EndsWith uri uri := .inr (List.suffix_refl _)

theorem EndsWith.trans {uri middle ending : String} (h : EndsWith uri middle)
    (h' : EndsWith middle ending) : EndsWith uri ending := by
  obtain hroot | hsuffix := h'
  · exact .inl hroot
  obtain hroot | hsuffix' := h
  · -- what the root ends with is the root
    rw [hroot] at hsuffix
    left
    have hlength := hsuffix.length_le
    have heq := hsuffix.eq_of_length_le (by rw [toList_normalize, normalizeChars]; simp)
    exact String.toList_inj.mp heq
  · exact .inr (hsuffix.trans hsuffix')

/-- One path below another, both without slashes at their ends. -/
def below (start path : List Char) : List Char :=
  if start = [] then path else if path = [] then start else start ++ '/' :: path

theorem below_assoc (first second third : List Char) :
    below first (below second third) = below (below first second) third := by
  by_cases hfirst : first = []
  · simp [below, hfirst]
  by_cases hsecond : second = []
  · simp [below, hfirst, hsecond]
  by_cases hthird : third = [] <;> simp [below, hfirst, hsecond, hthird]

theorem strip_combine (start path : String) : strip isSlash (combine start path).toList =
    below (strip isSlash start.toList) (strip isSlash path.toList) := by
  rw [combine]
  split
  next hempty =>
    rw [String.isEmpty_iff.mp hempty]
    rfl
  by_cases hpath : strip isSlash path.toList = []
  · -- there is nothing but slashes below the start
    rw [dropStart_eq_nil_iff.mpr (strip_eq_nil_iff.mp hpath)]
    dsimp only
    rw [String.toList_ofList, strip_dropEnd, hpath, below]
    split
    next h => exact h
    next => rfl
  cases hrest : dropStart isSlash path.toList with
  | nil => exact absurd (strip_eq_nil_iff.mpr (dropStart_eq_nil_iff.mp hrest)) hpath
  | cons c rest =>
    dsimp only
    rw [String.toList_ofList, ← hrest, ← List.singleton_append, ← List.append_assoc, below]
    split
    next hstart =>
      have houter : ∀ c ∈ dropEnd isSlash start.toList ++ ['/'], isSlash c = true := by
        rw [← strip_dropEnd] at hstart
        exact List.forall_mem_append.mpr ⟨strip_eq_nil_iff.mp hstart, by simp [isSlash]⟩
      rw [strip_append_left houter, strip_dropStart]
    next hstart => rw [strip_meeting hstart hpath, List.append_assoc, List.singleton_append]

theorem endsWith_combine (start path : String) : EndsWith (combine start path) path := by
  by_cases h : strip isSlash path.toList = []
  · exact .inl (normalize_eq_root h)
  right
  rw [toList_normalize, toList_normalize, normalizeChars, normalizeChars]
  rw [strip_combine, below]
  split
  · exact List.suffix_refl _
  · rw [cutAt_append, List.map_append,
      join_append _ (by simp [cutAt_ne_nil]) (by simp [cutAt_ne_nil])]
    rw [List.append_assoc, List.singleton_append, ← List.cons_append]
    exact List.suffix_append _ _

end Uri

end ApiContract
