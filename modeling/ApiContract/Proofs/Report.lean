import ApiContract.Proofs.Progress

namespace ApiContract

theorem perm_of_map_perm {α β : Type} {f : α → β} {xs ys : List α} (h : (xs.map f).Perm (ys.map f))
    (hf : ∀ x y, x ∈ xs → y ∈ ys → f x = f y → x = y) : xs.Perm ys := by
  induction xs generalizing ys with
  | nil =>
    rw [List.map_nil, List.nil_perm, List.map_eq_nil_iff] at h
    rw [h]
  | cons x rest ih =>
    obtain ⟨y, hy, heq⟩ := List.mem_map.mp (h.mem_iff.mp List.mem_cons_self)
    obtain rfl := hf x y List.mem_cons_self hy heq.symm
    obtain ⟨before, after, rfl⟩ := List.append_of_mem hy
    have hmiddle : (before ++ x :: after).Perm (x :: (before ++ after)) := List.perm_middle
    have hrest : (rest.map f).Perm ((before ++ after).map f) := (h.trans (hmiddle.map f)).cons_inv
    refine ((ih hrest ?_).cons x).trans hmiddle.symm
    intro z w hz hw
    exact hf z w (List.mem_cons_of_mem _ hz) (hmiddle.mem_iff.mpr (List.mem_cons_of_mem _ hw))

namespace Failure

def source? : Failure → Option String
  | sourceUnavailable name _ => some name
  | _ => none

def sources (failures : List Failure) : List String := failures.filterMap source?

def others (failures : List Failure) : List Failure := failures.filter fun f => f.source?.isNone

/-- What a failure is about: for a missing source all but the reason. -/
def withoutReason : Failure → Failure
  | sourceUnavailable name _ => sourceUnavailable name ""
  | f => f

theorem keep_source (kept : List Failure) (name reason : String) :
    keep kept (sourceUnavailable name reason) =
      if name ∈ sources kept then kept else kept ++ [sourceUnavailable name reason] := by
  have hlacks : Progress.lacks { failures := kept } name = true ↔ name ∈ sources kept := by
    simp only [Progress.lacks, sources, List.any_eq_true, List.mem_filterMap]
    refine exists_congr fun f => and_congr_right fun _ => ?_
    cases f <;> simp [source?]
  simp only [keep, Progress.reportSource]
  by_cases h : name ∈ sources kept
  · rw [if_pos h, if_pos (hlacks.mpr h)]
  · rw [if_neg h, if_neg (mt hlacks.mp h)]
    rfl

theorem keep_other (kept : List Failure) {f : Failure} (h : f.source? = none) :
    keep kept f = kept ++ [f] := by
  cases f with
  | sourceUnavailable => cases h
  | unresolvedExpression | exampleUnavailable | unusedOverride => rfl

theorem mem_sources_keep (kept : List Failure) (f : Failure) (name : String) :
    name ∈ sources (keep kept f) ↔ name ∈ sources kept ∨ f.source? = some name := by
  cases hf : f.source? with
  | none =>
    rw [keep_other kept hf]
    simp [sources, hf]
  | some missing =>
    cases f with
    | sourceUnavailable source reason =>
      obtain rfl : source = missing := Option.some.inj hf
      rw [keep_source]
      split
      next h =>
        refine ⟨Or.inl, ?_⟩
        rintro (hm | he)
        · exact hm
        · exact Option.some.inj he ▸ h
      next => simp [sources, source?, eq_comm]
    | unresolvedExpression | exampleUnavailable | unusedOverride => cases hf

theorem nodup_sources_keep {kept : List Failure} (h : (sources kept).Nodup) (f : Failure) :
    (sources (keep kept f)).Nodup := by
  cases f with
  | sourceUnavailable name reason =>
    rw [keep_source]
    split
    next => exact h
    next hn =>
      have happend :
          sources (kept ++ [sourceUnavailable name reason]) = sources kept ++ [name] := by
        simp [sources, source?]
      rw [happend, List.nodup_append]
      refine ⟨h, by simp, ?_⟩
      rintro other hm _ hname rfl
      exact hn (List.mem_singleton.mp hname ▸ hm)
  | unresolvedExpression | exampleUnavailable | unusedOverride =>
    rw [keep_other kept rfl, sources, List.filterMap_append]
    exact (List.append_nil (sources kept)).symm ▸ h

theorem others_keep (kept : List Failure) (f : Failure) :
    others (keep kept f) = others kept ++ others [f] := by
  cases f with
  | sourceUnavailable name reason =>
    rw [keep_source]
    split <;> simp [others, source?]
  | unresolvedExpression | exampleUnavailable | unusedOverride =>
    rw [keep_other kept rfl]
    simp [others, source?]

theorem mem_sources_keepAll (reports kept : List Failure) (name : String) :
    name ∈ sources (reports.foldl keep kept) ↔ name ∈ sources kept ∨ name ∈ sources reports := by
  induction reports generalizing kept with
  | nil => simp [sources]
  | cons f rest ih =>
    rw [List.foldl_cons, ih, mem_sources_keep, or_assoc]
    simp [sources]

theorem nodup_sources_keepAll (reports : List Failure) {kept : List Failure}
    (h : (sources kept).Nodup) : (sources (reports.foldl keep kept)).Nodup := by
  induction reports generalizing kept with
  | nil => exact h
  | cons f rest ih => exact ih (nodup_sources_keep h f)

theorem others_keepAll (reports kept : List Failure) :
    others (reports.foldl keep kept) = others kept ++ others reports := by
  induction reports generalizing kept with
  | nil => simp [others]
  | cons f rest ih =>
    rw [List.foldl_cons, ih, others_keep, List.append_assoc, others, others, others,
      ← List.filter_append]
    rfl

theorem withoutReason_eq (f : Failure) :
    f.withoutReason = match f.source? with
      | some name => sourceUnavailable name ""
      | none => f := by
  cases f <;> rfl

theorem map_withoutReason_perm (failures : List Failure) :
    (failures.map withoutReason).Perm
      ((sources failures).map (sourceUnavailable · "") ++ others failures) := by
  induction failures with
  | nil => exact List.Perm.nil
  | cons f rest ih =>
    rw [List.map_cons, withoutReason_eq]
    cases hf : f.source? with
    | some name =>
      have hsources : sources (f :: rest) = name :: sources rest := List.filterMap_cons_some hf
      have hothers : others (f :: rest) = others rest := List.filter_cons_of_neg (by simp [hf])
      rw [hsources, hothers]
      exact ih.cons _
    | none =>
      have hsources : sources (f :: rest) = sources rest := List.filterMap_cons_none hf
      have hothers : others (f :: rest) = f :: others rest := List.filter_cons_of_pos (by simp [hf])
      rw [hsources, hothers]
      exact (ih.cons f).trans List.perm_middle.symm

/-- The order of what is met matters for the order and the reasons of what is kept, and for nothing
else. -/
theorem keepAll_perm {reports reports' : List Failure} (h : reports.Perm reports') :
    ((reports.foldl keep []).map withoutReason).Perm
      ((reports'.foldl keep []).map withoutReason) := by
  have hsources : (sources (reports.foldl keep [])).Perm (sources (reports'.foldl keep [])) := by
    have hnodup : ∀ reports : List Failure, (sources (reports.foldl keep [])).Nodup :=
      fun reports => nodup_sources_keepAll reports List.nodup_nil
    apply (List.perm_ext_iff_of_nodup (hnodup reports) (hnodup reports')).mpr
    intro name
    rw [mem_sources_keepAll, mem_sources_keepAll]
    exact or_congr_right (h.filterMap source?).mem_iff
  have hothers : (others (reports.foldl keep [])).Perm (others (reports'.foldl keep [])) := by
    rw [others_keepAll, others_keepAll]
    exact (h.filter _).append_left _
  refine (map_withoutReason_perm _).trans (List.Perm.trans ?_ (map_withoutReason_perm _).symm)
  exact (hsources.map _).append hothers

/-- No two reasons are given for one missing source. -/
def Consistent (reports : List Failure) : Prop :=
  ∀ name reason other, sourceUnavailable name reason ∈ reports →
    sourceUnavailable name other ∈ reports → reason = other

theorem Consistent.eq_of_withoutReason {reports : List Failure} (h : Consistent reports)
    {f g : Failure} (hf : f ∈ reports) (hg : g ∈ reports)
    (heq : f.withoutReason = g.withoutReason) : f = g := by
  cases f
    <;> cases g
      <;> simp only [withoutReason, sourceUnavailable.injEq, and_true, reduceCtorEq] at heq
  case sourceUnavailable.sourceUnavailable name reason _ other =>
    subst heq
    rw [h name reason other hf hg]
  all_goals exact heq

theorem keep_eq_or (kept : List Failure) (f : Failure) :
    keep kept f = kept ∨ keep kept f = kept ++ [f] := by
  cases f with
  | sourceUnavailable name reason =>
    rw [keep_source]
    split
    next => exact Or.inl rfl
    next => exact Or.inr rfl
  | unresolvedExpression | exampleUnavailable | unusedOverride => exact Or.inr rfl

theorem mem_of_mem_keepAll {reports kept : List Failure} {f : Failure}
    (h : f ∈ reports.foldl keep kept) : f ∈ kept ∨ f ∈ reports := by
  induction reports generalizing kept with
  | nil => exact Or.inl h
  | cons g rest ih =>
    obtain hm | hm := ih h
    · obtain hsame | hmore := keep_eq_or kept g
      · exact Or.inl (hsame ▸ hm)
      · rw [hmore, List.mem_append, List.mem_singleton] at hm
        exact hm.imp_right fun he => List.mem_cons.mpr (Or.inl he)
    · exact Or.inr (List.mem_cons_of_mem _ hm)

theorem keepAll_perm_of_consistent {reports reports' : List Failure} (h : reports.Perm reports')
    (hc : Consistent reports) : (reports.foldl keep []).Perm (reports'.foldl keep []) := by
  apply perm_of_map_perm (keepAll_perm h)
  intro f g hf hg
  have hfrom : f ∈ reports := (mem_of_mem_keepAll hf).resolve_left List.not_mem_nil
  have hfrom' : g ∈ reports' := (mem_of_mem_keepAll hg).resolve_left List.not_mem_nil
  exact hc.eq_of_withoutReason hfrom (h.mem_iff.mpr hfrom')

end Failure

end ApiContract
