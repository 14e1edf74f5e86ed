import ApiContract.Shape
import Mathlib.Data.Prod.Lex
import Mathlib.Data.List.InsertIdx

namespace ApiContract.Response

/-- The class of a response: that of its status, and then that of its shape. -/
def rank (r : Response) : ℕ ×ₗ ℕ := toLex (statusRank r.status, shapeRank r.shape)

theorem before_iff (r other : Response) : before r other = true ↔ r.rank < other.rank := by
  simp [before, rank, Prod.Lex.toLex_lt_toLex]

def Succeeds (r : Response) : Prop := 200 ≤ r.status ∧ r.status ≤ 299

/-- A response stands at this place of a list, none is of a better class, and none before it is of
the same class. -/
structure IsChosen (rs : List Response) (place : Nat) (r : Response) : Prop where
  here : rs[place]? = some r
  least : ∀ other ∈ rs, r.rank ≤ other.rank
  first : ∀ earlier other, earlier < place → rs[earlier]? = some other → r.rank < other.rank

variable {rs : List Response} {place : Nat} {best r : Response}

theorem IsChosen.unique {place' : Nat} {best' : Response} (h : IsChosen rs place best)
    (h' : IsChosen rs place' best') : best = best' := by
  obtain hlt | heq | hgt := lt_trichotomy place place'
  · have hle := h.least best' (List.mem_of_getElem? h'.here)
    exact absurd (h'.first place best hlt h.here) hle.not_gt
  · subst heq
    exact Option.some.inj (h.here.symm.trans h'.here)
  · have hle := h'.least best (List.mem_of_getElem? h.here)
    exact absurd (h.first place' best' hgt h'.here) hle.not_gt

theorem exists_chosen (hne : rs ≠ []) :
    ∃ place best, IsChosen rs place best ∧ select rs = some best := by
  induction rs with
  | nil => exact absurd rfl hne
  | cons first rest ih =>
    cases rest with
    | nil =>
      refine ⟨0, first, ⟨rfl, ?_, ?_⟩, rfl⟩
      · exact fun other hother => by rw [List.mem_singleton.mp hother]
      · exact fun earlier _ h => absurd h (Nat.not_lt_zero earlier)
    | cons next rest =>
      obtain ⟨place, best, hbest, hselect⟩ := ih (List.cons_ne_nil _ _)
      rw [select, hselect]
      dsimp only
      by_cases hbefore : before best first = true
      · have hlt := (before_iff best first).mp hbefore
        rw [if_pos hbefore]
        refine ⟨place + 1, best, ⟨hbest.here, ?_, ?_⟩, rfl⟩
        · exact List.forall_mem_cons.mpr ⟨hlt.le, hbest.least⟩
        · intro earlier other hearlier hother
          cases earlier with
          | zero =>
            obtain rfl := Option.some.inj hother
            exact hlt
          | succ earlier => exact hbest.first earlier other (Nat.lt_of_succ_lt_succ hearlier) hother
      · have hle : first.rank ≤ best.rank :=
          not_lt.mp fun hlt => hbefore ((before_iff best first).mpr hlt)
        rw [if_neg hbefore]
        refine ⟨0, first, ⟨rfl, ?_, ?_⟩, rfl⟩
        · exact List.forall_mem_cons.mpr
            ⟨le_rfl, fun other hother => hle.trans (hbest.least other hother)⟩
        · exact fun earlier _ h => absurd h (Nat.not_lt_zero earlier)

theorem select_eq_some_iff : select rs = some r ↔ ∃ place, IsChosen rs place r := by
  constructor
  · intro h
    have hne : rs ≠ [] := by
      rintro rfl
      cases h
    obtain ⟨place, best, hbest, hselect⟩ := exists_chosen hne
    obtain rfl := Option.some.inj (hselect.symm.trans h)
    exact ⟨place, hbest⟩
  · rintro ⟨place, hr⟩
    obtain ⟨_, best, hbest, hselect⟩ :=
      exists_chosen (List.ne_nil_of_mem (List.mem_of_getElem? hr.here))
    rw [hselect, hr.unique hbest]

/-- A response that is inserted at `k` is chosen in place of the one that stood at `place`. -/
def Displaces (r best : Response) (k place : Nat) : Prop :=
  r.rank < best.rank ∨ r.rank = best.rank ∧ k ≤ place

variable {k : Nat}

instance : Decidable (Displaces r best k place) := inferInstanceAs (Decidable (_ ∨ _))

theorem IsChosen.insertIdx_of_displaces (h : IsChosen rs place best) (hk : k ≤ rs.length)
    (hr : Displaces r best k place) : IsChosen (rs.insertIdx k r) k r := by
  have hle : r.rank ≤ best.rank := hr.elim le_of_lt fun heq => heq.1.le
  refine ⟨?_, fun other hother => ?_, fun earlier other hearlier hother => ?_⟩
  · rw [List.getElem?_insertIdx_self, if_pos hk]
  · obtain rfl | hother := (List.mem_insertIdx hk).mp hother
    · exact le_rfl
    · exact hle.trans (h.least other hother)
  · rw [List.getElem?_insertIdx_of_lt hearlier] at hother
    obtain hlt | ⟨heq, hbefore⟩ := hr
    · exact hlt.trans_le (h.least other (List.mem_of_getElem? hother))
    · exact heq ▸ h.first earlier other (hearlier.trans_le hbefore) hother

theorem IsChosen.insertIdx_of_not_displaces (h : IsChosen rs place best) (hk : k ≤ rs.length)
    (hr : ¬ Displaces r best k place) :
    IsChosen (rs.insertIdx k r) (if k ≤ place then place + 1 else place) best := by
  have hle : best.rank ≤ r.rank := not_lt.mp fun hlt => hr (.inl hlt)
  refine ⟨?_, fun other hother => ?_, fun earlier other hearlier hother => ?_⟩
  · split
    next hbefore => exact (List.getElem?_insertIdx_of_gt (Nat.lt_succ_of_le hbefore)).trans h.here
    next hbefore => exact (List.getElem?_insertIdx_of_lt (Nat.lt_of_not_le hbefore)).trans h.here
  · obtain rfl | hother := (List.mem_insertIdx hk).mp hother
    · exact hle
    · exact h.least other hother
  · obtain hlt | rfl | hgt := lt_trichotomy earlier k
    · rw [List.getElem?_insertIdx_of_lt hlt] at hother
      exact h.first earlier other (by split at hearlier <;> omega) hother
    · rw [List.getElem?_insertIdx_self, if_pos hk] at hother
      obtain rfl := Option.some.inj hother
      have hplace : earlier ≤ place := by split at hearlier <;> omega
      exact lt_of_le_of_ne hle fun heq => hr (.inr ⟨heq.symm, hplace⟩)
    · rw [List.getElem?_insertIdx_of_gt hgt] at hother
      exact h.first (earlier - 1) other (by split at hearlier <;> omega) hother

theorem IsChosen.select_insertIdx (h : IsChosen rs place best) (hk : k ≤ rs.length) (r : Response) :
    select (rs.insertIdx k r) = some (if Displaces r best k place then r else best) := by
  split
  next hr => exact select_eq_some_iff.mpr ⟨_, h.insertIdx_of_displaces hk hr⟩
  next hr => exact select_eq_some_iff.mpr ⟨_, h.insertIdx_of_not_displaces hk hr⟩

theorem rank_lt_of_succeeds {other : Response} (h : other.Succeeds) (hr : ¬ r.Succeeds) :
    other.rank < r.rank := by
  have hother : statusRank other.status ≤ 1 := by
    obtain ⟨hleast, hmost⟩ := h
    rw [statusRank]
    split
    · omega
    · rw [if_pos (by omega)]
  have hrank : statusRank r.status = 2 := by
    rw [Succeeds] at hr
    rw [statusRank, if_neg (by omega), if_neg (by omega)]
  exact Prod.Lex.toLex_lt_toLex.mpr (.inl (by omega))

theorem select_insertIdx_of_not_succeeds (hsuccess : ∃ other ∈ rs, other.Succeeds)
    (hr : ¬ r.Succeeds) (hk : k ≤ rs.length) : select (rs.insertIdx k r) = select rs := by
  obtain ⟨other, hother, hsucceeds⟩ := hsuccess
  obtain ⟨place, best, hbest, hselect⟩ := exists_chosen (List.ne_nil_of_mem hother)
  have hlt : best.rank < r.rank :=
    (hbest.least other hother).trans_lt (rank_lt_of_succeeds hsucceeds hr)
  have hkept : ¬ Displaces r best k place := fun h => h.elim hlt.not_gt fun heq => hlt.ne' heq.1
  rw [hbest.select_insertIdx hk, if_neg hkept, hselect]

end ApiContract.Response
