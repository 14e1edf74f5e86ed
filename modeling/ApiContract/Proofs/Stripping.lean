import ApiContract.Text.Pieces
import Mathlib.Data.List.DropRight

namespace ApiContract.Text

variable {p : Char → Bool}

theorem dropStart_append (front s : List Char) : dropStart p (front ++ s) =
    if dropStart p front = [] then dropStart p s else dropStart p front ++ s := by
  rw [dropStart, List.dropWhile_append]
  simp only [List.isEmpty_iff]
  rfl

theorem dropEnd_append (front : List Char) {s : List Char} (h : dropEnd p s ≠ []) :
    dropEnd p (front ++ s) = front ++ dropEnd p s := by
  have hne : (s.reverse.dropWhile p).isEmpty = false := by simpa [dropEnd] using h
  rw [dropEnd, List.reverse_append, List.dropWhile_append, hne]
  simp [dropEnd]

theorem dropStart_eq_nil_iff {s : List Char} : dropStart p s = [] ↔ ∀ c ∈ s, p c = true :=
  List.dropWhile_eq_nil_iff

theorem dropEnd_append_of_forall (s : List Char) {back : List Char} (h : ∀ c ∈ back, p c = true) :
    dropEnd p (s ++ back) = dropEnd p s := by
  rw [dropEnd, List.reverse_append, List.dropWhile_append_of_pos (by simpa using h), dropEnd]

theorem exists_dropEnd (p : Char → Bool) (s : List Char) :
    ∃ back, (∀ c ∈ back, p c = true) ∧ s = dropEnd p s ++ back := by
  refine ⟨(s.reverse.takeWhile p).reverse,
    fun c hc => List.mem_takeWhile_imp (List.mem_reverse.mp hc), ?_⟩
  rw [dropEnd, ← List.reverse_append, List.takeWhile_append_dropWhile, List.reverse_reverse]

theorem strip_append_left {front : List Char} (h : ∀ c ∈ front, p c = true) (s : List Char) :
    strip p (front ++ s) = strip p s := by
  rw [strip, dropStart_append, if_pos (dropStart_eq_nil_iff.mpr h), strip]

theorem strip_append_right (s : List Char) {back : List Char} (h : ∀ c ∈ back, p c = true) :
    strip p (s ++ back) = strip p s := by
  rw [strip, strip, dropStart_append]
  split
  next hs => rw [hs, dropStart_eq_nil_iff.mpr h]
  next => rw [dropEnd_append_of_forall _ h]

theorem strip_surrounded {front back : List Char} (hfront : ∀ c ∈ front, p c = true)
    (hback : ∀ c ∈ back, p c = true) (s : List Char) :
    strip p (front ++ s ++ back) = strip p s := by
  rw [strip_append_right _ hback, strip_append_left hfront]

theorem exists_strip (p : Char → Bool) (s : List Char) : ∃ front back,
    (∀ c ∈ front, p c = true) ∧ (∀ c ∈ back, p c = true) ∧ s = front ++ strip p s ++ back := by
  obtain ⟨back, hback, hs⟩ := exists_dropEnd p (dropStart p s)
  refine ⟨s.takeWhile p, back, fun c hc => List.mem_takeWhile_imp hc, hback, ?_⟩
  rw [List.append_assoc, strip, ← hs, dropStart, List.takeWhile_append_dropWhile]

theorem strip_strip (s : List Char) : strip p (strip p s) = strip p s := by
  obtain ⟨front, back, hfront, hback, hs⟩ := exists_strip p s
  have hstrip := strip_surrounded hfront hback (strip p s)
  rw [← hs] at hstrip
  exact hstrip.symm

theorem strip_eq_nil_iff {s : List Char} : strip p s = [] ↔ ∀ c ∈ s, p c = true := by
  constructor
  · intro h
    obtain ⟨front, back, hfront, hback, hs⟩ := exists_strip p s
    rw [h, List.append_nil] at hs
    rw [hs]
    exact fun c hc => (List.mem_append.mp hc).elim (hfront c) (hback c)
  · intro h
    rw [strip, dropStart_eq_nil_iff.mpr h]
    rfl

theorem dropStart_eq_self_iff {s : List Char} : dropStart p s = s ↔ ∀ c ∈ s.head?, p c = false := by
  cases s with
  | nil => simp [dropStart]
  | cons c s =>
    rw [dropStart, List.dropWhile_eq_self_iff]
    simp

theorem dropEnd_eq_self_iff {s : List Char} : dropEnd p s = s ↔ ∀ c ∈ s.getLast?, p c = false := by
  rw [dropEnd, List.reverse_eq_iff, ← List.head?_reverse]
  exact dropStart_eq_self_iff

theorem drop_of_eq_self {q : Char → Bool} {s : List Char} (h : dropEnd q (dropStart p s) = s) :
    dropStart p s = s ∧ dropEnd q s = s := by
  have hstart : dropStart p s <:+ s := List.dropWhile_suffix p
  have hend : dropEnd q (dropStart p s) <+: dropStart p s := List.rdropWhile_prefix q _
  have hlength := hend.length_le
  rw [h] at hlength
  have heq : dropStart p s = s := hstart.eq_of_length_le hlength
  rw [heq] at h
  exact ⟨heq, h⟩

theorem drop_of_strip {s : List Char} (h : strip p s = s) : dropStart p s = s ∧ dropEnd p s = s :=
  drop_of_eq_self h

theorem strip_eq_self_iff {s : List Char} :
    strip p s = s ↔ (∀ c ∈ s.head?, p c = false) ∧ ∀ c ∈ s.getLast?, p c = false := by
  rw [← dropStart_eq_self_iff, ← dropEnd_eq_self_iff]
  refine ⟨drop_of_strip, fun ⟨hstart, hend⟩ => ?_⟩
  rw [strip, hstart, hend]

/-- Whatever stands between two texts that are stripped stays. -/
theorem strip_between {s t : List Char} (hs : strip p s = s) (ht : strip p t = t) (hsne : s ≠ [])
    (htne : t ≠ []) (middle : List Char) : strip p (s ++ middle ++ t) = s ++ middle ++ t := by
  have hstart := (drop_of_strip hs).1
  have hend := (drop_of_strip ht).2
  rw [strip, List.append_assoc, dropStart_append, hstart, if_neg hsne, ← List.append_assoc,
    dropEnd_append _ (by rwa [hend]), hend]

theorem exists_dropStart_eq (p : Char → Bool) (s : List Char) :
    ∃ back, (∀ c ∈ back, p c = true) ∧ dropStart p s = strip p s ++ back :=
  exists_dropEnd p (dropStart p s)

theorem exists_dropEnd_eq {s : List Char} (h : strip p s ≠ []) :
    ∃ front, (∀ c ∈ front, p c = true) ∧ dropEnd p s = front ++ strip p s := by
  obtain ⟨front, back, hfront, hback, hs⟩ := exists_strip p s
  have hend : dropEnd p (strip p s) = strip p s := (drop_of_strip (strip_strip s)).2
  refine ⟨front, hfront, ?_⟩
  calc dropEnd p s = dropEnd p (front ++ strip p s ++ back) := by rw [← hs]
    _ = dropEnd p (front ++ strip p s) := dropEnd_append_of_forall _ hback
    _ = front ++ strip p s := by rw [dropEnd_append front (by rwa [hend]), hend]

theorem strip_meeting {s t : List Char} (hs : strip p s ≠ []) (ht : strip p t ≠ [])
    (middle : List Char) :
    strip p (dropEnd p s ++ middle ++ dropStart p t) = strip p s ++ middle ++ strip p t := by
  obtain ⟨front, hfront, hend⟩ := exists_dropEnd_eq hs
  obtain ⟨back, hback, hstart⟩ := exists_dropStart_eq p t
  have houter := strip_surrounded hfront hback (strip p s ++ middle ++ strip p t)
  rw [strip_between (strip_strip s) (strip_strip t) hs ht] at houter
  rw [← houter, hend, hstart]
  simp only [List.append_assoc]

theorem strip_dropEnd (s : List Char) : strip p (dropEnd p s) = strip p s := by
  obtain ⟨back, hback, hs⟩ := exists_dropEnd p s
  have hstrip := strip_append_right (dropEnd p s) hback
  rw [← hs] at hstrip
  exact hstrip.symm

theorem strip_dropStart (s : List Char) : strip p (dropStart p s) = strip p s :=
  congrArg (dropEnd p) (List.dropWhile_idempotent p s)

end ApiContract.Text
