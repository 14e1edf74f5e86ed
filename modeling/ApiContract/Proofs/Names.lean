import ApiContract.Name
import ApiContract.Proofs.Lexing

namespace ApiContract

namespace Text

theorem cutPath_of_not_mem {s : List Char} (h : ':' ∉ s) : cutPath s = [s] := by
  induction s with
  | nil => rfl
  | cons c s ih =>
    rw [cutPath]
    · rw [ih fun hm => h (List.mem_cons_of_mem c hm), grow]
    · rintro rest rfl
      exact fun _ => h List.mem_cons_self

theorem cutPath_append {s : List Char} (rest : List Char) (h : ':' ∉ s) :
    cutPath (s ++ ':' :: ':' :: rest) = s :: cutPath rest := by
  induction s with
  | nil => rw [List.nil_append, cutPath]
  | cons c s ih =>
    rw [List.cons_append, cutPath]
    · rw [ih fun hm => h (List.mem_cons_of_mem c hm), grow]
    · rintro _ rfl
      exact fun _ => h List.mem_cons_self

theorem reverse_around_colons (before after : List Char) :
    (before ++ ':' :: ':' :: after).reverse = after.reverse ++ ':' :: ':' :: before.reverse := by
  simp

theorem splitLastPath?_append {last : List Char} (before : List Char) (h : ':' ∉ last) :
    splitLastPath? (before ++ ':' :: ':' :: last) = some (before, last) := by
  have hgo : ∀ (s after : List Char), ':' ∉ s →
      splitLastPath?.go after (s ++ ':' :: ':' :: before.reverse) =
        some (before, s.reverse ++ after) := by
    intro s
    induction s with
    | nil =>
      intro after _
      rw [List.nil_append, splitLastPath?.go, List.reverse_reverse, List.reverse_nil,
        List.nil_append]
    | cons c s ih =>
      intro after hs
      obtain ⟨hc, hs⟩ : ':' ≠ c ∧ ':' ∉ s := by simpa using hs
      rw [List.cons_append, splitLastPath?.go, ih _ hs, List.reverse_cons, List.append_assoc,
        List.singleton_append]
      rintro _ rfl
      exact fun _ => hc rfl
  rw [splitLastPath?, reverse_around_colons, hgo _ _ (by simpa using h), List.reverse_reverse,
    List.append_nil]

theorem splitLastPath?_isSome (before after : List Char) :
    (splitLastPath? (before ++ ':' :: ':' :: after)).isSome = true := by
  have hgo : ∀ (s found : List Char),
      (splitLastPath?.go found (s ++ ':' :: ':' :: before.reverse)).isSome = true := by
    intro s
    induction s with
    | nil => exact fun _ => rfl
    | cons c s ih =>
      intro found
      rw [List.cons_append]
      unfold splitLastPath?.go
      split
      · rfl
      next heq =>
        obtain ⟨rfl, rfl⟩ := List.cons_eq_cons.mp heq
        exact ih _
      next heq => cases heq
  rw [splitLastPath?, reverse_around_colons]
  exact hgo _ _

theorem splitLastPath?_of_not_mem {s : List Char} (h : ':' ∉ s) : splitLastPath? s = none := by
  have hgo : ∀ (s after : List Char), ':' ∉ s → splitLastPath?.go after s = none := by
    intro s
    induction s with
    | nil => exact fun _ _ => rfl
    | cons c s ih =>
      intro after hs
      obtain ⟨hc, hs⟩ : ':' ≠ c ∧ ':' ∉ s := by simpa using hs
      rw [splitLastPath?.go, ih _ hs]
      rintro _ rfl
      exact fun _ => hc rfl
  exact hgo _ _ (by simpa using h)

end Text

namespace Name

theorem toList_append (before last : String) :
    (before ++ "::" ++ last).toList = before.toList ++ ':' :: ':' :: last.toList := by
  simp

/-- What can stand between double colons. -/
structure IsPart (part : String) : Prop where
  ne_empty : part ≠ ""
  no_colon : ':' ∉ part.toList

instance (part : String) : Decidable (IsPart part) :=
  decidable_of_iff (part ≠ "" ∧ ':' ∉ part.toList)
    ⟨fun h => ⟨h.1, h.2⟩, fun h => ⟨h.ne_empty, h.no_colon⟩⟩

theorem IsPart.toList_ne_nil {part : String} (h : IsPart part) : part.toList ≠ [] :=
  fun he => h.ne_empty (String.toList_eq_nil_iff.mp he)

theorem isPart_of_isIdentifier {name : String} (h : Source.isIdentifier name = true) :
    IsPart name :=
  ⟨Source.ne_empty_of_isIdentifier h,
    Source.not_mem_of_isForeign ⟨by decide, by decide, by decide⟩ h⟩

theorem join_singleton (part : String) : join [part] = part := String.intercalate_singleton

theorem join_cons {names : List String} (part : String) (h : names ≠ []) :
    join (part :: names) = part ++ "::" ++ join names := String.intercalate_cons_of_ne_nil h

theorem join_concat {names : List String} (part : String) (h : names ≠ []) :
    join (names ++ [part]) = join names ++ "::" ++ part := by
  rw [join, String.intercalate_append_of_ne_nil h (List.cons_ne_nil _ _),
    String.intercalate_singleton, join]

theorem segments_part {part : String} (h : IsPart part) : segments part = [part] := by
  rw [segments, Text.cutPath_of_not_mem h.no_colon]
  simp [h.toList_ne_nil]

theorem segments_append {part : String} (h : IsPart part) (rest : String) :
    segments (part ++ "::" ++ rest) = part :: segments rest := by
  rw [segments, toList_append, Text.cutPath_append _ h.no_colon]
  simp [h.toList_ne_nil, segments]

/-- Nothing is lost by joining. -/
theorem segments_join {names : List String} (h : ∀ name ∈ names, IsPart name) :
    segments (join names) = names := by
  induction names with
  | nil => rfl
  | cons name names ih =>
    obtain ⟨hname, hnames⟩ := List.forall_mem_cons.mp h
    cases names with
    | nil => rw [join_singleton, segments_part hname]
    | cons second names => rw [join_cons _ (List.cons_ne_nil _ _), segments_append hname, ih hnames]

theorem not_mem_join {c : Char} {names : List String} (hc : c ≠ ':')
    (h : ∀ name ∈ names, c ∉ name.toList) : c ∉ (join names).toList := by
  induction names with
  | nil => exact List.not_mem_nil
  | cons name names ih =>
    obtain ⟨hname, hnames⟩ := List.forall_mem_cons.mp h
    cases names with
    | nil => rwa [join_singleton]
    | cons second names =>
      rw [join_cons _ (List.cons_ne_nil _ _), toList_append]
      simpa [hname, hc] using ih hnames

theorem join_injective {names others : List String} (h : ∀ name ∈ names, IsPart name)
    (hothers : ∀ name ∈ others, IsPart name) (heq : join names = join others) : names = others := by
  rw [← segments_join h, heq, segments_join hothers]

theorem short_append {last : String} (before : String) (h : IsPart last) :
    short (before ++ "::" ++ last) = last := by
  rw [short, toList_append, Text.splitLastPath?_append _ h.no_colon]
  exact String.ofList_toList

theorem isQualified_append (before last : String) : isQualified (before ++ "::" ++ last) = true := by
  rw [isQualified, toList_append]
  exact Text.splitLastPath?_isSome _ _

theorem isQualified_part {part : String} (h : IsPart part) : isQualified part = false := by
  rw [isQualified, Text.splitLastPath?_of_not_mem h.no_colon]
  rfl

theorem exists_below_root (modules : List String) (name : String) :
    ∃ below, join ("crate" :: modules) ++ "::" ++ name = "crate" ++ "::" ++ below := by
  cases modules with
  | nil => exact ⟨name, by rw [join_singleton]⟩
  | cons first rest =>
    refine ⟨join (first :: rest) ++ "::" ++ name, ?_⟩
    rw [join_cons _ (List.cons_ne_nil _ _)]
    simp only [String.append_assoc]

theorem not_isNative_root (below : String) : isNative ("crate" ++ "::" ++ below) = false := by
  have hnatives : ∀ native ∈ natives, ':' ∉ native.toList := by decide
  rw [isNative, Bool.eq_false_iff, Ne, List.contains_iff_mem]
  exact fun hmem => hnatives _ hmem (by simp)

end Name

end ApiContract
