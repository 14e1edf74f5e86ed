import ApiContract.Handler.Analysis
import ApiContract.Proofs.Names

namespace ApiContract

open Source

namespace Name

theorem short_part {part : String} (h : IsPart part) : short part = part := by
  rw [short, Text.splitLastPath?_of_not_mem h.no_colon]

def owner? (name : String) : Option String :=
  (Text.splitLastPath? name.toList).map fun pieces => String.ofList pieces.1

theorem owner?_append {last : String} (before : String) (h : IsPart last) :
    owner? (before ++ "::" ++ last) = some before := by
  rw [owner?, toList_append, Text.splitLastPath?_append _ h.no_colon]
  exact congrArg some String.ofList_toList

/-- An ending without colons belongs to the last identifier. -/
theorem suffix_last {ending last : List Char} (before : List Char) (hending : ':' ∉ ending)
    (h : ending <:+ before ++ ':' :: ':' :: last) : ending <:+ last := by
  have hlast : ':' :: last <:+ before ++ ':' :: ':' :: last := ⟨before ++ [':'], by simp⟩
  rcases List.suffix_or_suffix_of_suffix h hlast with hs | hs
  · rcases List.suffix_cons_iff.mp hs with rfl | hs
    · exact absurd List.mem_cons_self hending
    · exact hs
  · exact absurd (hs.mem List.mem_cons_self) hending

end Name

namespace Handler

/-- A name of a type that has no meaning for the analysis as it is written. -/
structure Conventions.Ordinary (conventions : Conventions) (name : String) : Prop where
  part : Name.IsPart name
  capital : isTypeName name = true
  noStatus : Evaluator.endsWith "StatusCode" name = false
  noForeign : name ∉ foreignTypes
  noMap : name ∉ mapTypes
  noNative : Name.isNative name = false
  noExtractor : conventions.isExtractor name = false
  noResponder : conventions.isResponder name = false
  noCollection : conventions.isCollection name = false
  noPaginator : conventions.isPaginator name = false

instance (conventions : Conventions) (name : String) : Decidable (conventions.Ordinary name) :=
  decidable_of_iff ((name ≠ "" ∧ ':' ∉ name.toList) ∧ isTypeName name = true ∧
    Evaluator.endsWith "StatusCode" name = false ∧ name ∉ foreignTypes ∧ name ∉ mapTypes ∧
    Name.isNative name = false ∧ conventions.isExtractor name = false ∧
    conventions.isResponder name = false ∧ conventions.isCollection name = false ∧
    conventions.isPaginator name = false)
    ⟨fun ⟨⟨hne, hcolon⟩, hcapital, hstatus, hforeign, hmap, hnative, hextractor, hresponder,
        hcollection, hpaginator⟩ =>
      ⟨⟨hne, hcolon⟩, hcapital, hstatus, hforeign, hmap, hnative, hextractor, hresponder,
        hcollection, hpaginator⟩,
    fun h => ⟨⟨h.part.ne_empty, h.part.no_colon⟩, h.capital, h.noStatus, h.noForeign, h.noMap,
      h.noNative, h.noExtractor,
      h.noResponder, h.noCollection, h.noPaginator⟩⟩

def Conventions.IsOrdinary (conventions : Conventions) (p : Path) : Prop :=
  ∃ last ∈ p.names.getLast?, conventions.Ordinary last

instance (conventions : Conventions) (p : Path) : Decidable (conventions.IsOrdinary p) :=
  inferInstanceAs (Decidable (∃ last ∈ p.names.getLast?, conventions.Ordinary last))

/-- Paths of types that are not told by how they are written, and that mean the same. -/
structure Context.Interchangeable (c : Context) (p q : Path) : Prop where
  resolve_eq : c.resolve p.text = c.resolve q.text
  left : c.conventions.IsOrdinary p
  right : c.conventions.IsOrdinary q

end Handler

/-- A path calls a type itself, or a function of the type that has no capital. -/
inductive Source.Path.Calls (type : Path) : Option String → Path → Prop where
  | type {called : Path} (hnames : called.names = type.names) : Calls type none called
  | function {called : Path} {name : String} (hpart : Name.IsPart name)
      (hname : Handler.isTypeName name = false) (hnames : called.names = type.names ++ [name]) :
      Calls type (some name) called

namespace Handler

theorem exists_names_of_isOrdinary {conventions : Conventions} {p : Path}
    (h : conventions.IsOrdinary p) :
    ∃ front last, p.names = front ++ [last] ∧ conventions.Ordinary last := by
  obtain ⟨last, hlast, hordinary⟩ := h
  obtain ⟨front, hnames⟩ := List.getLast?_eq_some_iff.mp hlast
  exact ⟨front, last, hnames, hordinary⟩

theorem text_eq_or {p : Path} {front : List String} {last : String}
    (h : p.names = front ++ [last]) : p.text = last ∨ p.text = Name.join front ++ "::" ++ last := by
  have htext : p.text = Name.join (front ++ [last]) := congrArg Name.join h
  cases front with
  | nil => exact .inl (htext.trans (Name.join_singleton last))
  | cons first front => exact .inr (htext.trans (Name.join_concat last (List.cons_ne_nil _ _)))

theorem short_text {p : Path} {front : List String} {last : String} (h : p.names = front ++ [last])
    (hpart : Name.IsPart last) : Name.short p.text = last := by
  rcases text_eq_or h with htext | htext
  · rw [htext, Name.short_part hpart]
  · rw [htext, Name.short_append _ hpart]

section

variable {conventions : Conventions} {p called : Path} {function : Option String}

theorem ordinary_short (h : conventions.IsOrdinary p) :
    conventions.Ordinary (Name.short p.text) := by
  obtain ⟨front, last, hnames, hordinary⟩ := exists_names_of_isOrdinary h
  rwa [short_text hnames hordinary.part]

theorem endsWith_text (h : conventions.IsOrdinary p) :
    Evaluator.endsWith "StatusCode" p.text = false := by
  obtain ⟨front, last, hnames, hordinary⟩ := exists_names_of_isOrdinary h
  rcases text_eq_or hnames with htext | htext
  · exact htext ▸ hordinary.noStatus
  · refine Bool.eq_false_iff.mpr fun hends => Bool.eq_false_iff.mp hordinary.noStatus ?_
    rw [htext, Evaluator.endsWith, List.isSuffixOf_iff_suffix, Name.toList_append] at hends
    exact List.isSuffixOf_iff_suffix.mpr (Name.suffix_last _ (by decide) hends)

theorem text_of_type (h : called.names = p.names) : called.text = p.text := congrArg Name.join h

theorem text_of_function {name : String} (hp : conventions.IsOrdinary p)
    (h : called.names = p.names ++ [name]) : called.text = p.text ++ "::" ++ name := by
  obtain ⟨front, last, hnames, _⟩ := exists_names_of_isOrdinary hp
  have hne : p.names ≠ [] := by simp [hnames]
  exact (congrArg Name.join h).trans (Name.join_concat name hne)

theorem calledType?_of_calls (h : p.Calls function called) (hp : conventions.IsOrdinary p) :
    calledType? called.names = some (p.text, function) := by
  obtain ⟨front, last, hnames, hordinary⟩ := exists_names_of_isOrdinary hp
  cases h with
  | type hcalled =>
    have hreverse : called.names.reverse = last :: front.reverse := by
      rw [hcalled, hnames, List.reverse_concat]
    have htext : p.text = Name.join called.names := congrArg Name.join hcalled.symm
    cases hfront : front.reverse with
    | nil =>
      have hsingle : p.text = last := by
        rw [Path.text, hnames, List.reverse_eq_nil_iff.mp hfront]
        exact Name.join_singleton last
      simp [calledType?, hreverse, hfront, hordinary.capital, hsingle]
    | cons owner before => simp [calledType?, hreverse, hfront, hordinary.capital, htext]
  | @function _ name hpart hname hcalled =>
    have hreverse : called.names.reverse = name :: last :: front.reverse := by
      rw [hcalled, hnames, List.reverse_concat, List.reverse_concat]
    have htext : p.text = Name.join (last :: front.reverse).reverse := by
      rw [List.reverse_cons, List.reverse_reverse, ← hnames]
      rfl
    simp [calledType?, hreverse, hordinary.capital, hname, htext]

theorem text_not_mem_transparentCalls (h : p.Calls function called)
    (hp : conventions.IsOrdinary p) : called.text ∉ transparentCalls := by
  intro hmem
  have hshort := ordinary_short hp
  cases h with
  | type hcalled =>
    have htypes : ∀ text ∈ transparentCalls,
        isTypeName (Name.short text) = true → Name.short text ∈ foreignTypes := by
      decide
    rw [text_of_type hcalled] at hmem
    exact hshort.noForeign (htypes _ hmem hshort.capital)
  | function hpart hname hcalled =>
    have howners :
        ∀ text ∈ transparentCalls, ∀ owner ∈ Name.owner? text, Name.short owner ∈ foreignTypes := by
      decide
    rw [text_of_function hp hcalled] at hmem
    exact hshort.noForeign (howners _ hmem _ (Name.owner?_append _ hpart))

theorem isTransparentCall_of_calls (h : p.Calls function called) (hp : conventions.IsOrdinary p)
    (inner : List Expr) : isTransparentCall (.path called inner) = false := by
  simpa [isTransparentCall, callName?] using text_not_mem_transparentCalls h hp

theorem text_ne_err (h : p.Calls function called) (hp : conventions.IsOrdinary p) :
    called.text ≠ "Err" := by
  intro herr
  cases h with
  | type hcalled =>
    have hforeign : Name.short "Err" ∈ foreignTypes := by decide
    rw [← herr, text_of_type hcalled] at hforeign
    exact (ordinary_short hp).noForeign hforeign
  | function hpart hname hcalled =>
    have howner := Name.owner?_append p.text hpart
    have hnone : Name.owner? "Err" = none := by decide
    rw [← text_of_function hp hcalled, herr, hnone] at howner
    exact nomatch howner

theorem not_endsWith_from_u16 (h : p.Calls function called) (hp : conventions.IsOrdinary p) :
    Evaluator.endsWith "StatusCode::from_u16" called.text = false := by
  refine Bool.eq_false_iff.mpr fun hends => ?_
  obtain ⟨front, hfront⟩ := List.isSuffixOf_iff_suffix.mp hends
  have hpart : Name.IsPart "from_u16" := ⟨by decide, by decide⟩
  have hcalled : called.text = String.ofList front ++ "StatusCode" ++ "::" ++ "from_u16" := by
    apply String.toList_injective
    rw [← hfront]
    simp
  cases h with
  | type hnames =>
    have hcapital := (ordinary_short hp).capital
    rw [← text_of_type hnames, hcalled, Name.short_append _ hpart] at hcapital
    exact absurd hcapital (by decide)
  | function hname _ hnames =>
    have howner : some (String.ofList front ++ "StatusCode") = some p.text := by
      rw [← Name.owner?_append _ hpart, ← Name.owner?_append p.text hname, ← hcalled,
        text_of_function hp hnames]
    have hstatus := endsWith_text hp
    rw [← Option.some_inj.mp howner, Evaluator.endsWith, String.toList_append] at hstatus
    exact absurd (List.isSuffixOf_iff_suffix.mpr (List.suffix_append _ _))
      (Bool.eq_false_iff.mp hstatus)

theorem ordinary_of_fromOwner? (h : p.Calls function called) (hp : conventions.IsOrdinary p)
    {inner : List Expr} {owner : String} (howner : fromOwner? (.path called inner) = some owner) :
    conventions.Ordinary owner := by
  obtain ⟨front, last, hnames, hordinary⟩ := exists_names_of_isOrdinary hp
  cases h with
  | type hcalled =>
    have hfrom : last ≠ "from" := by
      rintro rfl
      exact absurd hordinary.capital (by decide)
    simp [fromOwner?, hcalled, hnames, hfrom] at howner
  | @function _ name hpart hname hcalled =>
    by_cases hfrom : name = "from"
    · have hlast : last = owner := by simpa [fromOwner?, hcalled, hnames, hfrom] using howner
      exact hlast ▸ hordinary
    · simp [fromOwner?, hcalled, hnames, hfrom] at howner

theorem value?_of_calls (c : Context) (env : Environment) (h : p.Calls function called)
    (hp : conventions.IsOrdinary p) (inner args : List Expr) :
    value? c env (.call (.path called inner) args) = none := by
  match args with
  | [] | _ :: _ :: _ => rfl
  | [arg] =>
    cases howner : fromOwner? (.path called inner) with
    | none => simp only [value?, howner]
    | some owner =>
      have hordinary := ordinary_of_fromOwner? h hp howner
      have hstring : owner ≠ "String" := fun hstring => hordinary.noForeign (hstring ▸ by decide)
      simp [value?, howner, hstring, hordinary.noMap]

theorem any_last_of_calls (h : p.Calls function called) (hp : conventions.IsOrdinary p)
    {has : String → Bool} (hhas : ∀ name, conventions.Ordinary name → has name = false) :
    (called.last?.map Segment.name).any has = function.any has := by
  obtain ⟨front, last, hnames, hordinary⟩ := exists_names_of_isOrdinary hp
  have hlast : called.last?.map Segment.name = called.names.getLast? := List.getLast?_map.symm
  cases h with
  | type hcalled => simp [hlast, hcalled, hnames, hhas last hordinary]
  | function hpart hname hcalled => simp [hlast, hcalled]

theorem peel_of_calls (h : p.Calls function called) (hp : conventions.IsOrdinary p)
    (inner args : List Expr) :
    peel (.call (.path called inner) args) = .call (.path called inner) args := by
  match args with
  | [] | _ :: _ :: _ => rfl
  | [arg] =>
    rw [peel, isTransparentCall_of_calls h hp]
    rfl

namespace Evaluator

variable (v : Evaluator)

theorem isFromNumber_of_calls (h : p.Calls function called) (hp : conventions.IsOrdinary p)
    (inner : List Expr) : isFromNumber (.path called inner) = false :=
  not_endsWith_from_u16 h hp

theorem status?_of_calls (h : p.Calls function called) (hp : conventions.IsOrdinary p)
    (inner args : List Expr) : v.status? (.call (.path called inner) args) = none := by
  match args with
  | [] | _ :: _ :: _ => rfl
  | [arg] => simp [status?, isTransparentCall_of_calls h hp, isFromNumber_of_calls h hp]

theorem layers_of_calls (status : Option Nat) (failed : Bool) (h : p.Calls function called)
    (hp : conventions.IsOrdinary p) (inner args : List Expr) :
    v.layers status failed (.call (.path called inner) args) =
      ⟨status, failed, .call (.path called inner) args⟩ := by
  match args with
  | [] | _ :: _ :: _ => rfl
  | [arg] => simp [layers, isTransparentCall_of_calls h hp, callName?, text_ne_err h hp]

theorem bareStatus?_of_calls (h : p.Calls function called) (hp : conventions.IsOrdinary p)
    (inner args : List Expr) : v.bareStatus? (.call (.path called inner) args) = none := by
  rw [bareStatus?, v.status?_of_calls h hp]
  split <;> rfl

end Evaluator

end

end Handler

end ApiContract
