import ApiContract.Proofs.FilePaths
import ApiContract.Proofs.Stripping
import ApiContract.Rules

namespace ApiContract

namespace Text

theorem trim_surrounded {front back : String} (hfront : ∀ c ∈ front.toList, isBlank c = true)
    (hback : ∀ c ∈ back.toList, isBlank c = true) (s : String) :
    trim (front ++ s ++ back) = trim s := by
  rw [trim, String.toList_append, String.toList_append, strip_surrounded hfront hback, trim]

theorem split_intercalate {separator : Char} {between : String}
    (hbetween : between.toList = [separator]) {pieces : List String} (hne : pieces ≠ [])
    (h : ∀ piece ∈ pieces, separator ∉ piece.toList) :
    split separator (String.intercalate between pieces) = pieces := by
  induction pieces with
  | nil => exact absurd rfl hne
  | cons piece pieces ih =>
    obtain ⟨hpiece, hpieces⟩ := List.forall_mem_cons.mp h
    cases pieces with
    | nil => rw [String.intercalate_singleton, split_of_not_mem hpiece]
    | cons next pieces =>
      have hrest := List.cons_ne_nil next pieces
      rw [String.intercalate_cons_of_ne_nil hrest, split_between hbetween, split_of_not_mem hpiece,
        ih hrest hpieces, List.singleton_append]

end Text

namespace Rules

open Text

/-- What a token is in every layout. -/
structure IsToken (token : String) : Prop where
  ne_empty : token ≠ ""
  trimmed : trim token = token
  no_bar : '|' ∉ token.toList

/-- The ways to give a field its tokens: in a text with bars between them and blanks around them, or
in a list of what gives it some of them. -/
inductive Spelled : Json → List String → Prop
  | blank {s : String} (h : ∀ c ∈ s.toList, isBlank c = true) : Spelled (.string s) []
  | token {front back token : String} (hfront : ∀ c ∈ front.toList, isBlank c = true)
      (hback : ∀ c ∈ back.toList, isBlank c = true) (h : IsToken token) :
    Spelled (.string (front ++ token ++ back)) [token]
  | bar {s rest : String} {tokens more : List String} (h : Spelled (.string s) tokens)
      (hrest : Spelled (.string rest) more) :
    Spelled (.string (s ++ "|" ++ rest)) (tokens ++ more)
  | nothing : Spelled (.array []) []
  | item {item : Json} {items : List Json} {tokens more : List String} (h : Spelled item tokens)
      (hitems : Spelled (.array items) more) : Spelled (.array (item :: items)) (tokens ++ more)

theorem tokensOf_text_append (s rest : String) :
    tokensOf (.string (s ++ "|" ++ rest)) = tokensOf (.string s) ++ tokensOf (.string rest) := by
  rw [tokensOf, tokensOf, tokensOf, split_between rfl, List.map_append, List.filter_append]

theorem tokensOf_text_single {s : String} (h : '|' ∉ s.toList) :
    tokensOf (.string s) = if trim s = "" then [] else [trim s] := by
  rw [tokensOf, split_of_not_mem h, List.map_singleton, List.filter_cons, List.filter_nil]
  by_cases htrim : trim s = "" <;> simp [htrim]

theorem not_mem_of_isBlank {s : String} (h : ∀ c ∈ s.toList, isBlank c = true) :
    '|' ∉ s.toList := by
  intro hmem
  have hblank := h _ hmem
  revert hblank
  decide

theorem tokensOf_of_spelled {value : Json} {tokens : List String} (h : Spelled value tokens) :
    tokensOf value = tokens := by
  induction h with
  | @blank s h =>
    have htrim : trim s = "" := by rw [trim, strip_eq_nil_iff.mpr h, String.ofList_nil]
    rw [tokensOf_text_single (not_mem_of_isBlank h), if_pos htrim]
  | @token front back token hfront hback h =>
    have hbar : '|' ∉ (front ++ token ++ back).toList := by
      simp only [String.toList_append, List.mem_append, not_or]
      exact ⟨⟨not_mem_of_isBlank hfront, h.no_bar⟩, not_mem_of_isBlank hback⟩
    rw [tokensOf_text_single hbar, trim_surrounded hfront hback, h.trimmed, if_neg h.ne_empty]
  | bar _ _ ih ihrest => rw [tokensOf_text_append, ih, ihrest]
  | nothing => rfl
  | item _ _ ih ihitems =>
    rw [tokensOf] at ihitems
    rw [tokensOf, tokensOfAll, ih, ihitems]

/-- The ways to lay out fields with their tokens: as the members of an object, or in pairs. -/
inductive LaidOut : Json → List (String × List String) → Prop
  | noMember : LaidOut (.object []) []
  | member (name : String) {value : Json} {tokens : List String} (h : Spelled value tokens)
      {members : Members} {fields : List (String × List String)}
      (hmembers : LaidOut (.object members) fields) :
      LaidOut (.object ((name, value) :: members)) ((name, tokens) :: fields)
  | noPair : LaidOut (.array []) []
  | pair (name : String) {value : Json} {tokens : List String} (h : Spelled value tokens)
      {pairs : List Json} {fields : List (String × List String)}
      (hpairs : LaidOut (.array pairs) fields) :
      LaidOut (.array (.array [.string name, value] :: pairs)) ((name, tokens) :: fields)

theorem normalize_of_laidOut {rules : Json} {fields : List (String × List String)}
    (h : LaidOut rules fields) : normalize rules = fields := by
  induction h with
  | noMember | noPair => rfl
  | member name h _ ih =>
    rw [normalize] at ih
    rw [normalize, List.map_cons, ih, ← tokensOf_of_spelled h]
  | pair name h _ ih =>
    rw [normalize] at ih
    rw [normalize, List.filterMap_cons, ih, ← tokensOf_of_spelled h]

def inText (tokens : List String) : Json := .string (String.intercalate "|" tokens)

def inList (tokens : List String) : Json := .array (tokens.map .string)

variable {tokens : List String} {fields : List (String × List String)}

theorem spelled_token {token : String} (h : IsToken token) : Spelled (.string token) [token] := by
  have hblank : ∀ c ∈ "".toList, isBlank c = true := by simp
  simpa using Spelled.token hblank hblank h

theorem spelled_inText (h : ∀ token ∈ tokens, IsToken token) : Spelled (inText tokens) tokens := by
  induction tokens with
  | nil => exact .blank (by simp)
  | cons token tokens ih =>
    obtain ⟨htoken, htokens⟩ := List.forall_mem_cons.mp h
    cases tokens with
    | nil =>
      rw [inText, String.intercalate_singleton]
      exact spelled_token htoken
    | cons next tokens =>
      rw [inText, String.intercalate_cons_of_ne_nil (List.cons_ne_nil _ _)]
      exact .bar (spelled_token htoken) (ih htokens)

theorem spelled_inList (h : ∀ token ∈ tokens, IsToken token) : Spelled (inList tokens) tokens := by
  induction tokens with
  | nil => exact .nothing
  | cons token tokens ih =>
    obtain ⟨htoken, htokens⟩ := List.forall_mem_cons.mp h
    exact .item (spelled_token htoken) (ih htokens)

def inObject (write : List String → Json) (fields : List (String × List String)) : Json :=
  .object (fields.map fun field => (field.1, write field.2))

def inPairs (write : List String → Json) (fields : List (String × List String)) : Json :=
  .array (fields.map fun field => .array [.string field.1, write field.2])

theorem laidOut_inObject {write : List String → Json}
    (h : ∀ field ∈ fields, Spelled (write field.2) field.2) :
    LaidOut (inObject write fields) fields := by
  induction fields with
  | nil => exact .noMember
  | cons field fields ih =>
    obtain ⟨hfield, hfields⟩ := List.forall_mem_cons.mp h
    exact .member field.1 hfield (ih hfields)

theorem laidOut_inPairs {write : List String → Json}
    (h : ∀ field ∈ fields, Spelled (write field.2) field.2) :
    LaidOut (inPairs write fields) fields := by
  induction fields with
  | nil => exact .noPair
  | cons field fields ih =>
    obtain ⟨hfield, hfields⟩ := List.forall_mem_cons.mp h
    exact .pair field.1 hfield (ih hfields)

theorem interpret_eq_of_laidOut {rules others : Json} (h : LaidOut rules fields)
    (hothers : LaidOut others fields) : interpret rules = interpret others := by
  rw [interpret, interpret, normalize_of_laidOut h, normalize_of_laidOut hothers]

theorem parse_arguments {name : String} {args : List String} (hname : ':' ∉ name.toList)
    (htrim : trim name = name) (hne : args ≠ [])
    (hargs : ∀ arg ∈ args, ',' ∉ arg.toList ∧ trim arg = arg) :
    Rule.parse (name ++ ":" ++ String.intercalate "," args) = ⟨name, args⟩ := by
  have hchars : (name ++ ":" ++ String.intercalate "," args).toList =
      name.toList ++ ':' :: (String.intercalate "," args).toList := by simp
  rw [Rule.parse, hchars, splitFirst?_append hname]
  dsimp only
  rw [String.ofList_toList, String.ofList_toList, htrim,
    split_intercalate rfl hne fun arg harg => (hargs arg harg).1,
    List.map_congr_left fun arg harg => (hargs arg harg).2, List.map_id']

/-- Whatever the layout, fields and tokens are read as they are from an object and from pairs, with
the tokens in one text and in a list; and a rule is read with the arguments it is written with. -/
theorem interpret_of_laidOut :
    (∀ fields : List (String × List String), (∀ field ∈ fields, ∀ token ∈ field.2, IsToken token) →
        ∀ rules, LaidOut rules fields →
          ∀ write ∈ [inText, inList], interpret rules = interpret (inObject write fields) ∧
            interpret rules = interpret (inPairs write fields)) ∧
      ∀ name args, ':' ∉ name.toList → trim name = name → args ≠ [] →
        (∀ arg ∈ args, ',' ∉ arg.toList ∧ trim arg = arg) →
        Rule.parse (name ++ ":" ++ String.intercalate "," args) = ⟨name, args⟩ := by
  refine ⟨fun fields htokens rules h write hwrite => ?_, fun _ _ => parse_arguments⟩
  have hspelled : ∀ field ∈ fields, Spelled (write field.2) field.2 := by
    intro field hfield
    obtain rfl | rfl : write = inText ∨ write = inList := by simpa using hwrite
    · exact spelled_inText (htokens field hfield)
    · exact spelled_inList (htokens field hfield)
  exact ⟨interpret_eq_of_laidOut h (laidOut_inObject hspelled),
    interpret_eq_of_laidOut h (laidOut_inPairs hspelled)⟩

def spacious : Json :=
  .object [("tags", .array [.array [.string " required "], .string "max:3| |array "]),
    ("title", .string " ")]

def plain : List (String × List String) := [("tags", ["required", "max:3", "array"]), ("title", [])]

theorem isToken_plain : ∀ field ∈ plain, ∀ token ∈ field.2, IsToken token := by
  intro field hfield token htoken
  have hplain :
      ∀ field ∈ plain, ∀ token ∈ field.2, token ≠ "" ∧ trim token = token ∧ '|' ∉ token.toList := by
    decide
  obtain ⟨hne, htrim, hbar⟩ := hplain field hfield token htoken
  exact ⟨hne, htrim, hbar⟩

theorem laidOut_spacious : LaidOut spacious plain := by
  obtain ⟨hrequired, hmax, harray⟩ : IsToken "required" ∧ IsToken "max:3" ∧ IsToken "array" := by
    simpa using isToken_plain _ List.mem_cons_self
  have hspace : ∀ c ∈ " ".toList, isBlank c = true := by simp [isBlank]
  have hnothing : ∀ c ∈ "".toList, isBlank c = true := by simp
  have houter : Spelled (.string " required ") ["required"] := .token hspace hspace hrequired
  have hlast : Spelled (.string "array ") ["array"] := .token hnothing hspace harray
  have hbars : Spelled (.string "max:3| |array ") ["max:3", "array"] :=
    .bar (.bar (spelled_token hmax) (.blank hspace)) hlast
  have htags := Spelled.item (.item houter .nothing) (.item hbars .nothing)
  exact .member "tags" htags (.member "title" (.blank hspace) .noMember)

theorem interpret_spacious : interpret spacious = interpret (inPairs inList plain) ∧
    Rule.parse "in:draft,in review" = ⟨"in", ["draft", "in review"]⟩ :=
  ⟨(interpret_of_laidOut.1 plain isToken_plain spacious laidOut_spacious inList (by simp)).2,
    interpret_of_laidOut.2 "in" ["draft", "in review"] (by decide) (by decide) (by simp)
      (by decide)⟩

end Rules

end ApiContract
