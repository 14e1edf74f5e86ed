import Mathlib.Data.List.Forall2
import ApiContract.Proofs.JsonLiterals
import ApiContract.Proofs.ReturnLayers

namespace ApiContract

open Source Reading Grammar

namespace Source

/-- Pieces of text with commas between them; there may be one behind the last piece. -/
inductive Joined : List (List Token) → List Token → Prop
  | nil : Joined [] []
  | last (piece : List Token) : Joined [piece] piece
  | more (piece : List Token) (joint : Bool) {pieces : List (List Token)} {rest : List Token}
      (hrest : Joined pieces rest) : Joined (piece :: pieces) (piece ++ .punct ',' joint :: rest)

theorem Joined.separated {α : Type} {r : Reader α} {pieces : List (List Token)}
    {tokens : List Token} (h : Joined pieces tokens) {as : List α}
    (hreads : List.Forall₂ (Reads r) pieces as) : Separated r tokens as := by
  induction h generalizing as with
  | nil =>
    cases hreads
    exact .nil
  | last piece =>
    obtain ⟨a, _, ha, hrest, rfl⟩ := List.forall₂_cons_left_iff.mp hreads
    cases hrest
    exact .last ha
  | more piece joint _ ih =>
    obtain ⟨a, as, ha, hrest, rfl⟩ := List.forall₂_cons_left_iff.mp hreads
    exact .more ha joint (ih hrest)

/-- An expression in an array or object, and the tokens it is written with. -/
structure Element where
  tokens : List Token
  expr : Expr

/-- From a depth of the grammar on, the tokens are read as the expression. In a literal of the data
format they are no array, object or null. -/
structure Element.Plain (least : Nat) (x : Element) : Prop where
  reads : ∀ depth, least ≤ depth → Reads (Grammar.expr (toDepth depth)) x.tokens x.expr
  not_object : isGroup .curly x.tokens = false
  not_array : isGroup .square x.tokens = false
  not_null : x.tokens ≠ [.ident "null"]

/-- A name with its expression. -/
structure Entry extends Element where
  name : String
  /-- Whether an operator stands directly behind the colon. -/
  joint : Bool := false

def Entry.written (entry : Entry) : List Token :=
  .literal (.string entry.name) :: .punct ':' entry.joint :: entry.tokens

def Entry.pair (entry : Entry) : Expr := .tuple [.lit (.string entry.name), entry.expr]

def Entry.field (entry : Entry) : FieldInit := .mk (some entry.name) entry.expr

def Entry.template (entry : Entry) : TemplateEntry := .mk (.text entry.name) (.value entry.expr)

theorem isGroup_append {tokens : List Token} (h : tokens ≠ []) (bracket : Bracket)
    (rest : List Token) : isGroup bracket (tokens ++ rest) = isGroup bracket tokens := by
  obtain ⟨first, more, rfl⟩ := List.exists_cons_of_ne_nil h
  cases first <;> rfl

theorem exists_of_isWord {word : String} {tokens : List Token} (h : isWord word tokens = true) :
    ∃ rest, tokens = .ident word :: rest := by
  unfold isWord at h
  split at h
  next name rest => exact ⟨rest, by rw [eq_of_beq h]⟩
  next => cases h

theorem exists_of_isOp_comma {tokens : List Token} (h : isOp "," tokens = true) :
    ∃ joint rest, tokens = .punct ',' joint :: rest := by
  match tokens with
  | .punct d joint :: rest =>
    obtain rfl : ',' = d := eq_of_beq h
    exact ⟨joint, rest, rfl⟩

theorem run_name_comma (depth : Nat) (joint : Bool) (rest : List Token) :
    (Grammar.expr (toDepth (depth + 4))).run (.ident "null" :: .punct ',' joint :: rest) =
      some (.path (.ofIdent "null") [], .punct ',' joint :: rest) := rfl

namespace Element.Plain

variable {least : Nat} {x : Element}

/-- No expression goes on behind a comma, so that no literal takes its first word for null. -/
theorem not_null_comma (h : x.Plain least) (joint : Bool) (more : List Token) :
    x.tokens ≠ .ident "null" :: .punct ',' joint :: more := by
  intro htokens
  have hrun := (h.reads (least + 4) (Nat.le_add_right _ _)).run [] .nil
  rw [List.append_nil, htokens, run_name_comma, Option.some.injEq, Prod.mk.injEq] at hrun
  exact List.cons_ne_nil _ _ hrun.2

theorem opens_not_null (h : x.Plain least) (rest : List Token) :
    (isWord "null" (x.tokens ++ rest) &&
        (decide ((x.tokens ++ rest).length = 1) || isOp "," ((x.tokens ++ rest).drop 1))) =
      false := by
  obtain ⟨first, more, htokens⟩ := List.exists_cons_of_ne_nil (h.reads least (Nat.le_refl _)).ne_nil
  rw [htokens, List.cons_append, List.drop_one, List.tail_cons, List.length_cons, Bool.eq_false_iff]
  intro hnull
  obtain ⟨hword, hends⟩ := Bool.and_eq_true_iff.mp hnull
  obtain ⟨_, hfirst⟩ := exists_of_isWord hword
  obtain ⟨rfl, -⟩ := List.cons.inj hfirst
  -- the word stands alone, or before something that is no comma
  cases more with
  | nil => exact h.not_null htokens
  | cons next more =>
    have hcomma : isOp "," (next :: more ++ rest) = true := by simpa using hends
    obtain ⟨joint, tail, htail⟩ := exists_of_isOp_comma hcomma
    obtain ⟨rfl, -⟩ := List.cons.inj htail
    exact h.not_null_comma joint more htokens

theorem reads_template (h : x.Plain least) (depth : Nat) (hdepth : least ≤ depth) :
    Reads (templateAt (depth + 1)) x.tokens (.value x.expr) := by
  have hexpr := h.reads depth hdepth
  refine ⟨hexpr.ne_nil, fun rest hrest => ?_⟩
  have hcurly : isGroup .curly (x.tokens ++ rest) = false := by
    rw [isGroup_append hexpr.ne_nil, h.not_object]
  have hsquare : isGroup .square (x.tokens ++ rest) = false := by
    rw [isGroup_append hexpr.ne_nil, h.not_array]
  change (readTemplate (toDepth depth)).run _ = _
  rw [readTemplate, Reader.run_bind]
  change (if isGroup .curly (x.tokens ++ rest) = true then (_ : Reader Template) else _).run
      (x.tokens ++ rest) =
    _
  rw [if_neg (by rw [hcurly]; exact Bool.false_ne_true),
    if_neg (by rw [hsquare]; exact Bool.false_ne_true), h.opens_not_null rest,
    if_neg Bool.false_ne_true, Reader.run_bind, hexpr.run rest hrest]
  rfl

end Element.Plain

/-- The notations of an object: a literal of the data format, a map made from pairs, and a record of
a type without a capability. -/
inductive ObjectNotation (c : Handler.Context) (least : Nat) (entries : List Entry) : Expr → Prop
  | literal {tokens : List Token} (h : Joined (entries.map Entry.written) tokens) {depth : Nat}
      (hdepth : least + 2 ≤ depth) :
    ObjectNotation c least entries ((toDepth depth).macroValue "json" [.group .curly tokens])
  | map {path : Path} {inner : List Expr} {owner : String}
      (hfrom : Handler.fromOwner? (.path path inner) = some owner)
      (howner : owner ∈ Handler.mapTypes) :
      ObjectNotation c least entries (.call (.path path inner) [.array (entries.map Entry.pair)])
  | record {path : Path} {inner : List Expr} (h : c.isClassified (c.resolve path.text) = false) :
    ObjectNotation c least entries (.record path inner (entries.map Entry.field) none)

/-- The notations of an array: a literal of the data format, a vector, a list, and a tuple. -/
inductive ArrayNotation (least : Nat) (elements : List Element) : Expr → Prop
  | literal {tokens : List Token} (h : Joined (elements.map Element.tokens) tokens) {depth : Nat}
      (hdepth : least + 2 ≤ depth) :
    ArrayNotation least elements ((toDepth depth).macroValue "json" [.group .square tokens])
  | vec {tokens : List Token} (h : Joined (elements.map Element.tokens) tokens) {depth : Nat}
      (hdepth : least ≤ depth) :
      ArrayNotation least elements ((toDepth depth).macroValue "vec" tokens)
  | list : ArrayNotation least elements (.array (elements.map Element.expr))
  | tuple (h : elements ≠ []) : ArrayNotation least elements (.tuple (elements.map Element.expr))

variable {least depth : Nat}

theorem macroValue_vec {g : Grammar} {tokens : List Token} {elements : List Expr}
    (h : all (commas g.expr) tokens = some elements) :
    g.macroValue "vec" tokens = .vec elements := by
  rw [macroValue, if_neg (by decide), if_pos (by decide)]
  split
  next found hfound => rw [Option.some.inj (hfound.symm.trans h)]
  next hnone => cases hnone.symm.trans h

theorem Joined.separated_map {α β : Type} {r : Reader β} {xs : List α} {piece : α → List Token}
    {f : α → β} {tokens : List Token} (h : Joined (xs.map piece) tokens)
    (hreads : ∀ x ∈ xs, Reads r (piece x) (f x)) : Separated r tokens (xs.map f) := by
  refine h.separated ?_
  rw [List.forall₂_map_left_iff, List.forall₂_map_right_iff, List.forall₂_same]
  exact hreads

theorem macroValue_vec_elements {elements : List Element}
    (helements : ∀ x ∈ elements, x.Plain least) {tokens : List Token}
    (h : Joined (elements.map Element.tokens) tokens) (hdepth : least ≤ depth) :
    (toDepth depth).macroValue "vec" tokens = .vec (elements.map Element.expr) :=
  macroValue_vec (h.separated_map fun x hx => (helements x hx).reads depth hdepth).all_commas

theorem macroValue_json_elements {elements : List Element}
    (helements : ∀ x ∈ elements, x.Plain least) {tokens : List Token}
    (h : Joined (elements.map Element.tokens) tokens) (hdepth : least + 2 ≤ depth) :
    (toDepth depth).macroValue "json" [.group .square tokens] =
      .json (.array (elements.map fun x => .value x.expr)) := by
  obtain ⟨k, rfl⟩ : ∃ k, depth = k + 2 := Nat.exists_eq_add_of_le' (by omega)
  have hitems := h.separated_map fun x hx => (helements x hx).reads_template k (by omega)
  exact Handler.macroValue_json (template_array hitems.all_commas).all_eq

theorem macroValue_json_entries {entries : List Entry}
    (hentries : ∀ entry ∈ entries, entry.Plain least) {tokens : List Token}
    (h : Joined (entries.map Entry.written) tokens) (hdepth : least + 2 ≤ depth) :
    (toDepth depth).macroValue "json" [.group .curly tokens] =
      .json (.object (entries.map Entry.template)) := by
  obtain ⟨k, rfl⟩ : ∃ k, depth = k + 2 := Nat.exists_eq_add_of_le' (by omega)
  have hmembers := h.separated_map fun entry hentry =>
    templateMember_reads entry.name entry.joint
      ((hentries entry hentry).reads_template k (by omega))
  exact Handler.macroValue_json (template_object hmembers.all_commas).all_eq

end Source

namespace Handler

open Source

variable (c : Context) (env : Environment)

/-- The values of some elements; an element without a value is left out. -/
def elementValues (elements : List Element) : List Json :=
  elements.filterMap fun x => value? c env x.expr

def entryValues (entries : List Entry) : Members :=
  entries.filterMap fun entry => (value? c env entry.expr).map fun value => (entry.name, value)

theorem toList_append_filterMap {α β : Type} (f : α → Option β) (x : α) (xs : List α) :
    (f x).toList ++ xs.filterMap f = (x :: xs).filterMap f := by
  cases h : f x with
  | none => rw [List.filterMap_cons_none h, Option.toList_none, List.nil_append]
  | some y => rw [List.filterMap_cons_some h, Option.toList_some, List.singleton_append]

theorem eq_filterMap {α β : Type} {f : α → Option β} {g : List α → List β} (hnil : g [] = [])
    (hcons : ∀ x xs, g (x :: xs) = (f x).toList ++ g xs) (xs : List α) : g xs = xs.filterMap f := by
  induction xs with
  | nil => exact hnil
  | cons x xs ih => rw [hcons, ih, toList_append_filterMap]

theorem values_elements (elements : List Element) :
    values c env (elements.map Element.expr) = elementValues c env elements := by
  refine eq_filterMap (g := fun xs => values c env (xs.map Element.expr)) rfl
    (fun x rest => ?_) elements
  rw [List.map_cons, values]

theorem templateValues_elements (elements : List Element) :
    templateValues c env (elements.map fun x => .value x.expr) = elementValues c env elements := by
  refine eq_filterMap (g := fun xs => templateValues c env (xs.map fun x => .value x.expr)) rfl
    (fun x rest => ?_) elements
  rw [List.map_cons, templateValues, templateValue?]

theorem fieldValues_entries (entries : List Entry) :
    fieldValues c env (entries.map Entry.field) = entryValues c env entries := by
  refine eq_filterMap (g := fun xs => fieldValues c env (xs.map Entry.field)) rfl
    (fun entry rest => ?_) entries
  rw [List.map_cons, Entry.field, fieldValues]

theorem pairValue?_pair (entry : Entry) : pairValue? c env entry.pair =
    (value? c env entry.expr).map fun value => (entry.name, value) := by
  rw [Entry.pair, pairValue?, value?, Literal.value?]
  cases value? c env entry.expr <;> rfl

theorem pairValues_entries (entries : List Entry) :
    pairValues c env (entries.map Entry.pair) = entryValues c env entries := by
  refine eq_filterMap (g := fun xs => pairValues c env (xs.map Entry.pair)) rfl
    (fun entry rest => ?_) entries
  rw [List.map_cons, pairValues, pairValue?_pair]

theorem templateEntries_entries (entries : List Entry) :
    templateEntries c env (entries.map Entry.template) = entryValues c env entries := by
  refine eq_filterMap (g := fun xs => templateEntries c env (xs.map Entry.template)) rfl
    (fun entry rest => ?_) entries
  rw [List.map_cons, Entry.template, templateEntries, templateKey?, templateValue?]
  cases value? c env entry.expr <;> rfl

theorem names_entryValues_sublist (entries : List Entry) :
    (entryValues c env entries).names.Sublist (entries.map Entry.name) := by
  induction entries with
  | nil => exact .slnil
  | cons entry rest ih =>
    rw [entryValues, ← toList_append_filterMap]
    cases value? c env entry.expr with
    | none => exact ih.cons _
    | some value => exact ih.cons_cons _

theorem ofList_entryValues {entries : List Entry} (h : (entries.map Entry.name).Nodup) :
    Members.ofList (entryValues c env entries) = entryValues c env entries :=
  Members.ofList_of_nodup (h.sublist (names_entryValues_sublist c env entries))

variable {c env} {least : Nat}

theorem value?_objectNotation {entries : List Entry}
    (hentries : ∀ entry ∈ entries, entry.Plain least) (hnames : (entries.map Entry.name).Nodup)
    {e : Expr} (h : ObjectNotation c least entries e) :
    value? c env e = some (.object (entryValues c env entries)) := by
  cases h with
  | literal h hdepth =>
    rw [macroValue_json_entries hentries h hdepth, value?, templateValue?, templateEntries_entries,
      ofList_entryValues c env hnames]
  | @map path inner owner hfrom howner =>
    have hstring : owner ≠ "String" := by
      rintro rfl
      exact absurd howner (by decide)
    have hmap : mapTypes.contains owner = true := List.contains_iff_mem.mpr howner
    rw [value?, hfrom]
    simp only [if_neg hstring, if_pos hmap, entriesIn, Option.map_some, pairValues_entries,
      ofList_entryValues c env hnames]
  | record h =>
    rw [value?, h, if_neg Bool.false_ne_true, fieldValues_entries, ofList_entryValues c env hnames]

theorem value?_arrayNotation {elements : List Element} (helements : ∀ x ∈ elements, x.Plain least)
    {e : Expr} (h : ArrayNotation least elements e) :
    value? c env e = some (.array (elementValues c env elements)) := by
  cases h with
  | literal h hdepth =>
    rw [macroValue_json_elements helements h hdepth, value?, templateValue?,
      templateValues_elements]
  | vec h hdepth => rw [macroValue_vec_elements helements h hdepth, value?, values_elements]
  | list => rw [value?, values_elements]
  | tuple h =>
    obtain ⟨x, rest, rfl⟩ := List.exists_cons_of_ne_nil h
    rw [List.map_cons, value?, ← List.map_cons, values_elements]

variable (c env) (least)

/-- All notations of an object with these entries have the same value, with the entries in their
order, and all notations of an array with these elements have the same value. An entry or element
without a value is left out. -/
theorem value?_of_notation : (∀ entries : List Entry, (∀ entry ∈ entries, entry.Plain least) →
      (entries.map Entry.name).Nodup → ∀ e, ObjectNotation c least entries e →
        value? c env e = some (.object (entryValues c env entries))) ∧
    ∀ elements : List Element, (∀ x ∈ elements, x.Plain least) →
      ∀ e, ArrayNotation least elements e →
        value? c env e = some (.array (elementValues c env elements)) :=
  ⟨fun _ hentries hnames _ h => value?_objectNotation hentries hnames h,
    fun _ helements _ h => value?_arrayNotation helements h⟩

def textElement (text : String) : Element := ⟨[.literal (.string text)], .lit (.string text)⟩

def userElement : Element := ⟨[.ident "user"], .path (.ofIdent "user") []⟩

theorem textElement_plain (text : String) : (textElement text).Plain 5 where
  reads depth hdepth := by
    obtain ⟨k, rfl⟩ : ∃ k, depth = k + 5 := Nat.exists_eq_add_of_le' hdepth
    refine ⟨List.cons_ne_nil _ _, fun rest hrest => ?_⟩
    cases hrest <;> rfl
  not_object := rfl
  not_array := rfl
  not_null := nofun

theorem userElement_plain : userElement.Plain 5 where
  reads depth hdepth := by
    obtain ⟨k, rfl⟩ : ∃ k, depth = k + 5 := Nat.exists_eq_add_of_le' hdepth
    refine ⟨List.cons_ne_nil _ _, fun rest hrest => ?_⟩
    cases hrest <;> rfl
  not_object := rfl
  not_array := rfl
  not_null := by simp [userElement]

def healthEntries : List Entry :=
  [⟨textElement "up", "status", false⟩, ⟨userElement, "user", false⟩]

theorem value?_healthEntries :
    let object : Json := .object [("status", .string "up")]
    let array : Json := .array [.string "up"]
    let written : List Token :=
      [.literal (.string "status"), .punct ':' false, .literal (.string "up"), .punct ',' false,
        .literal (.string "user"), .punct ':' false, .ident "user", .punct ',' false]
    let elements : List Token := [.literal (.string "up"), .punct ',' false, .ident "user"]
    let exprs := [.lit (.string "up"), .path (.ofIdent "user") []]
    let value (e : Expr) := value? presenter.context [] e
    value ((toDepth 7).macroValue "json" [.group .curly written]) = some object ∧ value
          (.call (.path (pathTo ["HashMap", "from"]) []) [.array (healthEntries.map Entry.pair)]) =
        some object ∧
      value (.record (pathTo ["Health"]) [] (healthEntries.map Entry.field) none) = some object ∧
      value ((toDepth 7).macroValue "json" [.group .square elements]) = some array ∧
      value ((toDepth 7).macroValue "vec" elements) = some array ∧
      value (.array exprs) = some array ∧ value (.tuple exprs) = some array := by
  obtain ⟨hobject, harray⟩ := value?_of_notation presenter.context [] 5
  have hentries : ∀ entry ∈ healthEntries, entry.Plain 5 := List.forall_mem_cons.mpr
    ⟨textElement_plain "up", List.forall_mem_singleton.mpr userElement_plain⟩
  have helements : ∀ x ∈ [textElement "up", userElement], x.Plain 5 := List.forall_mem_cons.mpr
    ⟨textElement_plain "up", List.forall_mem_singleton.mpr userElement_plain⟩
  have hnames : (healthEntries.map Entry.name).Nodup := by decide
  have hwritten : Joined (healthEntries.map Entry.written) _ := .more _ false (.more _ false .nil)
  have hjoined : Joined ([textElement "up", userElement].map Element.tokens) _ :=
    .more _ false (.last _)
  exact ⟨hobject _ hentries hnames _ (.literal hwritten (by decide)),
    hobject _ hentries hnames _ (.map rfl (by decide)),
    hobject _ hentries hnames _ (.record (by decide)),
    harray _ helements _ (.literal hjoined (by decide)),
    harray _ helements _ (.vec hjoined (by decide)), harray _ helements _ .list,
    harray _ helements _ (.tuple (by decide))⟩

end Handler

end ApiContract
