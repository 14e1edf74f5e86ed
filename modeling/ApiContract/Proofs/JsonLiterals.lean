import ApiContract.Handler.Literal
import ApiContract.Proofs.SettledValues
import ApiContract.Source.File

namespace ApiContract

open Source Reading Grammar

namespace Json

/-- A value that can be written in source text: without fractions, with integers that a literal
holds, and with every name once in each object. -/
inductive Whole : Json → Prop
  | null : Whole .null
  | bool (b : Bool) : Whole (.bool b)
  | int {n : Int} (hleast : -(Int.pow 2 63) < n) (hgreatest : n < Int.pow 2 64) :
      Whole (.number (.int n))
  | string (s : String) : Whole (.string s)
  | array {items : List Json} (hitems : ∀ item ∈ items, Whole item) : Whole (.array items)
  | object {members : Members} (hnames : members.names.Nodup)
      (hmembers : ∀ entry ∈ members, Whole entry.2) : Whole (.object members)

namespace Whole

theorem int_bounds {n : Int} (h : Whole (.number (.int n))) :
    -(Int.pow 2 63) < n ∧ n < Int.pow 2 64 := by
  cases h with
  | int hleast hgreatest => exact ⟨hleast, hgreatest⟩

theorem items {items : List Json} (h : Whole (.array items)) : ∀ item ∈ items, Whole item := by
  cases h with
  | array hitems => exact hitems

theorem names_nodup {members : Members} (h : Whole (.object members)) : members.names.Nodup := by
  cases h with
  | object hnames _ => exact hnames

theorem members {members : Members} (h : Whole (.object members)) :
    ∀ entry ∈ members, Whole entry.2 := by
  cases h with
  | object _ hmembers => exact hmembers

end Whole

mutual

/-- The tokens that a value is written with. -/
inductive Written : Json → List Token → Prop
  | null : Written .null [.ident "null"]
  | bool (b : Bool) : Written (.bool b) [.ident (if b then "true" else "false")]
  | string (s : String) : Written (.string s) [.literal (.string s)]
  | int (n : Nat) : Written (.number (.int n)) [.literal (.integer n "")]
  | negative {n : Nat} (hn : 0 < n) (joint : Bool) :
    Written (.number (.int (-n))) [.punct '-' joint, .literal (.integer n "")]
  | array {items : List Json} {tokens : List Token} (h : WrittenItems items tokens) :
    Written (.array items) [.group .square tokens]
  | object {members : Members} {tokens : List Token} (h : WrittenMembers members tokens) :
    Written (.object members) [.group .curly tokens]

/-- Values with commas between them; there may be one behind the last value. -/
inductive WrittenItems : List Json → List Token → Prop
  | nil : WrittenItems [] []
  | last {item : Json} {tokens : List Token} (h : Written item tokens) : WrittenItems [item] tokens
  | more {item : Json} {tokens : List Token} (h : Written item tokens) (joint : Bool)
      {items : List Json} {rest : List Token} (hrest : WrittenItems items rest) :
      WrittenItems (item :: items) (tokens ++ .punct ',' joint :: rest)

/-- Names with their values, and commas between them. -/
inductive WrittenMembers : Members → List Token → Prop
  | nil : WrittenMembers [] []
  | last (name : String) (colon : Bool) {value : Json} {tokens : List Token}
      (h : Written value tokens) :
      WrittenMembers [(name, value)] (.literal (.string name) :: .punct ':' colon :: tokens)
  | more (name : String) (colon : Bool) {value : Json} {tokens : List Token}
      (h : Written value tokens) (joint : Bool) {members : Members} {rest : List Token}
      (hrest : WrittenMembers members rest) : WrittenMembers ((name, value) :: members)
      (.literal (.string name) :: .punct ':' colon :: tokens ++ .punct ',' joint :: rest)

end

theorem exists_writtenItems {items : List Json}
    (h : ∀ item ∈ items, ∃ tokens, item.Written tokens) : ∃ tokens, WrittenItems items tokens := by
  induction items with
  | nil => exact ⟨[], .nil⟩
  | cons item items ih =>
    obtain ⟨tokens, hitem⟩ := h item List.mem_cons_self
    obtain ⟨rest, hrest⟩ := ih fun other hother => h other (List.mem_cons_of_mem _ hother)
    exact ⟨_, .more hitem false hrest⟩

theorem exists_writtenMembers {members : Members}
    (h : ∀ entry ∈ members, ∃ tokens, entry.2.Written tokens) :
    ∃ tokens, WrittenMembers members tokens := by
  induction members with
  | nil => exact ⟨[], .nil⟩
  | cons entry members ih =>
    obtain ⟨tokens, hentry⟩ := h entry List.mem_cons_self
    obtain ⟨rest, hrest⟩ := ih fun other hother => h other (List.mem_cons_of_mem _ hother)
    exact ⟨_, .more entry.1 false hentry false hrest⟩

theorem Whole.exists_written {value : Json} (h : value.Whole) : ∃ tokens, value.Written tokens := by
  induction h with
  | null => exact ⟨_, .null⟩
  | bool b => exact ⟨_, .bool b⟩
  | @int n _ _ =>
    obtain ⟨m, rfl | rfl⟩ := n.eq_nat_or_neg
    · exact ⟨_, .int m⟩
    · rcases Nat.eq_zero_or_pos m with rfl | hm
      · exact ⟨_, .int 0⟩
      · exact ⟨_, .negative hm false⟩
  | string s => exact ⟨_, .string s⟩
  | array _ ih =>
    obtain ⟨tokens, h⟩ := exists_writtenItems ih
    exact ⟨_, .array h⟩
  | object _ _ ih =>
    obtain ⟨tokens, h⟩ := exists_writtenMembers ih
    exact ⟨_, .object h⟩

end Json

namespace Source

theorem Reader.run_bind {α β : Type} (r : Reader α) (next : α → Reader β) (tokens : List Token) :
    (r >>= next).run tokens =
      match r.run tokens with
      | some (a, rest) => (next a).run rest
      | none => none := rfl

/-- What may stand behind an element: nothing, or a comma. -/
inductive Ends : List Token → Prop
  | nil : Ends []
  | comma (joint : Bool) (rest : List Token) : Ends (.punct ',' joint :: rest)

/-- Some tokens, with anything that may stand behind an element, are read as this. -/
structure Reads {α : Type} (r : Reader α) (tokens : List Token) (a : α) : Prop where
  ne_nil : tokens ≠ []
  run : ∀ rest, Ends rest → r.run (tokens ++ rest) = some (a, rest)

theorem Reads.all_eq {α : Type} {r : Reader α} {tokens : List Token} {a : α}
    (h : Reads r tokens a) : all r tokens = some a := by
  have hrun := h.run [] .nil
  rw [List.append_nil] at hrun
  rw [all, hrun]

/-- Elements with commas between them, and maybe one behind the last. -/
inductive Separated {α : Type} (r : Reader α) : List Token → List α → Prop
  | nil : Separated r [] []
  | last {tokens : List Token} {a : α} (h : Reads r tokens a) : Separated r tokens [a]
  | more {tokens : List Token} {a : α} (h : Reads r tokens a) (joint : Bool) {rest : List Token}
      {as : List α} (hrest : Separated r rest as) :
      Separated r (tokens ++ .punct ',' joint :: rest) (a :: as)

variable {α : Type} {r : Reader α}

theorem go_run_last {tokens : List Token} {a : α} (h : r.run tokens = some (a, []))
    (hne : tokens ≠ []) (fuel : Nat) :
    (separated.go (takeOp ",") atEnd r (fuel + 1)).run tokens = some ([a], []) := by
  obtain ⟨first, more, rfl⟩ := List.exists_cons_of_ne_nil hne
  rw [separated.go, Reader.run_bind]
  change (r >>= fun _ => _).run (first :: more) = _
  rw [Reader.run_bind, h]
  rfl

theorem go_run_more {tokens rest rest' : List Token} {a : α} {as : List α} {joint : Bool}
    (h : r.run tokens = some (a, .punct ',' joint :: rest)) (hne : tokens ≠ []) {fuel : Nat}
    (hrest : (separated.go (takeOp ",") atEnd r fuel).run rest = some (as, rest')) :
    (separated.go (takeOp ",") atEnd r (fuel + 1)).run tokens = some (a :: as, rest') := by
  obtain ⟨first, more, rfl⟩ := List.exists_cons_of_ne_nil hne
  rw [separated.go, Reader.run_bind]
  change (r >>= fun _ => _).run (first :: more) = _
  rw [Reader.run_bind, h]
  change (separated.go (takeOp ",") atEnd r fuel >>= fun _ => _).run rest = _
  rw [Reader.run_bind, hrest]
  rfl

theorem Separated.go_run {tokens : List Token} {as : List α} (h : Separated r tokens as)
    {fuel : Nat} (hfuel : tokens.length ≤ fuel) :
    (separated.go (takeOp ",") atEnd r (fuel + 1)).run tokens = some (as, []) := by
  induction h generalizing fuel with
  | nil => rfl
  | @last tokens a h =>
    have hrun := h.run [] .nil
    rw [List.append_nil] at hrun
    exact go_run_last hrun h.ne_nil fuel
  | @more tokens a h joint rest as _ ih =>
    rw [List.length_append, List.length_cons] at hfuel
    obtain ⟨fuel, rfl⟩ : ∃ k, fuel = k + 1 := Nat.exists_eq_add_one.mpr (by omega)
    exact go_run_more (h.run _ (.comma joint rest)) (by simp) (ih (by omega))

theorem Separated.all_commas {tokens : List Token} {as : List α} (h : Separated r tokens as) :
    all (commas r) tokens = some as := by
  have hrun : (commas r).run tokens = some (as, []) := h.go_run (Nat.le_refl _)
  rw [all, hrun]

theorem weightAll_append (tokens more : List Token) :
    Token.weightAll (tokens ++ more) = Token.weightAll tokens + Token.weightAll more := by
  induction tokens with
  | nil => exact (Nat.zero_add _).symm
  | cons token tokens ih =>
    rw [List.cons_append, Token.weightAll, Token.weightAll, ih, Nat.add_assoc]

theorem inside_run {bracket : Bracket} {inner : List Token} {a : α} (h : all r inner = some a)
    (rest : List Token) :
    (inside bracket r).run (.group bracket inner :: rest) = some (a, rest) := by
  rw [inside, Reader.run_bind]
  change (if (bracket != bracket) = true then (_ : Reader α) else _).run _ = _
  rw [if_neg (by simp), h]
  rfl

def templateAt (depth : Nat) : Reader Template := toDepth depth .template

def templateMember (g : Grammar) : Reader TemplateEntry := do
  let key ←
    match ← ahead with
    | .literal (.string s) :: _ => skip 1; pure (TemplateKey.text s)
    | _ => TemplateKey.value <$> g.expr
  takeOp ":"
  let value : Template ← g .template
  return TemplateEntry.mk key value

theorem template_array {depth : Nat} {tokens : List Token} {items : List Template}
    (h : all (commas (templateAt depth)) tokens = some items) :
    Reads (templateAt (depth + 1)) [.group .square tokens] (.array items) := by
  refine ⟨List.cons_ne_nil _ _, fun rest _ => ?_⟩
  change (inside .square (commas (templateAt depth)) >>= fun _ => _).run _ = _
  rw [Reader.run_bind, List.singleton_append, inside_run h rest]
  rfl

theorem template_object {depth : Nat} {tokens : List Token} {entries : List TemplateEntry}
    (h : all (commas (templateMember (toDepth depth))) tokens = some entries) :
    Reads (templateAt (depth + 1)) [.group .curly tokens] (.object entries) := by
  refine ⟨List.cons_ne_nil _ _, fun rest _ => ?_⟩
  change (inside .curly (commas (templateMember (toDepth depth))) >>= fun _ => _).run _ = _
  rw [Reader.run_bind, List.singleton_append, inside_run h rest]
  rfl

theorem templateMember_reads {depth : Nat} {tokens : List Token} {value : Template} (name : String)
    (colon : Bool) (h : Reads (templateAt depth) tokens value) :
    Reads (templateMember (toDepth depth)) (.literal (.string name) :: .punct ':' colon :: tokens)
      (.mk (.text name) value) := by
  refine ⟨List.cons_ne_nil _ _, fun rest hrest => ?_⟩
  change ((templateAt depth) >>= fun _ => _).run (tokens ++ rest) = _
  rw [Reader.run_bind, h.run rest hrest]
  rfl

-- what stands behind a value does not change how it is read: no operator starts with a comma
theorem reads_literal (depth : Nat) (l : Literal) :
    Reads (templateAt (depth + 5)) [.literal l] (.value (.lit l)) := by
  refine ⟨List.cons_ne_nil _ _, fun rest hrest => ?_⟩
  cases hrest <;> rfl

theorem reads_null (depth : Nat) : Reads (templateAt (depth + 5)) [.ident "null"] .null := by
  refine ⟨List.cons_ne_nil _ _, fun rest hrest => ?_⟩
  cases hrest <;> rfl

theorem reads_bool (depth : Nat) (b : Bool) : Reads (templateAt (depth + 5))
    [.ident (if b then "true" else "false")] (.value (.lit (.bool b))) := by
  refine ⟨List.cons_ne_nil _ _, fun rest hrest => ?_⟩
  cases b <;> cases hrest <;> rfl

theorem reads_negative (depth n : Nat) (joint : Bool) : Reads (templateAt (depth + 5))
    [.punct '-' joint, .literal (.integer n "")] (.value (.negate (.lit (.integer n "")))) := by
  refine ⟨List.cons_ne_nil _ _, fun rest hrest => ?_⟩
  cases hrest <;> rfl

end Source

namespace Handler

theorem value?_integer {n : Nat} (h : (n : Int) < Int.pow 2 64) (suffix : String) :
    (Literal.integer n suffix).value? = some (.number (.int n)) := by
  have hn : n < Nat.pow 2 64 := Int.ofNat_lt.mp h
  rw [Literal.value?, if_pos hn]

theorem negate_int {n : Int} (h : n < Int.pow 2 63) :
    negate (.number (.int n)) = some (.number (.int (-n))) := by
  have hn : (Number.int n).toSigned? = some n := if_pos h
  rw [negate, hn]

open Json

mutual

/-- What is written for a value reads as a template of the value. -/
theorem reads_written (depth : Nat) {value : Json} {tokens : List Token} (h : Written value tokens)
    (hvalue : Whole value) (hdepth : Token.weightAll tokens + 5 ≤ depth) : ∃ template : Template,
      Reads (templateAt depth) tokens template ∧
        ∀ c env, templateValue? c env template = some value := by
  obtain ⟨k, rfl⟩ : ∃ k, depth = k + 5 := Nat.exists_eq_add_of_le' (by omega)
  match h with
  | .null => exact ⟨.null, reads_null k, fun _ _ => rfl⟩
  | .bool b => exact ⟨.value (.lit (.bool b)), reads_bool k b, fun _ _ => rfl⟩
  | .string s => exact ⟨.value (.lit (.string s)), reads_literal k (.string s), fun _ _ => rfl⟩
  | .int n =>
    obtain ⟨-, hgreatest⟩ := hvalue.int_bounds
    refine ⟨.value (.lit (.integer n "")), reads_literal k (.integer n ""), fun c env => ?_⟩
    rw [templateValue?, value?, value?_integer hgreatest]
  | @Written.negative n _ joint =>
    obtain ⟨hleast, -⟩ := hvalue.int_bounds
    refine ⟨.value (.negate (.lit (.integer n ""))), reads_negative k n joint, fun c env => ?_⟩
    have hlow : (n : Int) < Int.pow 2 63 := Int.lt_of_neg_lt_neg hleast
    rw [templateValue?, value?, value?, value?_integer (Int.lt_trans hlow (by decide)),
      Option.bind_some, negate_int hlow]
  | @Written.array items inside hitems =>
    -- a group weighs one more than what is in it, and is read one level deeper
    have hinside : Token.weightAll inside + 5 ≤ k + 4 := by
      rw [Token.weightAll, Token.weightAll, Token.weight] at hdepth
      omega
    obtain ⟨templates, hreads, hvalues⟩ := separated_items (k + 4) hitems hvalue.items hinside
    refine ⟨.array templates, template_array hreads.all_commas, fun c env => ?_⟩
    rw [templateValue?, hvalues]
  | @Written.object members inside hmembers =>
    have hinside : Token.weightAll inside + 5 ≤ k + 4 := by
      rw [Token.weightAll, Token.weightAll, Token.weight] at hdepth
      omega
    obtain ⟨entries, hreads, hvalues⟩ := separated_members (k + 4) hmembers hvalue.members hinside
    refine ⟨.object entries, template_object hreads.all_commas, fun c env => ?_⟩
    rw [templateValue?, hvalues, Members.ofList_of_nodup hvalue.names_nodup]

theorem separated_items (depth : Nat) {items : List Json} {tokens : List Token}
    (h : WrittenItems items tokens) (hvalues : ∀ item ∈ items, Whole item)
    (hdepth : Token.weightAll tokens + 5 ≤ depth) :
    ∃ templates : List Template, Separated (templateAt depth) tokens templates ∧
      ∀ c env, templateValues c env templates = items := by
  match h with
  | .nil => exact ⟨[], .nil, fun _ _ => rfl⟩
  | .last hitem =>
    obtain ⟨template, hreads, hvalue⟩ :=
      reads_written depth hitem (hvalues _ List.mem_cons_self) hdepth
    refine ⟨[template], .last hreads, fun c env => ?_⟩
    simp only [templateValues, hvalue, Option.toList_some, List.append_nil]
  | @WrittenItems.more item first hitem joint items rest hrest =>
    rw [weightAll_append, Token.weightAll] at hdepth
    obtain ⟨template, hreads, hvalue⟩ :=
      reads_written depth hitem (hvalues _ List.mem_cons_self) (by omega)
    obtain ⟨templates, hseparated, hvalues⟩ := separated_items depth hrest
      (fun item hmem => hvalues item (List.mem_cons_of_mem _ hmem)) (by omega)
    refine ⟨template :: templates, .more hreads joint hseparated, fun c env => ?_⟩
    simp only [templateValues, hvalue, hvalues, Option.toList_some, List.singleton_append]

theorem separated_members (depth : Nat) {members : Members} {tokens : List Token}
    (h : WrittenMembers members tokens) (hvalues : ∀ entry ∈ members, Whole entry.2)
    (hdepth : Token.weightAll tokens + 5 ≤ depth) :
    ∃ entries, Separated (templateMember (toDepth depth)) tokens entries ∧
      ∀ c env, templateEntries c env entries = members := by
  match h with
  | .nil => exact ⟨[], .nil, fun _ _ => rfl⟩
  | @WrittenMembers.last name colon value tokens hvalue =>
    rw [Token.weightAll, Token.weightAll] at hdepth
    obtain ⟨template, hreads, hvalue⟩ :=
      reads_written depth hvalue (hvalues _ List.mem_cons_self) (by omega)
    refine ⟨[.mk (.text name) template], .last (templateMember_reads name colon hreads),
      fun c env => ?_⟩
    simp only [templateEntries, templateKey?, hvalue, List.append_nil]
  | @WrittenMembers.more name colon value first hvalue joint members rest hrest =>
    rw [weightAll_append, Token.weightAll, Token.weightAll, Token.weightAll] at hdepth
    obtain ⟨template, hreads, hvalue⟩ :=
      reads_written depth hvalue (hvalues _ List.mem_cons_self) (by omega)
    obtain ⟨entries, hseparated, hvalues⟩ := separated_members depth hrest
      (fun entry hmem => hvalues entry (List.mem_cons_of_mem _ hmem)) (by omega)
    refine ⟨.mk (.text name) template :: entries,
      .more (templateMember_reads name colon hreads) joint hseparated, fun c env => ?_⟩
    simp only [templateEntries, templateKey?, hvalue, hvalues, List.singleton_append]

end

def literalCall (joint : Bool) (bracket : Bracket) (tokens : List Token) : List Token :=
  [.ident "json", .punct '!' joint, .group bracket tokens]

theorem macroValue_json {g : Grammar} {tokens : List Token} {template : Template}
    (h : all (g .template : Reader Template) tokens = some template) :
    g.macroValue "json" tokens = .json template := by
  rw [macroValue, if_pos (by decide)]
  split
  next found hfound => rw [Option.some.inj (hfound.symm.trans h)]
  next hnone => cases hnone.symm.trans h

theorem all_literalCall {depth : Nat} {tokens : List Token} {template : Template}
    (h : Reads (templateAt depth) tokens template) (joint : Bool) (bracket : Bracket) :
    all (Grammar.expr (toDepth (depth + 2))) (literalCall joint bracket tokens) =
      some (.json template) := by
  rw [← macroValue_json h.all_eq]
  cases joint <;> rfl

/-- Every value without fractions can be written in source text. However it is written there, the
text reads as an expression that has this value in every environment. -/
theorem value?_literalCall {value : Json} (h : value.Whole) :
    (∃ tokens, value.Written tokens) ∧
      ∀ tokens, value.Written tokens → ∀ joint bracket depth, Token.weightAll tokens + 7 ≤ depth →
        ∃ e, all (Grammar.expr (toDepth depth)) (literalCall joint bracket tokens) = some e ∧
          ∀ c env, value? c env e = some value := by
  refine ⟨h.exists_written, fun tokens hwritten joint bracket depth hdepth => ?_⟩
  obtain ⟨k, rfl⟩ : ∃ k, depth = k + 2 := Nat.exists_eq_add_of_le' (by omega)
  obtain ⟨template, hreads, hvalue⟩ := reads_written k hwritten h (by omega)
  exact ⟨.json template, all_literalCall hreads joint bracket, hvalue⟩

def account : Json :=
  .object [("id", .number (.int 7)), ("tags", .array [.string "new", .null, .bool true]),
    ("balance", .number (.int (-(5 : Nat))))]

def accountTokens : List Token :=
  [.group .curly [.literal (.string "id"), .punct ':' false, .literal (.integer 7 ""),
    .punct ',' false, .literal (.string "tags"), .punct ':' false, .group .square
      [.literal (.string "new"), .punct ',' false, .ident "null", .punct ',' false, .ident "true"],
    .punct ',' false, .literal (.string "balance"), .punct ':' false, .punct '-' false,
    .literal (.integer 5 ""), .punct ',' false]]

theorem value?_account :
    let call := literalCall false .round accountTokens
    ∃ e, all (Grammar.expr (forTokens call)) call = some e ∧
      ∀ c env, value? c env e = some account := by
  have hwhole : account.Whole := by
    refine .object (by decide) ?_
    simp only [List.forall_mem_cons, List.not_mem_nil, false_imp_iff, implies_true, and_true]
    refine ⟨.int (by decide) (by decide), .array ?_, .int (by decide) (by decide)⟩
    simp only [List.forall_mem_cons, List.not_mem_nil, false_imp_iff, implies_true, and_true]
    exact ⟨.string _, .null, .bool _⟩
  have hwritten : account.Written accountTokens :=
    .object (.more "id" false (.int 7) false (.more "tags" false
      (.array (.more (.string "new") false (.more .null false (.last (.bool true))))) false
        (.more "balance" false (.negative (by decide) false) false .nil)))
  exact (value?_literalCall hwhole).2 accountTokens hwritten false .round _ (by decide)

end Handler

end ApiContract
