import ApiContract.Proofs.ReturnSites

namespace ApiContract.Source

open Handler

/-- What becomes of the value of an expression in a body. -/
inductive Use where
  /-- The expression is only passed through. -/
  | passed
  /-- The body ends with it. -/
  | ending
  /-- The value is read: it is returned, or a local name is given it. -/
  | read
deriving DecidableEq

namespace Use

/-- The use of what an expression has its value from. -/
def inside : Use → Use
  | passed => passed
  | ending => read
  | read => read

/-- The use of what stands beside the branches of a forked expression. -/
def beside : Use → Use
  | passed => passed
  | ending => passed
  | read => read

@[simp] theorem inside_read : read.inside = read := rfl

@[simp] theorem beside_read : read.beside = read := rfl

def given (name : Option String) (use : Use) : Use := if name.isSome then read else use

@[simp] theorem given_read (name : Option String) : given name read = read := ite_self read

end Use

/-- Asynchronous blocks and items to be left out where values are read. -/
structure Omission where
  blocks : List Stmt → Bool
  items : Item → Bool

mutual

/-- An expression without its deferred code. Where the value of the expression is read, asynchronous
blocks and items are taken out only as far as they are to be left out. -/
def Expr.trim (o : Omission) (use : Use) : Expr → Expr
  | .lit value => .lit value
  | .path path inner => .path path (trimAll o use.inside inner)
  | .paren e => .paren (e.trim o use.inside)
  | .reference e => .reference (e.trim o use.inside)
  | .negate e => .negate (e.trim o use.inside)
  | .tuple elements => .tuple (trimAll o use.inside elements)
  | .array elements => .array (trimAll o use.inside elements)
  | .record path inner fields rest =>
    .record path (trimAll o use.inside inner) (trimFields o use.inside fields)
      (trimOption o use.inside rest)
  | .call callee args => .call (callee.trim o use.inside) (trimAll o use.inside args)
  | .method receiver name inner args =>
    .method (receiver.trim o use.inside) name (trimAll o use.inside inner)
      (trimAll o use.inside args)
  | .field base => .field (base.trim o use.inside)
  | .index base position => .index (base.trim o use.inside) (position.trim o use.inside)
  | .await e => .await (e.trim o use.inside)
  | .attempt e => .attempt (e.trim o use.inside)
  | .assign left right =>
    .assign (left.trim o use.inside) (right.trim o (use.inside.given (localName? left)))
  | .ret value => .ret (trimOption o .read value)
  | .closure _ => .closure []
  | .async body => .async (if use = .passed || o.blocks body then [] else trimStmts o .read body)
  | .branch condition body otherwise =>
    .branch (condition.trim o use.beside) (trimStmts o use body) (trimOption o use otherwise)
  | .cases subject arms => .cases (subject.trim o use.beside) (trimArms o use arms)
  | .block body => .block (trimStmts o use body)
  | .unchecked body => .unchecked (trimStmts o use body)
  | .json template => .json (template.trim o)
  | .vec elements => .vec (trimAll o .read elements)
  | .expansion => .expansion
  | .compound parts => .compound (trimAll o use.inside parts)

def trimAll (o : Omission) (use : Use) : List Expr → List Expr
  | [] => []
  | e :: rest => e.trim o use :: trimAll o use rest

def trimOption (o : Omission) (use : Use) : Option Expr → Option Expr
  | none => none
  | some e => some (e.trim o use)

def trimFields (o : Omission) (use : Use) : List FieldInit → List FieldInit
  | [] => []
  | .mk name value :: rest => .mk name (value.trim o use) :: trimFields o use rest

def trimArms (o : Omission) (use : Use) : List Arm → List Arm
  | [] => []
  | .mk inner guard body :: rest =>
    .mk (trimAll o use.beside inner) (trimOption o use.beside guard) (body.trim o use) ::
      trimArms o use rest

def Template.trim (o : Omission) : Template → Template
  | .null => .null
  | .value e => .value (e.trim o .read)
  | .array items => .array (trimTemplates o items)
  | .object entries => .object (trimEntries o entries)

def trimTemplates (o : Omission) : List Template → List Template
  | [] => []
  | template :: rest => template.trim o :: trimTemplates o rest

def trimEntries (o : Omission) : List TemplateEntry → List TemplateEntry
  | [] => []
  | .mk key value :: rest => .mk (key.trim o) (value.trim o) :: trimEntries o rest

def TemplateKey.trim (o : Omission) : TemplateKey → TemplateKey
  | .text name => .text name
  | .value e => .value (e.trim o .read)

def trimStmts (o : Omission) (use : Use) : List Stmt → List Stmt
  | [] => []
  | .bind pattern inner value otherwise :: rest =>
    .bind pattern (trimAll o use.beside inner) (trimOption o
        (use.beside.given (Scan.boundName? pattern)) value) (trimOption o use.beside otherwise) ::
      trimStmts o use rest
  | .item item :: rest =>
    .item (if use ≠ .read || o.items item then .other [] else item.trim o) :: trimStmts o use rest
  | .expr e closed :: rest =>
    .expr (e.trim o (if rest.isEmpty && !closed then use else use.beside)) closed ::
      trimStmts o use rest
  | .expansion e closed :: rest => .expansion (e.trim o .read) closed :: trimStmts o use rest

def Function.trim (o : Omission) : Function → Function
  | .mk attributes name params inner body =>
    .mk attributes name params (trimAll o .read inner) (trimStmts o .read body)

def trimMembers (o : Omission) : List Member → List Member
  | [] => []
  | .function f :: rest => .function (f.trim o) :: trimMembers o rest
  | .other inner :: rest => .other (trimAll o .read inner) :: trimMembers o rest

def Item.trim (o : Omission) : Item → Item
  | .function f => .function (f.trim o)
  | .struct attributes name fields inner => .struct attributes name fields (trimAll o .read inner)
  | .enum attributes name inner => .enum attributes name (trimAll o .read inner)
  | .declaration name inner => .declaration name (trimAll o .read inner)
  | .implementation trait type inner members =>
    .implementation trait type (trimAll o .read inner) (trimMembers o members)
  | .imports tree => .imports tree
  | .module name none => .module name none
  | .module name (some items) => .module name (some (trimItems o items))
  | .other inner => .other (trimAll o .read inner)

def trimItems (o : Omission) : List Item → List Item
  | [] => []
  | item :: rest => item.trim o :: trimItems o rest

end

variable (o : Omission)

theorem trimAll_eq_map (use : Use) (es : List Expr) :
    trimAll o use es = es.map (Expr.trim o use) := by
  induction es with
  | nil => rfl
  | cons e es ih => rw [trimAll, ih, List.map_cons]

theorem isEmpty_trimStmts (use : Use) (body : List Stmt) :
    (trimStmts o use body).isEmpty = body.isEmpty := by
  cases body with
  | nil => rfl
  | cons stmt body => cases stmt <;> rfl

/-- A search that finds nothing in what is taken out, and finds in the rest what it finds in it as
trimmed. -/
structure Overlooks {α : Type} (o : Omission) (into : Expr → Bool) (search : Expr → Option α) :
    Prop where
  trimmed : ∀ e, into (e.trim o .read) = into e
  closures : ∀ parts, into (.closure parts) = false
  blocks : ∀ body, into (.async body) = true → o.blocks body = true →
    ∀ x ∈ nodesOfStmts into body, search (x.trim o .read) = none
  items : ∀ item, o.items item = true → ∀ x ∈ nodesOfItem into item, search (x.trim o .read) = none

section

variable {o : Omission} {α : Type} {into : Expr → Bool} {search : Expr → Option α}

theorem Overlooks.enter (h : Overlooks o into search) (e : Expr) {inside trimmed : List Expr}
    (hinside : into e = true →
        trimmed.filterMap search = inside.filterMap fun x => search (x.trim o .read)) :
    (Expr.enter into (e.trim o .read) trimmed).filterMap search =
      (Expr.enter into e inside).filterMap fun x => search (x.trim o .read) := by
  rw [Expr.enter, Expr.enter, h.trimmed, List.filterMap_cons, List.filterMap_cons]
  by_cases hinto : into e = true
  · rw [if_pos hinto, if_pos hinto, hinside hinto]
  · rw [if_neg hinto, if_neg hinto, List.filterMap_nil, List.filterMap_nil]

mutual

theorem Overlooks.nodes (h : Overlooks o into search) (e : Expr) :
    ((e.trim o .read).nodes into).filterMap search =
      (e.nodes into).filterMap fun x => search (x.trim o .read) := by
  match e with
  | .lit value => exact h.enter (.lit value) fun _ => rfl
  | .path path inner => exact h.enter (.path path inner) fun _ => h.nodesOfAll inner
  | .paren e => exact h.enter (.paren e) fun _ => h.nodes e
  | .reference e => exact h.enter (.reference e) fun _ => h.nodes e
  | .negate e => exact h.enter (.negate e) fun _ => h.nodes e
  | .tuple elements => exact h.enter (.tuple elements) fun _ => h.nodesOfAll elements
  | .array elements => exact h.enter (.array elements) fun _ => h.nodesOfAll elements
  | .record path inner fields rest =>
    refine h.enter (.record path inner fields rest) fun _ => ?_
    simp only [List.filterMap_append, Use.inside_read, h.nodesOfAll inner, h.nodesOfFields fields,
      h.nodesOfOption rest]
  | .call callee args =>
    refine h.enter (.call callee args) fun _ => ?_
    simp only [List.filterMap_append, Use.inside_read, h.nodes callee, h.nodesOfAll args]
  | .method receiver name inner args =>
    refine h.enter (.method receiver name inner args) fun _ => ?_
    simp only [List.filterMap_append, Use.inside_read, h.nodes receiver, h.nodesOfAll inner,
      h.nodesOfAll args]
  | .field base => exact h.enter (.field base) fun _ => h.nodes base
  | .index base position =>
    refine h.enter (.index base position) fun _ => ?_
    simp only [List.filterMap_append, Use.inside_read, h.nodes base, h.nodes position]
  | .await e => exact h.enter (.await e) fun _ => h.nodes e
  | .attempt e => exact h.enter (.attempt e) fun _ => h.nodes e
  | .assign left right =>
    refine h.enter (.assign left right) fun _ => ?_
    simp only [List.filterMap_append, Use.inside_read, Use.given_read, h.nodes left, h.nodes right]
  | .ret value => exact h.enter (.ret value) fun _ => h.nodesOfOption value
  | .closure parts =>
    exact h.enter (.closure parts) fun hinto => absurd hinto (by simp [h.closures])
  | .async body =>
    refine h.enter (.async body) fun hinto => ?_
    by_cases homit : o.blocks body = true
    · simp only [homit, Bool.or_true, if_true]
      exact (List.filterMap_eq_nil_iff.mpr (h.blocks body hinto homit)).symm
    · simpa [homit] using h.nodesOfStmts body
  | .branch condition body otherwise =>
    refine h.enter (.branch condition body otherwise) fun _ => ?_
    simp only [List.filterMap_append, Use.beside_read, h.nodes condition, h.nodesOfStmts body,
      h.nodesOfOption otherwise]
  | .cases subject arms =>
    refine h.enter (.cases subject arms) fun _ => ?_
    simp only [List.filterMap_append, Use.beside_read, h.nodes subject, h.nodesOfArms arms]
  | .block body => exact h.enter (.block body) fun _ => h.nodesOfStmts body
  | .unchecked body => exact h.enter (.unchecked body) fun _ => h.nodesOfStmts body
  | .json template => exact h.enter (.json template) fun _ => rfl
  | .vec elements => exact h.enter (.vec elements) fun _ => rfl
  | .expansion => exact h.enter .expansion fun _ => rfl
  | .compound parts => exact h.enter (.compound parts) fun _ => h.nodesOfAll parts

theorem Overlooks.nodesOfAll (h : Overlooks o into search) (es : List Expr) :
    (Source.nodesOfAll into (trimAll o .read es)).filterMap search =
      (Source.nodesOfAll into es).filterMap fun x => search (x.trim o .read) := by
  match es with
  | [] => rfl
  | e :: rest =>
    simp only [trimAll, Source.nodesOfAll, List.filterMap_append, h.nodes e, h.nodesOfAll rest]

theorem Overlooks.nodesOfOption (h : Overlooks o into search) (value : Option Expr) :
    (Source.nodesOfOption into (trimOption o .read value)).filterMap search =
      (Source.nodesOfOption into value).filterMap fun x => search (x.trim o .read) := by
  match value with
  | none => rfl
  | some e => exact h.nodes e

theorem Overlooks.nodesOfFields (h : Overlooks o into search) (fields : List FieldInit) :
    (Source.nodesOfFields into (trimFields o .read fields)).filterMap search =
      (Source.nodesOfFields into fields).filterMap fun x => search (x.trim o .read) := by
  match fields with
  | [] => rfl
  | .mk name value :: rest =>
    simp only [trimFields, Source.nodesOfFields, List.filterMap_append, h.nodes value,
      h.nodesOfFields rest]

theorem Overlooks.nodesOfArms (h : Overlooks o into search) (arms : List Arm) :
    (Source.nodesOfArms into (trimArms o .read arms)).filterMap search =
      (Source.nodesOfArms into arms).filterMap fun x => search (x.trim o .read) := by
  match arms with
  | [] => rfl
  | .mk inner guard body :: rest =>
    simp only [trimArms, Source.nodesOfArms, List.filterMap_append, Use.beside_read,
      h.nodesOfAll inner, h.nodesOfOption guard, h.nodes body, h.nodesOfArms rest]

theorem Overlooks.nodesOfStmts (h : Overlooks o into search) (body : List Stmt) :
    (Source.nodesOfStmts into (trimStmts o .read body)).filterMap search =
      (Source.nodesOfStmts into body).filterMap fun x => search (x.trim o .read) := by
  match body with
  | [] => rfl
  | .bind pattern inner value otherwise :: rest =>
    simp only [trimStmts, Source.nodesOfStmts, List.filterMap_append, Use.beside_read,
      Use.given_read, h.nodesOfAll inner, h.nodesOfOption value, h.nodesOfOption otherwise,
      h.nodesOfStmts rest]
  | .item item :: rest =>
    simp only [trimStmts, Source.nodesOfStmts, List.filterMap_append, h.nodesOfStmts rest]
    by_cases homit : o.items item = true
    · rw [List.filterMap_eq_nil_iff.mpr (h.items item homit)]
      simp [homit, Source.nodesOfItem, Source.nodesOfAll]
    · simp [homit, h.nodesOfItem item]
  | .expr e closed :: rest =>
    simp only [trimStmts, Source.nodesOfStmts, List.filterMap_append, Use.beside_read, ite_self,
      h.nodes e, h.nodesOfStmts rest]
  | .expansion e closed :: rest => exact h.nodesOfStmts rest

theorem Overlooks.nodesOfFunction (h : Overlooks o into search) (f : Function) :
    (Source.nodesOfFunction into (f.trim o)).filterMap search =
      (Source.nodesOfFunction into f).filterMap fun x => search (x.trim o .read) := by
  match f with
  | .mk attributes name params inner body =>
    simp only [Function.trim, Source.nodesOfFunction, List.filterMap_append, h.nodesOfAll inner,
      h.nodesOfStmts body]

theorem Overlooks.nodesOfMembers (h : Overlooks o into search) (members : List Member) :
    (Source.nodesOfMembers into (trimMembers o members)).filterMap search =
      (Source.nodesOfMembers into members).filterMap fun x => search (x.trim o .read) := by
  match members with
  | [] => rfl
  | .function f :: rest =>
    simp only [trimMembers, Source.nodesOfMembers, List.filterMap_append, h.nodesOfFunction f,
      h.nodesOfMembers rest]
  | .other inner :: rest =>
    simp only [trimMembers, Source.nodesOfMembers, List.filterMap_append, h.nodesOfAll inner,
      h.nodesOfMembers rest]

theorem Overlooks.nodesOfItem (h : Overlooks o into search) (item : Item) :
    (Source.nodesOfItem into (item.trim o)).filterMap search =
      (Source.nodesOfItem into item).filterMap fun x => search (x.trim o .read) := by
  match item with
  | .function f => exact h.nodesOfFunction f
  | .struct _ _ _ inner | .enum _ _ inner | .declaration _ inner | .other inner =>
    exact h.nodesOfAll inner
  | .implementation trait type inner members =>
    simp only [Item.trim, Source.nodesOfItem, List.filterMap_append, h.nodesOfAll inner,
      h.nodesOfMembers members]
  | .imports _ | .module _ none => rfl
  | .module name (some items) => exact h.nodesOfItems items

theorem Overlooks.nodesOfItems (h : Overlooks o into search) (items : List Item) :
    (Source.nodesOfItems into (trimItems o items)).filterMap search =
      (Source.nodesOfItems into items).filterMap fun x => search (x.trim o .read) := by
  match items with
  | [] => rfl
  | item :: rest =>
    simp only [trimItems, Source.nodesOfItems, List.filterMap_append, h.nodesOfItem item,
      h.nodesOfItems rest]

end

end

end ApiContract.Source

namespace ApiContract.Handler

open Source

variable (o : Omission)

theorem callName?_trim (e : Expr) : callName? (e.trim o .read) = callName? e := by
  cases e <;> rfl

theorem isTransparentCall_trim (callee : Expr) :
    isTransparentCall (callee.trim o .read) = isTransparentCall callee := by
  rw [isTransparentCall, isTransparentCall, callName?_trim]

theorem localName?_trim (use : Use) (e : Expr) : localName? (e.trim o use) = localName? e := by
  cases e <;> rfl

theorem fromOwner?_trim (callee : Expr) : fromOwner? (callee.trim o .read) = fromOwner? callee := by
  cases callee <;> rfl

theorem peel_trim (e : Expr) : peel (e.trim o .read) = (peel e).trim o .read := by
  fun_induction peel e with
  | case1 e ih | case2 e ih | case3 e ih | case4 e ih =>
    simpa only [Expr.trim, Use.inside_read, peel] using ih
  | case5 callee arg h ih =>
    simp only [Expr.trim, Use.inside_read, trimAll, peel, isTransparentCall_trim, h, if_true]
    exact ih
  | case6 callee arg h =>
    simp only [Expr.trim, Use.inside_read, trimAll, peel, isTransparentCall_trim, h]
    rfl
  | case7 receiver name inner args h ih =>
    simp only [Expr.trim, Use.inside_read, trimAll_eq_map, peel, List.length_map, h, if_true]
    exact ih
  | case8 receiver name inner args h =>
    simp only [Expr.trim, Use.inside_read, trimAll_eq_map, peel, List.length_map, h]
    rfl
  | case9 e _ _ _ _ hcall hmethod =>
    cases e with
    | method receiver name inner args => exact absurd rfl (hmethod receiver name inner args)
    | call callee args =>
      match args with
      | [] => rfl
      | [arg] => exact absurd rfl (hcall callee arg)
      | _ :: _ :: _ => rfl
    | _ => first | rfl | simp_all

theorem chainRoot_trim (e : Expr) : chainRoot (e.trim o .read) = (chainRoot e).trim o .read := by
  fun_induction chainRoot e with
  | case1 receiver _ _ _ ih => exact ih
  | case2 base ih | case3 base _ ih | case4 e ih | case5 e ih | case6 e ih => exact ih
  | case7 e hmethod =>
    cases e with
    | method receiver name inner args => exact absurd rfl (hmethod receiver name inner args)
    | _ => first | rfl | simp_all

theorem chainMethods_trim (e : Expr) : chainMethods (e.trim o .read) = chainMethods e := by
  fun_induction chainMethods e with
  | case1 receiver name _ _ ih => exact congrArg (name :: ·) ih
  | case2 base ih | case3 base _ ih | case4 e ih | case5 e ih | case6 e ih => exact ih
  | case7 e hmethod =>
    cases e with
    | method receiver name inner args => exact absurd rfl (hmethod receiver name inner args)
    | _ => first | rfl | simp_all

section

variable (c : Context) (env : Environment)

mutual

theorem value?_trim (e : Expr) : value? c env (e.trim o .read) = value? c env e := by
  match e with
  | .lit _ | .ret _ | .closure _ | .async _ | .branch .. | .cases .. | .block _ | .unchecked _
  | .expansion | .compound _ | .field _ | .index .. | .await _ | .attempt _ | .assign .. => rfl
  | .path path inner => rfl
  | .paren e | .reference e => exact value?_trim e
  | .negate e =>
    have h := value?_trim e
    simp only [Expr.trim, Use.inside_read, value?, h]
  | .tuple [] => rfl
  | .tuple (e :: rest) =>
    exact congrArg (fun found => some (Json.array found)) (values_trim (e :: rest))
  | .array elements | .vec elements =>
    exact congrArg (fun found => some (Json.array found)) (values_trim elements)
  | .json template => exact templateValue?_trim template
  | .record path inner fields rest =>
    have h := fieldValues_trim fields
    simp only [Expr.trim, Use.inside_read, value?, h]
  | .call callee [arg] =>
    have h := value?_trim arg
    have hentries := entriesIn_trim arg
    simp only [Expr.trim, Use.inside_read, trimAll, value?, fromOwner?_trim, h, hentries]
  | .call callee [] | .call callee (_ :: _ :: _) => rfl
  | .method receiver name inner [] =>
    have h := value?_trim receiver
    simp only [Expr.trim, Use.inside_read, trimAll, value?, h]
  | .method receiver name inner (_ :: _) => rfl

theorem values_trim (es : List Expr) : values c env (trimAll o .read es) = values c env es := by
  match es with
  | [] => rfl
  | e :: rest =>
    have h := value?_trim e
    have hrest := values_trim rest
    simp only [trimAll, values, h, hrest]

theorem fieldValues_trim (fields : List FieldInit) :
    fieldValues c env (trimFields o .read fields) = fieldValues c env fields := by
  match fields with
  | [] => rfl
  | .mk none value :: rest => exact fieldValues_trim rest
  | .mk (some name) value :: rest =>
    have h := value?_trim value
    have hrest := fieldValues_trim rest
    simp only [trimFields, fieldValues, h, hrest]

theorem entriesIn_trim (e : Expr) : entriesIn c env (e.trim o .read) = entriesIn c env e := by
  cases e with
  | array entries => exact congrArg some (pairValues_trim entries)
  | _ => rfl

theorem pairValues_trim (es : List Expr) :
    pairValues c env (trimAll o .read es) = pairValues c env es := by
  match es with
  | [] => rfl
  | e :: rest =>
    have h := pairValue?_trim e
    have hrest := pairValues_trim rest
    simp only [trimAll, pairValues, h, hrest]

theorem pairValue?_trim (e : Expr) : pairValue? c env (e.trim o .read) = pairValue? c env e := by
  cases e with
  | tuple elements =>
    match elements with
    | [k, v] =>
      have hk := value?_trim k
      have hv := value?_trim v
      simp only [Expr.trim, Use.inside_read, trimAll, pairValue?, hk, hv]
    | [] | [_] | _ :: _ :: _ :: _ => rfl
  | _ => rfl

theorem templateValue?_trim (template : Template) :
    templateValue? c env (template.trim o) = templateValue? c env template := by
  match template with
  | .null => rfl
  | .value e => exact value?_trim e
  | .array items =>
    exact congrArg (fun found => some (Json.array found)) (templateValues_trim items)
  | .object entries =>
    have h := templateEntries_trim entries
    simp only [Template.trim, templateValue?, h]

theorem templateValues_trim (items : List Template) :
    templateValues c env (trimTemplates o items) = templateValues c env items := by
  match items with
  | [] => rfl
  | template :: rest =>
    have h := templateValue?_trim template
    have hrest := templateValues_trim rest
    simp only [trimTemplates, templateValues, h, hrest]

theorem templateEntries_trim (entries : List TemplateEntry) :
    templateEntries c env (trimEntries o entries) = templateEntries c env entries := by
  match entries with
  | [] => rfl
  | .mk key value :: rest =>
    have hkey := templateKey?_trim key
    have hvalue := templateValue?_trim value
    have hrest := templateEntries_trim rest
    simp only [trimEntries, templateEntries, hkey, hvalue, hrest]

theorem templateKey?_trim (key : TemplateKey) :
    templateKey? c env (key.trim o) = templateKey? c env key := by
  match key with
  | .text name => rfl
  | .value e => exact congrArg (Option.map keyOf) (value?_trim e)

end

end

end ApiContract.Handler
