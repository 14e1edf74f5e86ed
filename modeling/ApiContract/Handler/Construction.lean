import ApiContract.Handler.Basic
import ApiContract.Handler.Peel
import ApiContract.Source.Traversal

namespace ApiContract.Handler

open Source

structure Construction where
  /-- Canonical name of the type. -/
  type : String
  /-- The function of the type that is called. -/
  function : Option String
  first : Option Expr

/-- Types never taken for the type of a response. -/
def foreignTypes : List String :=
  ["Ok", "Err", "Some", "None", "Vec", "String", "Box", "Arc", "Rc", "HashMap", "BTreeMap",
    "Option", "Result", "Default", "Json", "StatusCode"]

/-- Types are told from functions by their capital. -/
def isTypeName (name : String) : Bool :=
  match name.toList with
  | c :: _ => 'A' ≤ c && c ≤ 'Z'
  | [] => false

def calledType? (names : List String) : Option (String × Option String) :=
  match names.reverse with
  | function :: owner :: before =>
    if isTypeName owner && !isTypeName function then
      some (Name.join ((owner :: before).reverse), some function)
    else if isTypeName function then some (Name.join names, none)
    else none
  | [name] => if isTypeName name then some (name, none) else none
  | [] => none

/-- The type that an expression itself constructs as it is written, the function called for it, and
the first value it is given. -/
def written? : Expr → Option (String × Option String × Option Expr)
  | .call (.path path _) args =>
    (calledType? path.names).map fun (type, function) => (type, function, args.head?)
  | .record path _ fields _ => some (path.text, none, fields.head?.map fun | .mk _ value => value)
  | _ => none

/-- The construction that an expression itself is. Types that are neither classified nor of the
project do not count. -/
def constructionAt? (c : Context) (e : Expr) : Option Construction :=
  match written? e with
  | none => none
  | some (written, function, first) =>
    if foreignTypes.contains (Name.short written) then none
    else
      let type := c.resolve written
      if c.isClassified type || "crate::".toList.isPrefixOf type.toList then
        some ⟨type, function, first⟩
      else none

/-- Whether the code inside an expression runs where the expression stands. -/
def isImmediate : Expr → Bool
  | .closure _ => false
  | .async _ => false
  | _ => true

def isClosure : Expr → Bool
  | .closure _ => true
  | _ => false

def firstConstruction? (c : Context) (e : Expr) : Option Construction :=
  (e.nodes isImmediate).findSome? (constructionAt? c)

def calledNames (e : Expr) : List String :=
  (e.nodes fun x => !isClosure x).filterMap fun
    | .method _ name _ _ => some name
    | .call (.path path _) _ => path.last?.map Segment.name
    | _ => none

theorem sizeOf_lt_of_written {e x : Expr} {type : String} {function : Option String}
    (h : written? e = some (type, function, some x)) : sizeOf x < sizeOf e := by
  unfold written? at h
  split at h
  · next path _ args =>
    obtain ⟨found, _, hf⟩ := Option.map_eq_some_iff.mp h
    have hx : args.head? = some x := by simpa using congrArg (fun t => t.2.2) hf
    cases args with
    | nil => simp at hx
    | cons a rest =>
      simp only [List.head?_cons, Option.some.injEq] at hx
      subst hx
      simp only [Expr.call.sizeOf_spec, List.cons.sizeOf_spec]
      omega
  · next path _ fields rest =>
    simp only [Option.some.injEq, Prod.mk.injEq] at h
    obtain ⟨_, _, hx⟩ := h
    cases fields with
    | nil => simp at hx
    | cons f rest =>
      cases f with
      | mk name value =>
        simp only [List.head?_cons, Option.map_some, Option.some.injEq] at hx
        subst hx
        simp only [Expr.record.sizeOf_spec, List.cons.sizeOf_spec, FieldInit.mk.sizeOf_spec]
        omega
  · simp at h

theorem sizeOf_lt_of_constructionAt {c : Context} {e x : Expr} {found : Construction}
    (h : constructionAt? c e = some found) (hx : found.first = some x) : sizeOf x < sizeOf e := by
  unfold constructionAt? at h
  split at h
  · simp at h
  · next written function first hw =>
    split at h
    · simp at h
    · simp only at h
      split at h
      · simp only [Option.some.injEq] at h
        subst h
        simp only at hx
        subst hx
        exact sizeOf_lt_of_written hw
      · simp at h

theorem sizeOf_lt_of_firstConstruction {c : Context} {e x : Expr} {found : Construction}
    (h : firstConstruction? c e = some found) (hx : found.first = some x) :
    sizeOf x < sizeOf e := by
  obtain ⟨node, hm, hn⟩ := List.exists_of_findSome?_eq_some h
  exact Nat.lt_of_lt_of_le (sizeOf_lt_of_constructionAt hn hx) (Expr.sizeOf_le_of_mem_nodes e hm)

end ApiContract.Handler
