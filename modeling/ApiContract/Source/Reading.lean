import ApiContract.Source.Tree

namespace ApiContract.Source

/-- A reader leaves an end of the tokens that it is given. It can look at them, but not change
them. -/
structure Reader (α : Type) where
  run : List Token → Option (α × List Token)
  suffix : ∀ tokens a rest, run tokens = some (a, rest) → rest <:+ tokens

namespace Reader

variable {α β : Type}

protected def pure (a : α) : Reader α where
  run tokens := some (a, tokens)
  suffix tokens _ rest h := by
    cases h
    exact List.suffix_refl tokens

protected def bind (r : Reader α) (next : α → Reader β) : Reader β where
  run tokens :=
    match r.run tokens with
    | some (a, rest) => (next a).run rest
    | none => none
  suffix tokens b rest h := by
    cases hr : r.run tokens with
    | none => simp [hr] at h
    | some found =>
      obtain ⟨a, middle⟩ := found
      rw [hr] at h
      exact ((next a).suffix middle b rest h).trans (r.suffix tokens a middle hr)

instance : Monad Reader where
  pure := Reader.pure
  bind := Reader.bind

protected def orElse (r : Reader α) (other : Unit → Reader α) : Reader α where
  run tokens := (r.run tokens).orElse fun _ => (other ()).run tokens
  suffix tokens a rest h := by
    cases hr : r.run tokens with
    | none =>
      rw [hr] at h
      exact (other ()).suffix tokens a rest h
    | some found =>
      rw [hr] at h
      cases h
      exact r.suffix tokens a rest hr

instance : Alternative Reader where
  failure := ⟨fun _ => none, fun _ _ _ h => nomatch h⟩
  orElse := Reader.orElse

end Reader

namespace Reading

def keywords : List String :=
  ["_", "abstract", "as", "async", "await", "become", "box", "break", "const", "continue", "crate",
    "do", "dyn", "else", "enum", "extern", "false", "final", "fn", "for", "if", "impl", "in", "let",
    "loop", "macro", "match", "mod", "move", "mut", "override", "priv", "pub", "ref", "return",
    "Self", "self", "static", "struct", "super", "trait", "true", "try", "type", "typeof", "unsafe",
    "unsized", "use", "virtual", "where", "while", "yield"]

def isWord (word : String) : List Token → Bool
  | .ident name :: _ => name == word
  | _ => false

def isAnyIdent : List Token → Bool
  | .ident _ :: _ => true
  | _ => false

def isIdent : List Token → Bool
  | .ident name :: _ => !keywords.contains name
  | _ => false

def isLifetime : List Token → Bool
  | .lifetime _ :: _ => true
  | _ => false

def isGroup (bracket : Bracket) : List Token → Bool
  | .group b _ :: _ => b == bracket
  | _ => false

/-- Whether an operator stands here: all its characters but the last are joint. -/
def isOpChars : List Char → List Token → Bool
  | [c], .punct d _ :: _ => c == d
  | c :: cs, .punct d joint :: rest => c == d && joint && isOpChars cs rest
  | _, _ => false

def isOp (op : String) (tokens : List Token) : Bool := isOpChars op.toList tokens

def isNumeral : Literal → Bool
  | .integer .. | .fraction .. => true
  | _ => false

def isLit : List Token → Bool
  | .literal _ :: _ => true
  | .ident name :: _ => name == "true" || name == "false"
  | .punct '-' _ :: .literal l :: _ => isNumeral l
  | _ => false

def isString : List Token → Bool
  | .literal (.string _) :: _ => true
  | _ => false

def isRoot (tokens : List Token) : Bool :=
  isWord "self" tokens || isWord "super" tokens || isWord "crate" tokens

def ahead : Reader (List Token) where
  run tokens := some (tokens, tokens)
  suffix tokens _ rest h := by
    cases h
    exact List.suffix_refl tokens

def skip (count : Nat) : Reader Unit where
  run tokens := some ((), tokens.drop count)
  suffix tokens _ rest h := by
    cases h
    exact List.drop_suffix count tokens

def here (p : List Token → Bool) : Reader Bool := do return p (← ahead)

def atEnd : Reader Bool := here List.isEmpty

def takeOp (op : String) : Reader Unit := do
  if ← here (isOp op) then skip op.length else failure

def takeWord (word : String) : Reader Unit := do
  if ← here (isWord word) then skip 1 else failure

def acceptOp (op : String) : Reader Bool := do
  if ← here (isOp op) then skip op.length; return true else return false

def acceptWord (word : String) : Reader Bool := do
  if ← here (isWord word) then skip 1; return true else return false

def anyIdent : Reader String := do
  match ← ahead with
  | .ident name :: _ => skip 1; return name
  | _ => failure

def ident : Reader String := do
  if ← here isIdent then anyIdent else failure

def lifetime : Reader Unit := do
  if ← here isLifetime then skip 1 else failure

def lit : Reader Literal := do
  match ← ahead with
  | .literal l :: _ => skip 1; return l
  | .ident "true" :: _ => skip 1; return .bool true
  | .ident "false" :: _ => skip 1; return .bool false
  | .punct '-' _ :: .literal l :: _ => if isNumeral l then skip 2; return .opaqueText else failure
  | _ => failure

def all {α : Type} (r : Reader α) (tokens : List Token) : Option α :=
  match r.run tokens with
  | some (a, []) => some a
  | _ => none

def inside {α : Type} (bracket : Bracket) (r : Reader α) : Reader α := do
  match ← ahead with
  | .group b inner :: _ =>
    if b != bracket then failure
    match all r inner with
    | some a => skip 1; return a
    | none => failure
  | _ => failure

def groupTokens : Reader (Bracket × List Token) := do
  match ← ahead with
  | .group b inner :: _ => skip 1; return (b, inner)
  | _ => failure

def attempt {α : Type} (r : Reader α) : Reader (Option α) := (some <$> r) <|> pure none

/-- Whether a reader would succeed; takes nothing. -/
def would {α : Type} (r : Reader α) : Reader Bool := do return (r.run (← ahead)).isSome

def loop {α : Type} (r : Reader (Option α)) : Nat → Reader (List α)
  | 0 => failure
  | fuel + 1 => do
    match ← r with
    | none => return []
    | some a => return a :: (← loop r fuel)

def many {α : Type} (r : Reader (Option α)) : Reader (List α) := do
  loop r ((← ahead).length + 1)

def manyWhile {α : Type} (more : Reader Bool) (r : Reader α) : Reader (List α) :=
  many do if ← more then return some (← r) else return none

/-- Elements with a separator between them, up to where `done` holds; a separator may end them. -/
def separated {α : Type} (separator : Reader Unit) (done : Reader Bool) (r : Reader α) :
    Reader (List α) := do
  let rec go : Nat → Reader (List α)
    | 0 => failure
    | fuel + 1 => do
      if ← done then return []
      let a ← r
      if ← done then return [a]
      separator
      return a :: (← go fuel)
  go ((← ahead).length + 1)

/-- Elements with an operator between them; the list ends where the operator is missing, or where
`stop` holds behind one. -/
def joined {α : Type} (op : String) (stop : Reader Bool) (r : Reader α) : Reader (List α) := do
  let rec go : Nat → Reader (List α)
    | 0 => failure
    | fuel + 1 => do
      if ← stop then return []
      let a ← r
      if ← acceptOp op then return a :: (← go fuel) else return [a]
  go ((← ahead).length + 1)

def commas {α : Type} (r : Reader α) : Reader (List α) := separated (takeOp ",") atEnd r

end Reading

end ApiContract.Source
