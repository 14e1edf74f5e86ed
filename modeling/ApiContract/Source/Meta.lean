import ApiContract.Source.Reading

namespace ApiContract.Source.Meta

open Reading

def path : Reader Path := do
  let rooted ← acceptOp "::"
  let first ← anyIdent
  let rest ← manyWhile (here (isOp "::")) do
    takeOp "::"
    anyIdent
  return .mk rooted ((first :: rest).map (.mk · .none))

/-- Goes through the entries; `entry` reads what stands behind the path of one. -/
def walk {σ : Type} (entry : Path → σ → Reader σ) : Nat → σ → List Token → σ
  | 0, s, _ => s
  | fuel + 1, s, tokens =>
    match path.run tokens with
    | none => s
    | some (p, rest) =>
      match (entry p s).run rest with
      | none => s
      | some (s, rest) =>
        match (takeOp ",").run rest with
        | none => s
        | some (_, rest) => if rest.isEmpty then s else walk entry fuel s rest

def fold {σ : Type} (entry : Path → σ → Reader σ) (s : σ) (tokens : List Token) : σ :=
  walk entry (tokens.length + 1) s tokens

def lists (name : String) (attributes : List Attribute) : List (List Token) :=
  attributes.filterMap fun a =>
    match a.body with
    | .list tokens => if a.path.ident? = some name then some tokens else none
    | _ => none

end ApiContract.Source.Meta
