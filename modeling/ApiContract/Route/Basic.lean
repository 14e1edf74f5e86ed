import ApiContract.Text.Pieces

namespace ApiContract

/-- A routine and its owner: a type and one of its methods, or a module and one of its functions. -/
structure HandlerId where
  owner : String
  routine : String
deriving DecidableEq, Repr

namespace HandlerId

/-- An at sign separates owner and routine; where there is none, the last double colon does. -/
def parse? (action : String) : Option HandlerId :=
  let s := action.toList
  match (Text.splitLast? '@' s).or (Text.splitLastPath? s) with
  | some (owner, routine) =>
    if owner.isEmpty || routine.isEmpty then none
    else some ⟨String.ofList owner, String.ofList routine⟩
  | none => none

def text (id : HandlerId) : String := id.owner ++ "::" ++ id.routine

end HandlerId

/-- One registered route. A route without handler has an inline action, which is not analysed. -/
structure Route where
  uri : String
  methods : List String
  handler : Option HandlerId
  name : Option String := none
  tag : Option String := none
  middleware : List String := []
deriving DecidableEq, Repr

end ApiContract
