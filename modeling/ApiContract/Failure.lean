namespace ApiContract

inductive Failure where
  /-- The source of a type or module cannot be found or read. -/
  | sourceUnavailable (name reason : String)
  /-- A returned expression has no shape. -/
  | unresolvedExpression (handler : String)
  /-- No example can be built for a type, or none be rendered by a transformer. -/
  | exampleUnavailable (name reason : String)
  /-- A configured override names no endpoint. -/
  | unusedOverride (identity : String)
deriving DecidableEq, Repr

namespace Failure

def marked (name : String) : String := "`" ++ name ++ "`"

def message : Failure → String
  | sourceUnavailable name reason => "source unavailable for " ++ marked name ++ ": " ++ reason
  | unresolvedExpression handler => "unresolved response expression in " ++ marked handler
  | exampleUnavailable name reason => "cannot build example for " ++ marked name ++ ": " ++ reason
  | unusedOverride identity => "override " ++ marked identity ++ " does not match any route"

/-- Outcomes that are ordinary for an analysis by rules of thumb. -/
def quiet : Failure → Bool
  | unresolvedExpression _ | unusedOverride _ => true
  | _ => false

def warnings (failures : List Failure) : Nat := (failures.filter fun f => !f.quiet).length

end Failure

end ApiContract
