import ApiContract.Handler.Parameters
import ApiContract.Handler.Scan
import ApiContract.Module.Locate
import ApiContract.Source.Doc

namespace ApiContract

open Source

namespace Handler

def firstLine (text : String) : String := String.ofList ((Text.cutAt '\n' text.toList).headD [])

def ofFunction (c : Context) (f : Function) : Handler :=
  let description := Doc.text f.attributes
  let parameters := parametersOf c f.params
  { name := f.name
    summary := firstLine description
    description
    parameters
    validator := validatorOf c f.params
    responses := responsesOf c parameters f.body }

end Handler

structure Analyzer where
  tree : SourceTree
  capabilities : Classifier
  conventions : Handler.Conventions

structure Analysis where
  /-- Canonical name of the type or module. -/
  type : String
  path : String
  handlers : Table Handler

namespace Analyzer

def functionsOf (members : List Member) : List Function :=
  members.filterMap fun
    | .function f => some f
    | .other _ => none

/-- The routines of a type: the methods of its blocks, of which the first of a name counts. -/
def methods (scope : Scope) (type : String) : List Function :=
  let all := scope.items.flatMap fun
    | .implementation _ self _ members =>
      if Scope.ownerName? self = some type then functionsOf members else []
    | _ => []
  all.foldl (fun kept f => if kept.any (fun k => k.name == f.name) then kept else kept ++ [f]) []

/-- The routines of a module: its functions, of which the last of a name counts. -/
def functions (scope : Scope) : List Function :=
  scope.items.filterMap fun
    | .function f => some f
    | _ => none

def routines (found : Located) : List Function :=
  match found.target with
  | .type name => methods found.scope name
  | .module => functions found.scope

def contextOf (a : Analyzer) (found : Located) : Handler.Context where
  scope := found.scope
  capabilities := a.capabilities
  conventions := a.conventions
  self :=
    match found.target with
    | .type _ => some found.canonical
    | .module => none

def analyze (a : Analyzer) (name : String) : Except Failure Analysis := do
  let found ← a.tree.locate name
  let c := a.contextOf found
  let handlers := Table.ofList ((routines found).map fun f => (f.name, Handler.ofFunction c f))
  if handlers.isEmpty then throw (.sourceUnavailable name "no handler routines found")
  return ⟨found.canonical, found.scope.path, handlers⟩

end Analyzer

structure AnalysisCache where
  outcomes : Table (Except Failure Analysis) := []
  /-- How many analyses have been made. -/
  size : Nat := 0

namespace AnalysisCache

def get (cache : AnalysisCache) (a : Analyzer) (name : String) :
    Except Failure Analysis × AnalysisCache :=
  match cache.outcomes.get? name with
  | some outcome => (outcome, cache)
  | none =>
    let outcome := a.analyze name
    (outcome, ⟨cache.outcomes.insert name outcome, cache.size + 1⟩)

end AnalysisCache

end ApiContract
