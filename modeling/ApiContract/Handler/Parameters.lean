import ApiContract.Handler.Basic

namespace ApiContract.Handler

open Source

/-- The name that a pattern binds: `id`, `Path(id)`, `mut id`. -/
def patternName? : Pattern → Option String
  | .name ident => some ident
  | .typed pattern _ => patternName? pattern
  | .reference pattern => patternName? pattern
  | .constructor [pattern] => patternName? pattern
  | _ => none

def isTransparentType (c : Context) (name : String) : Bool :=
  ["Option", "Box", "Arc"].contains name || c.conventions.isExtractor name

mutual

/-- The declared type without references and wrappers. Of the types in a wrapper the first one that
has a name counts. -/
def declaredType? (c : Context) : TypeExpr → Option String
  | .reference target => declaredType? c target
  | .paren inside => declaredType? c inside
  | .path (.mk rooted segments) =>
    match segments.getLast? with
    | none => none
    | some last =>
      if isTransparentType c last.name then declaredInLast? c segments
      else if Name.isNative last.name then some last.name
      else some (c.resolve (Source.Path.mk rooted segments).text)
  | .other => none

def declaredInLast? (c : Context) : List Segment → Option String
  | [] => none
  | .mk _ arguments :: rest =>
    if rest.isEmpty then declaredInArguments? c arguments else declaredInLast? c rest

def declaredInArguments? (c : Context) : Arguments → Option String
  | .angled args => declaredInArgs? c args
  | _ => none

def declaredInArgs? (c : Context) : List GenericArg → Option String
  | [] => none
  | .type type :: rest => (declaredType? c type).or (declaredInArgs? c rest)
  | .other :: rest => declaredInArgs? c rest

end

def kindOf (c : Context) : Option String → ParameterKind
  | none => .native
  | some type =>
    if Name.isNative type then .native
    else if c.has type .validator then .validator
    else if c.has type .domainObject then .domainObject
    else .other

def parameterAt (c : Context) (place : Nat) : Param → Option Parameter
  | .receiver => none
  | .typed pattern type =>
    let declared := declaredType? c type
    some ⟨(patternName? pattern).getD ("arg" ++ Nat.repr place), kindOf c declared, declared⟩

def declared (c : Context) (params : List Param) : List Parameter :=
  (params.zipIdx.map fun (p, place) => parameterAt c place p).filterMap id

def isValidator (p : Parameter) : Bool := p.kind = .validator

def parametersOf (c : Context) (params : List Param) : List Parameter :=
  (declared c params).filter fun p => !isValidator p

def validatorOf (c : Context) (params : List Param) : Option String :=
  (((declared c params).filter isValidator).getLast?).bind Parameter.type

end ApiContract.Handler
