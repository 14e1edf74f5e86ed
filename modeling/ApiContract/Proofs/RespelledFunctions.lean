import ApiContract.Proofs.RespelledValues

namespace ApiContract.Handler

open Source

namespace Scan

variable (c : Context) (parameters : List Parameter)

theorem record_respelled {e e' : Expr} (h : e.Respelled c.Interchangeable e') (s : Scan) :
    s.record c parameters e = s.record c parameters e' := by
  have hresponse := (s.evaluator c parameters).response_respelled h
  rw [record, record, hresponse]

theorem site_respelled {e e' : Expr} (h : e.Respelled c.Interchangeable e') (tail : Bool)
    {s s' : Scan} (hs : s = s') : s.site c parameters tail e = s'.site c parameters tail e' := by
  rw [hs, site, site, record_respelled c parameters h]

theorem bind_respelled {e e' : Expr} (h : e.Respelled c.Interchangeable e') (name : Option String)
    (s : Scan) : s.bind c parameters name e = s.bind c parameters name e' := by
  cases name with
  | none => rfl
  | some name => simp only [bind, (s.evaluator c parameters).evaluate_respelled h]

theorem isEmpty_respelled {R : Path → Path → Prop} {body body' : List Stmt}
    (h : StmtsRespelled R body body') : body.isEmpty = body'.isEmpty := by
  cases h <;> rfl

mutual

/-- A pass meets the same, however types are spelled. -/
theorem expr_respelled {e e' : Expr} (h : e.Respelled c.Interchangeable e') (tail : Bool)
    (s : Scan) : expr c parameters tail e s = expr c parameters tail e' s := by
  match h with
  | .same _ => rfl
  | .path hinner => exact site_respelled c parameters (.path hinner) tail (exprs_respelled hinner s)
  | .paren h => exact site_respelled c parameters (.paren h) tail (expr_respelled h false s)
  | .reference h => exact site_respelled c parameters (.reference h) tail (expr_respelled h false s)
  | .negate h => exact site_respelled c parameters (.negate h) tail (expr_respelled h false s)
  | .tuple h => exact site_respelled c parameters (.tuple h) tail (exprs_respelled h s)
  | .array h => exact site_respelled c parameters (.array h) tail (exprs_respelled h s)
  | .record hpath hinner hfields hrest =>
    refine site_respelled c parameters (.record hpath hinner hfields hrest) tail ?_
    rw [exprs_respelled hinner, fields_respelled hfields, option_respelled hrest]
  | .call hcallee hargs =>
    refine site_respelled c parameters (.call hcallee hargs) tail ?_
    rw [expr_respelled hcallee, exprs_respelled hargs]
  | .called hpath hinner hargs =>
    refine site_respelled c parameters (.called hpath hinner hargs) tail ?_
    rw [expr, expr, exprs_respelled hinner, exprs_respelled hargs]
    rfl
  | .method hreceiver hinner hargs =>
    refine site_respelled c parameters (.method hreceiver hinner hargs) tail ?_
    rw [expr_respelled hreceiver, exprs_respelled hinner, exprs_respelled hargs]
  | .field h => exact site_respelled c parameters (.field h) tail (expr_respelled h false s)
  | .index hbase hposition =>
    refine site_respelled c parameters (.index hbase hposition) tail ?_
    rw [expr_respelled hbase, expr_respelled hposition]
  | .await h => exact site_respelled c parameters (.await h) tail (expr_respelled h false s)
  | .attempt h => exact site_respelled c parameters (.attempt h) tail (expr_respelled h false s)
  | .assign hleft hright =>
    refine site_respelled c parameters (.assign hleft hright) tail ?_
    rw [expr_respelled hright, localName?_respelled hleft, bind_respelled c parameters hright]
  | .ret hvalue =>
    match hvalue with
    | .none => rfl
    | .some h => rw [expr, expr, expr_respelled h, record_respelled c parameters h]
  | .closure h => exact site_respelled c parameters (.closure h) tail rfl
  | .async h => exact site_respelled c parameters (.async h) tail rfl
  | .branch hcondition hbody hotherwise =>
    rw [expr, expr, expr_respelled hcondition, stmts_respelled hbody, option_respelled hotherwise]
  | .cases hsubject harms => rw [expr, expr, expr_respelled hsubject, arms_respelled harms]
  | .block h => rw [expr, expr, stmts_respelled h]
  | .unchecked h => rw [expr, expr, stmts_respelled h]
  | .compound h => exact site_respelled c parameters (.compound h) tail (exprs_respelled h s)

theorem exprs_respelled {es es' : List Expr} (h : AllRespelled c.Interchangeable es es')
    (s : Scan) : exprs c parameters es s = exprs c parameters es' s := by
  match h with
  | .nil => rfl
  | .cons h hrest => rw [exprs, exprs, expr_respelled h, exprs_respelled hrest]

theorem option_respelled {o o' : Option Expr} (h : OptionRespelled c.Interchangeable o o')
    (tail : Bool) (s : Scan) : option c parameters tail o s = option c parameters tail o' s := by
  match h with
  | .none => rfl
  | .some h => rw [option, option, expr_respelled h]

theorem fields_respelled {fs fs' : List FieldInit} (h : FieldsRespelled c.Interchangeable fs fs')
    (s : Scan) : fields c parameters fs s = fields c parameters fs' s := by
  match h with
  | .nil => rfl
  | .cons h hrest => rw [fields, fields, expr_respelled h, fields_respelled hrest]

theorem arms_respelled {as as' : List Arm} (h : ArmsRespelled c.Interchangeable as as')
    (tail : Bool) (s : Scan) : arms c parameters tail as s = arms c parameters tail as' s := by
  match h with
  | .nil => rfl
  | .cons hinner hguard hbody hrest =>
    rw [arms, arms, exprs_respelled hinner, option_respelled hguard, expr_respelled hbody,
      arms_respelled hrest]

theorem stmts_respelled {body body' : List Stmt} (h : StmtsRespelled c.Interchangeable body body')
    (tail : Bool) (s : Scan) :
    stmts c parameters tail body s = stmts c parameters tail body' s := by
  match h with
  | .nil => rfl
  | .bind hinner hvalue hotherwise hrest =>
    match hvalue with
    | .none => rw [stmts, stmts, stmts_respelled hrest]
    | .some h =>
      rw [stmts, stmts, expr_respelled h, option_respelled hotherwise,
        bind_respelled c parameters h, stmts_respelled hrest]
  | .item _ hrest => rw [stmts, stmts, stmts_respelled hrest]
  | .expr h hrest =>
    rw [stmts, stmts, isEmpty_respelled hrest, expr_respelled h, stmts_respelled hrest]
  | .expansion hrest => rw [stmts, stmts, isEmpty_respelled hrest, stmts_respelled hrest]

end

end Scan

section

variable {c : Context}

theorem names_respelled {R : Path → Path → Prop} {segments segments' : List Segment}
    (h : SegmentsRespelled R segments segments') :
    segments.map Segment.name = segments'.map Segment.name := by
  match h with
  | .nil => rfl
  | .cons _ hrest => rw [List.map_cons, List.map_cons, names_respelled hrest]; rfl

theorem declaredType?_path (p : Path) :
    declaredType? c (.path p) = p.names.getLast?.bind fun last =>
    if isTransparentType c last then declaredInLast? c p.segments
    else if Name.isNative last then some last
    else some (c.resolve p.text) := by
  cases p with
  | mk rooted segments =>
    rw [declaredType?, Path.names, List.getLast?_map, Path.segments]
    cases segments.getLast? with
    | none => rfl
    | some last => rfl

theorem declaredType?_of_isOrdinary {p : Path} (h : c.conventions.IsOrdinary p) :
    declaredType? c (.path p) = some (c.resolve p.text) := by
  obtain ⟨last, hlast, hordinary⟩ := h
  have htransparent : isTransparentType c last = false := by
    have hwrappers : ["Option", "Box", "Arc"] ⊆ foreignTypes := by decide
    have hforeign : last ∉ ["Option", "Box", "Arc"] := fun hm => hordinary.noForeign (hwrappers hm)
    simpa [isTransparentType, hordinary.noExtractor] using hforeign
  rw [declaredType?_path, Option.mem_def.mp hlast, Option.bind_some, htransparent,
    hordinary.noNative]
  rfl

mutual

/-- Declared types that mean the same are the same. -/
theorem declaredType?_respelled {type type' : TypeExpr}
    (h : type.Respelled c.Interchangeable type') :
    declaredType? c type = declaredType? c type' := by
  match h with
  | .path hsame =>
    rw [declaredType?_of_isOrdinary hsame.left, declaredType?_of_isOrdinary hsame.right,
      hsame.resolve_eq]
  | .arguments hsegments =>
    have hnames := names_respelled hsegments
    rw [declaredType?_path, declaredType?_path]
    simp only [Path.names, Path.text, Path.segments, hnames, declaredInLast?_respelled hsegments]
  | .reference h => rw [declaredType?, declaredType?, declaredType?_respelled h]
  | .paren h => rw [declaredType?, declaredType?, declaredType?_respelled h]
  | .other => rfl

theorem declaredInLast?_respelled {segments segments' : List Segment}
    (h : SegmentsRespelled c.Interchangeable segments segments') :
    declaredInLast? c segments = declaredInLast? c segments' := by
  match h with
  | .nil => rfl
  | .cons harguments hrest =>
    have hempty := congrArg List.isEmpty (names_respelled hrest)
    rw [List.isEmpty_map, List.isEmpty_map] at hempty
    simp only [declaredInLast?, hempty, declaredInArguments?_respelled harguments,
      declaredInLast?_respelled hrest]

theorem declaredInArguments?_respelled {arguments arguments' : Arguments}
    (h : ArgumentsRespelled c.Interchangeable arguments arguments') :
    declaredInArguments? c arguments = declaredInArguments? c arguments' := by
  match h with
  | .none | .parenthesized => rfl
  | .angled h => rw [declaredInArguments?, declaredInArguments?, declaredInArgs?_respelled h]

theorem declaredInArgs?_respelled {args args' : List GenericArg}
    (h : GenericArgsRespelled c.Interchangeable args args') :
    declaredInArgs? c args = declaredInArgs? c args' := by
  match h with
  | .nil => rfl
  | .type h hrest =>
    rw [declaredInArgs?, declaredInArgs?, declaredType?_respelled h,
      declaredInArgs?_respelled hrest]
  | .other hrest => rw [declaredInArgs?, declaredInArgs?, declaredInArgs?_respelled hrest]

end

theorem parameterAt_respelled {param param' : Param} (h : param.Respelled c.Interchangeable param')
    (place : Nat) : parameterAt c place param = parameterAt c place param' := by
  cases h with
  | receiver => rfl
  | typed h => simp only [parameterAt, declaredType?_respelled h]

theorem map_zipIdx_eq {α β : Type} {r : α → α → Prop} {g : α × Nat → β} {xs ys : List α}
    (h : List.Forall₂ r xs ys) (hg : ∀ x y place, r x y → g (x, place) = g (y, place))
    (first : Nat) : (xs.zipIdx first).map g = (ys.zipIdx first).map g := by
  induction h generalizing first with
  | nil => rfl
  | cons hxy _ ih =>
    rw [List.zipIdx_cons, List.zipIdx_cons, List.map_cons, List.map_cons, hg _ _ _ hxy, ih]

theorem declared_respelled {params params' : List Param}
    (h : List.Forall₂ (Param.Respelled c.Interchangeable) params params') :
    declared c params = declared c params' := by
  rw [declared, declared,
    map_zipIdx_eq h fun _ _ place hparam => parameterAt_respelled hparam place]

end

/-- Handlers are the same, however the types in a routine are spelled: at any places, paths of types
may be exchanged for others that mean the same, if none of them is recognised by its name. -/
theorem ofFunction_respelled (c : Context) {f f' : Function}
    (h : f.Respelled c.Interchangeable f') : ofFunction c f = ofFunction c f' := by
  cases h with
  | mk hparams _ hbody =>
    have hdeclared := declared_respelled hparams
    simp only [ofFunction, Function.attributes, Function.name, Function.params, Function.body,
      parametersOf, validatorOf, responsesOf, hdeclared, Scan.stmts_respelled c _ hbody]

def aliasing : Context where
  scope := .ofItems "src/api.rs" ["crate", "api"]
    [.imports (.path "crate" (.path "models" (.rename "User" "Account")))]
  capabilities := CapabilityIndex.classifier ⟨fun
    | .domainObject => ["crate::models::User"]
    | _ => []⟩
  conventions := {}
  self := none

def typePath (names : List String) : Path := .mk false (names.map fun name => .mk name .none)

def listing (type : List String) : Function :=
  .mk [] "f" [.typed (.name "user") (.path (typePath type))] []
    [.expr (.call (pathOf (type ++ ["all"])) []) false]

/-- An entity may be called by the name that it is imported under, or by its own. -/
theorem ofFunction_listing :
    (listing ["Account"]).Respelled aliasing.Interchangeable (listing ["crate", "models", "User"]) ∧
      ofFunction aliasing (listing ["Account"]) =
        ofFunction aliasing (listing ["crate", "models", "User"]) := by
  have hsame :
      aliasing.Interchangeable (typePath ["Account"]) (typePath ["crate", "models", "User"]) :=
    ⟨by decide, by decide, by decide⟩
  have hall : Name.IsPart "all" := ⟨by decide, by decide⟩
  have hrespelled : (listing ["Account"]).Respelled aliasing.Interchangeable
      (listing ["crate", "models", "User"]) :=
    .mk (.cons (.typed (.path hsame)) .nil) .nil (.expr (.called
      ⟨hsame, .function hall (by decide) rfl, .function hall (by decide) rfl⟩ .nil .nil) .nil)
  exact ⟨hrespelled, ofFunction_respelled aliasing hrespelled⟩

end ApiContract.Handler
