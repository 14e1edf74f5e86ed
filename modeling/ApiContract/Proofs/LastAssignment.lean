import ApiContract.Proofs.TransparentForms

namespace ApiContract.Handler

open Source

/-- What a pass does on its way through a body. -/
inductive Step where
  | assign (name : String) (value : Expr)
  | record (e : Expr)
  | recordEmpty

namespace Step

def isRecord : Step → Bool
  | assign .. => false
  | _ => true

def assigned? : Step → Option String
  | assign name _ => some name
  | _ => none

def site (tail : Bool) (e : Expr) : List Step := if tail then [record e] else []

def assignment (name : Option String) (value : Expr) : List Step :=
  (name.map fun name => assign name value).toList

mutual

/-- The steps in an expression, those inside it first; `tail` says that the body ends with it.
Deferred code and the left side of an assignment have none. -/
def ofExpr (tail : Bool) : Expr → List Step
  | .lit value => site tail (.lit value)
  | .path path inner => ofExprs inner ++ site tail (.path path inner)
  | .paren e => ofExpr false e ++ site tail (.paren e)
  | .reference e => ofExpr false e ++ site tail (.reference e)
  | .negate e => ofExpr false e ++ site tail (.negate e)
  | .tuple elements => ofExprs elements ++ site tail (.tuple elements)
  | .array elements => ofExprs elements ++ site tail (.array elements)
  | .record path inner fields rest =>
    ofExprs inner ++ ofFields fields ++ ofOption false rest ++
      site tail (.record path inner fields rest)
  | .call callee args => ofExpr false callee ++ ofExprs args ++ site tail (.call callee args)
  | .method receiver name inner args =>
    ofExpr false receiver ++ ofExprs inner ++ ofExprs args ++
      site tail (.method receiver name inner args)
  | .field base => ofExpr false base ++ site tail (.field base)
  | .index base position =>
    ofExpr false base ++ ofExpr false position ++ site tail (.index base position)
  | .await e => ofExpr false e ++ site tail (.await e)
  | .attempt e => ofExpr false e ++ site tail (.attempt e)
  | .assign left right =>
    ofExpr false right ++ assignment (localName? left) right ++ site tail (.assign left right)
  | .ret none => [recordEmpty]
  | .ret (some e) => ofExpr false e ++ [record e]
  | .closure parts => site tail (.closure parts)
  | .async body => site tail (.async body)
  | .branch condition body otherwise =>
    ofExpr false condition ++ ofStmts tail body ++ ofOption tail otherwise
  | .cases subject arms => ofExpr false subject ++ ofArms tail arms
  | .block body => ofStmts tail body
  | .unchecked body => ofStmts tail body
  | .json template => site tail (.json template)
  | .vec elements => site tail (.vec elements)
  | .expansion => site tail .expansion
  | .compound parts => ofExprs parts ++ site tail (.compound parts)

def ofExprs : List Expr → List Step
  | [] => []
  | e :: rest => ofExpr false e ++ ofExprs rest

def ofOption (tail : Bool) : Option Expr → List Step
  | none => []
  | some e => ofExpr tail e

def ofFields : List FieldInit → List Step
  | [] => []
  | .mk _ e :: rest => ofExpr false e ++ ofFields rest

def ofArms (tail : Bool) : List Arm → List Step
  | [] => []
  | .mk inner guard body :: rest =>
    ofExprs inner ++ ofOption false guard ++ ofExpr tail body ++ ofArms tail rest

def ofStmts (tail : Bool) : List Stmt → List Step
  | [] => []
  | .bind _ _ none _ :: rest => ofStmts tail rest
  | .bind pattern _ (some value) otherwise :: rest =>
    ofExpr false value ++ ofOption false otherwise ++ assignment (Scan.boundName? pattern) value ++
      ofStmts tail rest
  | .item _ :: rest => ofStmts tail rest
  | .expr e closed :: rest => ofExpr (tail && rest.isEmpty && !closed) e ++ ofStmts tail rest
  | .expansion e closed :: rest => site (tail && rest.isEmpty && !closed) e ++ ofStmts tail rest

end

end Step

def stepsOf (f : Function) : List Step := Step.ofStmts true f.body

namespace Scan

variable (c : Context) (parameters : List Parameter)

def step (s : Scan) : Step → Scan
  | .assign name value => s.bind c parameters (some name) value
  | .record e => s.record c parameters e
  | .recordEmpty => s.recordEmpty

def run (steps : List Step) (s : Scan) : Scan := steps.foldl (step c parameters) s

variable {c parameters}

theorem run_append (steps more : List Step) (s : Scan) :
    run c parameters (steps ++ more) s = run c parameters more (run c parameters steps s) :=
  List.foldl_append

theorem run_returning (tail : Bool) (e : Expr) (s : Scan) :
    run c parameters (Step.site tail e) s = s.site c parameters tail e := by
  cases tail <;> rfl

theorem run_assigning (name : Option String) (value : Expr) (s : Scan) :
    run c parameters (Step.assignment name value) s = s.bind c parameters name value := by
  cases name <;> rfl

mutual

theorem expr_eq_run (tail : Bool) (e : Expr) (s : Scan) :
    expr c parameters tail e s = run c parameters (Step.ofExpr tail e) s := by
  match e with
  | .lit _ | .closure _ | .async _ | .json _ | .vec _ | .expansion =>
    exact (run_returning tail _ s).symm
  | .path _ inner => rw [expr, Step.ofExpr, run_append, run_returning, exprs_eq_run]
  | .paren e | .reference e | .negate e | .field e | .await e | .attempt e =>
    rw [expr, Step.ofExpr, run_append, run_returning, expr_eq_run]
  | .tuple elements | .array elements | .compound elements =>
    rw [expr, Step.ofExpr, run_append, run_returning, exprs_eq_run]
  | .record _ inner fieldInits rest =>
    rw [expr, Step.ofExpr, run_append, run_append, run_append, run_returning, exprs_eq_run,
      fields_eq_run, option_eq_run]
  | .call callee args =>
    rw [expr, Step.ofExpr, run_append, run_append, run_returning, expr_eq_run, exprs_eq_run]
  | .method receiver _ inner args =>
    rw [expr, Step.ofExpr, run_append, run_append, run_append, run_returning, expr_eq_run,
      exprs_eq_run, exprs_eq_run]
  | .index base position =>
    rw [expr, Step.ofExpr, run_append, run_append, run_returning, expr_eq_run, expr_eq_run]
  | .assign left right =>
    rw [expr, Step.ofExpr, run_append, run_append, run_returning, run_assigning, expr_eq_run]
  | .ret none => rfl
  | .ret (some e) =>
    rw [expr, Step.ofExpr, run_append, expr_eq_run]
    rfl
  | .branch condition body otherwise =>
    rw [expr, Step.ofExpr, run_append, run_append, expr_eq_run, stmts_eq_run, option_eq_run]
  | .cases subject alternatives => rw [expr, Step.ofExpr, run_append, expr_eq_run, arms_eq_run]
  | .block body | .unchecked body => rw [expr, Step.ofExpr, stmts_eq_run]

theorem exprs_eq_run (es : List Expr) (s : Scan) :
    exprs c parameters es s = run c parameters (Step.ofExprs es) s := by
  match es with
  | [] => rfl
  | e :: rest => rw [exprs, Step.ofExprs, run_append, expr_eq_run, exprs_eq_run]

theorem option_eq_run (tail : Bool) (o : Option Expr) (s : Scan) :
    option c parameters tail o s = run c parameters (Step.ofOption tail o) s := by
  match o with
  | none => rfl
  | some e => rw [option, Step.ofOption, expr_eq_run]

theorem fields_eq_run (inits : List FieldInit) (s : Scan) :
    fields c parameters inits s = run c parameters (Step.ofFields inits) s := by
  match inits with
  | [] => rfl
  | .mk _ e :: rest => rw [fields, Step.ofFields, run_append, expr_eq_run, fields_eq_run]

theorem arms_eq_run (tail : Bool) (alternatives : List Arm) (s : Scan) :
    arms c parameters tail alternatives s = run c parameters (Step.ofArms tail alternatives) s := by
  match alternatives with
  | [] => rfl
  | .mk inner guard body :: rest =>
    rw [arms, Step.ofArms, run_append, run_append, run_append, exprs_eq_run, option_eq_run,
      expr_eq_run, arms_eq_run]

theorem stmts_eq_run (tail : Bool) (body : List Stmt) (s : Scan) :
    stmts c parameters tail body s = run c parameters (Step.ofStmts tail body) s := by
  match body with
  | [] => rfl
  | .bind _ _ none _ :: rest | .item _ :: rest => rw [stmts, Step.ofStmts, stmts_eq_run]
  | .bind pattern _ (some value) otherwise :: rest =>
    rw [stmts, Step.ofStmts, run_append, run_append, run_append, run_assigning, expr_eq_run,
      option_eq_run, stmts_eq_run]
  | .expr e closed :: rest => rw [stmts, Step.ofStmts, run_append, expr_eq_run, stmts_eq_run]
  | .expansion e closed :: rest => rw [stmts, Step.ofStmts, run_append, run_returning, stmts_eq_run]

end

theorem lookup_run_of_not_assigned {x : String} {steps : List Step}
    (h : ∀ step ∈ steps, step.assigned? ≠ some x) (s : Scan) :
    (run c parameters steps s).environment.lookup x = s.environment.lookup x := by
  induction steps generalizing s with
  | nil => rfl
  | cons step steps ih =>
    have hstep : (Scan.step c parameters s step).environment.lookup x = s.environment.lookup x := by
      cases step with
      | assign name value =>
        have hne : x ≠ name := fun heq => h _ List.mem_cons_self (congrArg some heq.symm)
        exact Environment.lookup_bind_of_ne hne
      | record | recordEmpty => rfl
    exact (ih (fun later hlater => h later (List.mem_cons_of_mem _ hlater)) _).trans hstep

theorem lookup_run_of_last {x : String} (earlier : List Step) (value : Expr) {later : List Step}
    (h : ∀ step ∈ later, step.assigned? ≠ some x) (s : Scan) :
    (run c parameters (earlier ++ .assign x value :: later) s).environment.lookup x =
      some (((run c parameters earlier s).evaluator c parameters).evaluate value) := by
  rw [run_append]
  exact (lookup_run_of_not_assigned h _).trans (Environment.lookup_bind_self _ x _)

def recorded (steps : List Step) : Nat := steps.countP Step.isRecord

theorem length_responses_run (steps : List Step) (s : Scan) :
    (run c parameters steps s).responses.length = s.responses.length + recorded steps := by
  induction steps generalizing s with
  | nil => rfl
  | cons step steps ih =>
    have hrun := ih (Scan.step c parameters s step)
    rw [recorded] at hrun ⊢
    cases step with
    | assign name value => exact hrun
    | record e | recordEmpty =>
      refine hrun.trans ?_
      rw [List.countP_cons_of_pos rfl]
      simp only [Scan.step, record, recordEmpty, List.length_append, List.length_singleton]
      omega

theorem responses_prefix_run (steps : List Step) (s : Scan) :
    s.responses <+: (run c parameters steps s).responses := by
  induction steps generalizing s with
  | nil => exact List.prefix_refl _
  | cons step steps ih =>
    refine .trans ?_ (ih (Scan.step c parameters s step))
    cases step with
    | assign name value => exact List.prefix_refl _
    | record e | recordEmpty => exact List.prefix_append _ _

theorem responses_eq_run (f : Function) :
    (ofFunction c f).responses = (run c (parametersOf c f.params) (stepsOf f) {}).responses :=
  congrArg Scan.responses (stmts_eq_run true f.body {})

variable (c parameters)

/-- What is known after some steps. -/
def after (steps : List Step) : Evaluator := (run c parameters steps {}).evaluator c parameters

variable {c parameters}

theorem response_of_record {before later : List Step} {e : Expr} :
    (run c parameters (before ++ .record e :: later) {}).responses[recorded before]? =
      some ((after c parameters before).response e) := by
  have hlength : (run c parameters before {}).responses.length = recorded before := by
    rw [length_responses_run]
    exact Nat.zero_add _
  obtain ⟨more, hmore⟩ :=
    @responses_prefix_run c parameters later ((run c parameters before {}).record c parameters e)
  rw [run_append]
  have hrun : run c parameters (.record e :: later) (run c parameters before {}) =
      run c parameters later ((run c parameters before {}).record c parameters e) := rfl
  rw [hrun, ← hmore, record, List.append_assoc, ← hlength,
    List.getElem?_append_right (Nat.le_refl _), Nat.sub_self]
  rfl

end Scan

def localNamed (x : String) : Expr := .path (.ofIdent x) []

/-- What a parameter stands for where nothing has been assigned to its name. -/
def declaredShape (parameters : List Parameter) (x : String) : Shape :=
  match parameters.find? fun p => p.name == x with
  | some p =>
    if p.kind = .domainObject ∨ p.kind = .other then (p.type.map Shape.ofType).getD .unresolved
    else .unresolved
  | none => .unresolved

namespace Evaluator

variable (v : Evaluator)

theorem parameterShape?_getD (x : String) :
    (v.parameterShape? x).getD .unresolved = declaredShape v.parameters x := by
  rw [parameterShape?, declaredShape]
  cases v.parameters.find? fun p => p.name == x with
  | none => rfl
  | some p =>
    obtain ⟨name, kind, type⟩ := p
    cases kind <;> cases type <;> rfl

/-- A name stands for what was assigned to it last, or else for the parameter. -/
theorem evaluate_localNamed {x : String} (hself : x ≠ "self") (hnone : x ≠ "None") :
    v.evaluate (localNamed x) = (v.environment.lookup x).getD (declaredShape v.parameters x) := by
  have hvalue : v.value? (localNamed x) = localValue? v.environment x := rfl
  have hchain : v.chainShape? (localNamed x) = some ((v.named? (localNamed x)).getD .unresolved) :=
    rfl
  have hnamed : v.named? (localNamed x) = (v.environment.lookup x).or (v.parameterShape? x) := by
    refine (if_neg hself).trans ?_
    cases v.environment.lookup x <;> rfl
  have hpeel : peel (localNamed x) = localNamed x := rfl
  rw [evaluate_eq, hpeel, hvalue, hchain, hnamed, localValue?, if_neg hnone, ← parameterShape?_getD]
  cases v.environment.lookup x with
  | none => rfl
  | some shape => cases shape <;> rfl

/-- A return whose payload is a local name, or what a responder is given that is not of a
transformer and names no status. -/
inductive Names (x : String) : Expr → Prop
  | payload (ls : List v.Layer) : Names x (Layer.enclose ls (localNamed x))
  | given (ls : List v.Layer) {f : Frame} (ws : List Wrapper) (hresponds : v.Responds f)
      (honly : f.rest = []) (hplain : ¬ v.Transforms f)
      (hstatus : v.bareStatus? (f.around (localNamed x)) = none) :
      Names x (Layer.enclose ls (f.around (Wrapper.stack ws (localNamed x))))

variable {v}

theorem transformed?_of_not_transforms {f : Frame} (h : ¬ v.Transforms f) (e : Expr) :
    v.transformed? (f.around e) = none := by
  have hroot : chainRoot (f.around e) = f.around e := rfl
  rw [transformed?, hroot, constructionAt?_around]
  cases hfound : constructionAt? v.context (.call f.callee []) with
  | none => rfl
  | some found =>
    exact if_neg fun htransformer => h (transforms_iff.mpr ⟨found, hfound, htransformer⟩)

theorem respond_localNamed (status : Option Nat) (failed : Bool) (x : String) :
    (v.respond ⟨status, failed, localNamed x⟩).shape = v.evaluate (localNamed x) := rfl

theorem shape_of_names {x : String} {e : Expr} (h : v.Names x e) :
    (v.response e).shape = v.evaluate (localNamed x) := by
  cases h with
  | payload ls =>
    rw [response_eq, layers_enclose]
    exact respond_localNamed _ _ x
  | @given ls f ws hresponds honly hplain hstatus =>
    have hcalls : ∀ g ∈ [f], v.Responds g ∨ v.Transforms g :=
      fun g hg => .inl (List.mem_singleton.mp hg ▸ hresponds)
    have hunwrapped : ∀ status failed,
        v.respond (v.layers status failed (Frame.stack [f] (Wrapper.stack ws (localNamed x)))) =
          v.respond (v.layers status failed (f.around (localNamed x))) :=
      fun status failed => respond_stack hcalls (by simp) (.inr ⟨by simp, by simp⟩) status failed _
    rw [response_eq, layers_enclose]
    refine (congrArg Response.shape (hunwrapped _ _)).trans ?_
    rcases v.layers_around f _ _ with ⟨failed, hlayers⟩ | hlayers
    · -- a responder that has the name of a transparent form
      rw [hlayers]
      exact respond_localNamed _ _ x
    · rw [hlayers, respond]
      dsimp only
      rw [hstatus, transformed?_of_not_transforms hplain, hresponds.responder?]

end Evaluator

/-- The shape that a name has after some steps: of the value that was assigned to it last, at the
moment of the assignment, or else of the parameter. -/
inductive LastGiven (c : Context) (parameters : List Parameter) (before : List Step) (x : String) :
    Shape → Prop
  | assigned {earlier later : List Step} {value : Expr}
      (hbefore : before = earlier ++ .assign x value :: later)
      (hlater : ∀ step ∈ later, step.assigned? ≠ some x) :
      LastGiven c parameters before x ((Scan.after c parameters earlier).evaluate value)
  | declared (hnone : ∀ step ∈ before, step.assigned? ≠ some x) :
    LastGiven c parameters before x (declaredShape parameters x)

theorem exists_last_assignment (x : String) (steps : List Step) : (∃ earlier value later,
      steps = earlier ++ .assign x value :: later ∧ ∀ step ∈ later, step.assigned? ≠ some x) ∨
    ∀ step ∈ steps, step.assigned? ≠ some x := by
  induction steps with
  | nil => exact .inr fun _ h => absurd h List.not_mem_nil
  | cons step steps ih =>
    rcases ih with ⟨earlier, value, later, rfl, hlater⟩ | hnone
    · exact .inl ⟨step :: earlier, value, later, rfl, hlater⟩
    · by_cases hstep : step.assigned? = some x
      · cases step with
        | assign name value =>
          obtain rfl : name = x := Option.some.inj hstep
          exact .inl ⟨[], value, steps, rfl, hnone⟩
        | record | recordEmpty => cases hstep
      · exact .inr (List.forall_mem_cons.mpr ⟨hstep, hnone⟩)

theorem lastGiven_evaluate (c : Context) (parameters : List Parameter) (before : List Step)
    {x : String} (hself : x ≠ "self") (hnone : x ≠ "None") :
    LastGiven c parameters before x ((Scan.after c parameters before).evaluate (localNamed x)) := by
  rw [Evaluator.evaluate_localNamed _ hself hnone]
  rcases exists_last_assignment x before with ⟨earlier, value, later, rfl, hlater⟩ | hbefore
  · have hlookup :
        (Scan.after c parameters (earlier ++ .assign x value :: later)).environment.lookup x =
          some ((Scan.after c parameters earlier).evaluate value) :=
      Scan.lookup_run_of_last earlier value hlater {}
    rw [hlookup]
    exact .assigned rfl hlater
  · have hlookup : (Scan.after c parameters before).environment.lookup x = none :=
      Scan.lookup_run_of_not_assigned hbefore {}
    rw [hlookup]
    exact .declared hbefore

/-- A handler has one response for each return that its steps record. The response to a return of a
local name has the shape of the value that was assigned to the name last before the return, as it
was then, or of the parameter of this name if nothing was assigned. -/
theorem shape_of_last_assignment (c : Context) (f : Function) :
    (ofFunction c f).responses.length = Scan.recorded (stepsOf f) ∧
      ∀ before site later, stepsOf f = before ++ .record site :: later →
        ∃ response, (ofFunction c f).responses[Scan.recorded before]? = some response ∧ ∀ x,
            x ≠ "self" → x ≠ "None" → (Scan.after c (parametersOf c f.params) before).Names x site →
              LastGiven c (parametersOf c f.params) before x response.shape := by
  refine ⟨?_, fun before site later hsteps => ?_⟩
  · rw [Scan.responses_eq_run, Scan.length_responses_run]
    exact Nat.zero_add _
  · refine ⟨(Scan.after c (parametersOf c f.params) before).response site, ?_,
      fun x hself hnone hnames => ?_⟩
    · rw [Scan.responses_eq_run, hsteps]
      exact Scan.response_of_record
    · rw [Evaluator.shape_of_names hnames]
      exact lastGiven_evaluate c _ before hself hnone

def responding (params : List Param) (before : List Stmt) (callee : List String) (x : String) :
    Function :=
  .mk [] "show" params [] (before ++ [.expr ((frameOf callee).around (localNamed x)) false])

def replaced : Function :=
  responding []
    [.bind (.name "payload") [] (some (.lit (.string "first"))) none,
      .expr (.assign (localNamed "payload") (.lit (.string "second"))) true]
    ["Json"] "payload"

def replacing : List Step :=
  [.assign "payload" (.lit (.string "first")), .assign "payload" (.lit (.string "second"))]

theorem shape_of_replaced :
    ∃ response, (ofFunction presenter.context replaced).responses[0]? = some response ∧
      LastGiven presenter.context [] replacing "payload" response.shape := by
  let v := Scan.after presenter.context [] replacing
  have hresponds : v.Responds (frameOf ["Json"]) := by
    rw [Evaluator.Responds]
    decide
  have hplain : ¬ v.Transforms (frameOf ["Json"]) := by
    rintro ⟨written, function, hcalled, hforeign, -⟩
    have hjson : some ("Json", none) = some (written, function) := hcalled
    cases hjson
    exact hforeign (by decide)
  have hnames : v.Names "payload" ((frameOf ["Json"]).around (localNamed "payload")) :=
    .given [] [] hresponds rfl hplain rfl
  obtain ⟨response, hresponse, hgiven⟩ := (shape_of_last_assignment presenter.context replaced).2
    replacing ((frameOf ["Json"]).around (localNamed "payload")) [] rfl
  exact ⟨response, hresponse, hgiven "payload" (by decide) (by decide) hnames⟩

def presentedByType : Function :=
  responding [.typed (.name "user") (.path (pathTo ["User"]))] [] ["UserResource", "json"] "user"

def madeStatus : Function :=
  responding [] [.bind (.name "code") [] (some (.lit (.integer 404 ""))) none]
    ["StatusCode", "from_u16"] "code"

def statusModule : Context :=
  { presenter.context with conventions := { responders := ["from_u16"] } }

def isNumber : Shape → Bool
  | .literal (.number _) => true
  | _ => false

/-- What a responder is given is not told where the responder is a function of a transformer, or
where its call is itself a status. -/
theorem shape_not_given :
    presenter.Responds (frameOf ["UserResource", "json"]) ∧
      presenter.context.isClassified (presenter.context.resolve "UserResource::json") = false ∧
      (ofFunction presenter.context presentedByType).responses[0]?.map Response.shape ≠
        some (declaredShape (parametersOf presenter.context presentedByType.params) "user") ∧
      (ofFunction statusModule madeStatus).responses[0]?.map Response.shape ≠
        some ((Scan.after statusModule [] []).evaluate (.lit (.integer 404 ""))) := by
  refine ⟨?_, by decide, fun h => ?_, fun h => ?_⟩
  · rw [Evaluator.Responds]
    decide
  · have hrank := congrArg (Option.map Response.shapeRank) h
    revert hrank
    decide
  · have hnumber := congrArg (Option.map isNumber) h
    revert hnumber
    decide +kernel

end ApiContract.Handler
