import ApiContract.Proofs.IndexedFunctions
import ApiContract.Proofs.SettledValues
import ApiContract.Proofs.ShapeInvariants

namespace ApiContract

/-- All values in a shape, also in what a transformer is given, are as `p` says. -/
def Shape.All (p : Json → Prop) : Shape → Prop
  | .literal value => p value
  | .wrapped _ _ _ source => source.All p
  | .raw .. => True
  | .unresolved => True

namespace Shape

variable {p q : Json → Prop}

theorem All.imp (h : ∀ value, p value → q value) {shape : Shape} (hshape : shape.All p) :
    shape.All q := by
  induction shape with
  | literal value => exact h value hshape
  | wrapped _ _ _ source ih => exact ih hshape
  | raw | unresolved => trivial

theorem All.paginate {shape : Shape} (h : shape.All p) : shape.paginate.All p := by
  cases shape with
  | literal | wrapped => exact h
  | raw | unresolved => trivial

end Shape

namespace Handler

open Source

/-- Values that are made from literals: as elements of arrays, as members of objects, with a sign,
and from nothing. -/
inductive Evaluated : Json → Prop where
  | null : Evaluated .null
  | literal {l : Literal} {value : Json} (h : l.value? = some value) : Evaluated value
  | negate {value other : Json} (hvalue : Evaluated value) (h : negate value = some other) :
      Evaluated other
  | array {items : List Json} (h : ∀ item ∈ items, Evaluated item) : Evaluated (.array items)
  | object {entries : List (String × Json)} (h : ∀ entry ∈ entries, Evaluated entry.2) :
    Evaluated (.object (Members.ofList entries))

theorem settled_of_value? {l : Literal} {value : Json} (h : l.value? = some value) :
    value.Settled := by
  cases l with
  | string | char | bool =>
    obtain rfl := Option.some.inj h
    rfl
  | integer n =>
    rw [Literal.value?] at h
    split at h
    · obtain rfl := Option.some.inj h
      rfl
    · cases h
  | fraction =>
    obtain ⟨x, -, rfl⟩ := Option.map_eq_some_iff.mp h
    rfl
  | opaqueText => cases h

theorem settled_of_negate {value other : Json} (h : negate value = some other) : other.Settled := by
  unfold negate at h
  split at h
  · split at h <;> cases h <;> rfl
  · cases h

theorem Evaluated.settled {value : Json} (h : Evaluated value) : value.Settled := by
  induction h with
  | null => rfl
  | literal h => exact settled_of_value? h
  | negate _ h => exact settled_of_negate h
  | array _ ih => exact (Json.settled_array _).mpr ih
  | object _ ih => exact Json.settled_ofList ih

/-- The values of local names are evaluated. -/
def Knows (env : Environment) : Prop := Environment.Holds (Shape.All Evaluated) env

theorem Knows.evaluated_local {env : Environment} (henv : Knows env) {name : String} {value : Json}
    (h : localValue? env name = some value) : Evaluated value := by
  unfold localValue? at h
  split at h
  · obtain rfl := Option.some.inj h
    exact .null
  split at h
  next found hfound =>
    obtain rfl := Option.some.inj h
    exact henv name _ hfound
  next => cases h

section

variable {env : Environment} (c : Context)

mutual

theorem Knows.evaluated_value (henv : Knows env) (e : Expr) {value : Json}
    (h : value? c env e = some value) : Evaluated value := by
  match e with
  | .lit l => exact .literal h
  | .paren e | .reference e => exact henv.evaluated_value e h
  | .negate e =>
    obtain ⟨inner, hinner, hvalue⟩ := Option.bind_eq_some_iff.mp h
    exact .negate (henv.evaluated_value e hinner) hvalue
  | .path path _ =>
    obtain ⟨name, -, hvalue⟩ := Option.bind_eq_some_iff.mp h
    exact henv.evaluated_local hvalue
  | .tuple [] =>
    obtain rfl := Option.some.inj h
    exact .null
  | .tuple (e :: rest) =>
    obtain rfl := Option.some.inj h
    exact .array (henv.evaluated_values (e :: rest))
  | .array elements | .vec elements =>
    obtain rfl := Option.some.inj h
    exact .array (henv.evaluated_values elements)
  | .json template => exact henv.evaluated_template template h
  | .record path _ fields _ =>
    rw [value?] at h
    split at h
    · cases h
    · obtain rfl := Option.some.inj h
      exact .object (henv.evaluated_fields fields)
  | .call callee [arg] =>
    rw [value?] at h
    split at h
    · split at h
      · exact henv.evaluated_value arg h
      split at h
      · obtain ⟨entries, hentries, rfl⟩ := Option.map_eq_some_iff.mp h
        exact .object (henv.evaluated_entries arg hentries)
      · cases h
    · cases h
  | .method receiver name _ [] =>
    rw [value?] at h
    split at h
    · exact henv.evaluated_value receiver h
    · cases h
  | .call _ [] | .call _ (_ :: _ :: _) | .method _ _ _ (_ :: _) => cases h
  | .ret _ | .closure _ | .async _ | .branch .. | .cases .. | .block _ | .unchecked _ | .expansion
  | .compound _ | .field _ | .index .. | .await _ | .attempt _ | .assign .. => cases h

theorem Knows.evaluated_values (henv : Knows env) (es : List Expr) :
    ∀ item ∈ values c env es, Evaluated item := by
  match es with
  | [] => exact fun item h => absurd h List.not_mem_nil
  | e :: rest =>
    intro item h
    obtain h | h := List.mem_append.mp h
    · exact henv.evaluated_value e (Option.mem_toList.mp h)
    · exact henv.evaluated_values rest item h

theorem Knows.evaluated_fields (henv : Knows env) (fields : List FieldInit) :
    ∀ entry ∈ fieldValues c env fields, Evaluated entry.2 := by
  match fields with
  | [] => exact fun entry h => absurd h List.not_mem_nil
  | .mk none _ :: rest => exact henv.evaluated_fields rest
  | .mk (some name) e :: rest =>
    intro entry h
    obtain h | h := List.mem_append.mp h
    · obtain ⟨value, hvalue, rfl⟩ := Option.map_eq_some_iff.mp (Option.mem_toList.mp h)
      exact henv.evaluated_value e hvalue
    · exact henv.evaluated_fields rest entry h

theorem Knows.evaluated_entries (henv : Knows env) (e : Expr) {entries : List (String × Json)}
    (h : entriesIn c env e = some entries) : ∀ entry ∈ entries, Evaluated entry.2 := by
  unfold entriesIn at h
  split at h
  next pairs =>
    obtain rfl := Option.some.inj h
    exact henv.evaluated_pairs pairs
  next => cases h

theorem Knows.evaluated_pairs (henv : Knows env) (es : List Expr) :
    ∀ entry ∈ pairValues c env es, Evaluated entry.2 := by
  match es with
  | [] => exact fun entry h => absurd h List.not_mem_nil
  | e :: rest =>
    intro entry h
    obtain h | h := List.mem_append.mp h
    · exact henv.evaluated_pair e (Option.mem_toList.mp h)
    · exact henv.evaluated_pairs rest entry h

theorem Knows.evaluated_pair (henv : Knows env) (e : Expr) {entry : String × Json}
    (h : pairValue? c env e = some entry) : Evaluated entry.2 := by
  unfold pairValue? at h
  split at h
  next k v =>
    split at h
    next value _ hvalue =>
      obtain rfl := Option.some.inj h
      exact henv.evaluated_value v hvalue
    next => cases h
  next => cases h

theorem Knows.evaluated_template (henv : Knows env) (template : Template) {value : Json}
    (h : templateValue? c env template = some value) : Evaluated value := by
  match template with
  | .null =>
    obtain rfl := Option.some.inj h
    exact .null
  | .value e => exact henv.evaluated_value e h
  | .array items =>
    obtain rfl := Option.some.inj h
    exact .array (henv.evaluated_templates items)
  | .object entries =>
    obtain rfl := Option.some.inj h
    exact .object (henv.evaluated_members entries)

theorem Knows.evaluated_templates (henv : Knows env) (items : List Template) :
    ∀ item ∈ templateValues c env items, Evaluated item := by
  match items with
  | [] => exact fun item h => absurd h List.not_mem_nil
  | template :: rest =>
    intro item h
    obtain h | h := List.mem_append.mp h
    · exact henv.evaluated_template template (Option.mem_toList.mp h)
    · exact henv.evaluated_templates rest item h

theorem Knows.evaluated_members (henv : Knows env) (entries : List TemplateEntry) :
    ∀ entry ∈ templateEntries c env entries, Evaluated entry.2 := by
  match entries with
  | [] => exact fun entry h => absurd h List.not_mem_nil
  | .mk key value :: rest =>
    intro entry h
    obtain h | h := List.mem_append.mp h
    · split at h
      next found hvalue =>
        obtain rfl := List.mem_singleton.mp h
        exact henv.evaluated_template value hvalue
      next => cases h
    · exact henv.evaluated_members rest entry h

end

end

theorem invariant_evaluated (c : Context) : Invariant c (Shape.All Evaluated) where
  value _ henv e _ h := Knows.evaluated_value c henv e h
  ofType _ := trivial
  unresolved := trivial
  paginate _ h := h.paginate
  constructed parameters env scope found source h := by
    unfold Evaluator.constructed
    dsimp only
    split
    · exact h
    · split <;> trivial

theorem all_responses_ofFunction (c : Context) (f : Function) :
    ∀ response ∈ (ofFunction c f).responses, response.shape.All Evaluated :=
  (invariant_evaluated c).responses f

end Handler

theorem Analyzer.all_responses_of_analyze {analyzer : Analyzer} {name : String}
    {analysis : Analysis} (h : analyzer.analyze name = .ok analysis) {routine : String}
    {handler : Handler} (hhandler : analysis.handlers.get? routine = some handler) :
    ∀ response ∈ handler.responses, response.shape.All Handler.Evaluated := by
  obtain ⟨found, -, rfl⟩ := handlers_of_analyze h
  obtain ⟨f, -, -, rfl⟩ := exists_function_of_get? hhandler
  exact Handler.all_responses_ofFunction _ f

end ApiContract
