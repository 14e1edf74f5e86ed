import ApiContract.Proofs.EvaluatedValues
import ApiContract.Proofs.LastAssignment
import ApiContract.Proofs.NestedValues

namespace ApiContract

/-- Every integer in a value lies in one of the 64-bit ranges, and is not the least of them. -/
def Json.Opposable (value : Json) : Prop :=
  ∀ n, Occurs (.number (.int n)) value → -(Int.pow 2 63) < n ∧ n < Int.pow 2 64

namespace Handler

open Source

theorem eq_of_toSigned? {number : Number} {i : Int} (h : number.toSigned? = some i) :
    number = .int i ∧ i < Int.pow 2 63 := by
  cases number with
  | int n =>
    rw [Number.toSigned?] at h
    split at h
    next hn =>
      obtain rfl := Option.some.inj h
      exact ⟨rfl, hn⟩
    next => cases h
  | float => cases h

theorem opposable_literal {l : Literal} {value : Json} (h : l.value? = some value) :
    value.Opposable := by
  intro n hn
  cases l with
  | string | char | bool =>
    obtain rfl := Option.some.inj h
    cases hn
  | integer m suffix =>
    rw [Literal.value?] at h
    split at h
    next hm =>
      obtain rfl := Option.some.inj h
      cases hn
      exact ⟨Int.lt_of_lt_of_le (by decide) (Int.natCast_nonneg m), Int.ofNat_lt.mpr hm⟩
    next => cases h
  | fraction =>
    obtain ⟨x, -, rfl⟩ := Option.map_eq_some_iff.mp h
    cases hn
  | opaqueText => cases h

theorem opposable_negate {value other : Json} (hvalue : value.Opposable)
    (h : negate value = some other) : other.Opposable := by
  intro n hn
  cases value with
  | number number =>
    cases hsigned : number.toSigned? with
    | none =>
      rw [negate, hsigned] at h
      obtain rfl := Option.some.inj h
      cases hn
    | some i =>
      rw [negate, hsigned] at h
      obtain rfl := Option.some.inj h
      cases hn
      obtain ⟨rfl, hi⟩ := eq_of_toSigned? hsigned
      have hgreatest : -i < Int.pow 2 63 := Int.neg_lt_of_neg_lt (hvalue i .here).1
      exact ⟨Int.neg_lt_neg hi, Int.lt_trans hgreatest (by decide)⟩
  | null | bool | string | array | object => cases h

theorem Evaluated.opposable {value : Json} (h : Evaluated value) : value.Opposable := by
  induction h with
  | null =>
    intro n hn
    cases hn
  | literal h => exact opposable_literal h
  | negate _ h ih => exact opposable_negate ih h
  | array _ ih =>
    intro n hn
    cases hn with
    | item hitem hn => exact ih _ hitem n hn
  | object _ ih =>
    intro n hn
    cases hn with
    | member hentry hn => exact ih _ (Members.mem_of_mem_ofList hentry) n hn

namespace Invariant

variable {c : Context} {p : Shape → Prop}

theorem met_step (h : Invariant c p) (parameters : List Parameter) {s : Scan} (hs : Met p s)
    (step : Step) : Met p (s.step c parameters step) := by
  have hkept := h.kept_met parameters
  cases step with
  | assign name value => exact @hkept.bind s s hs (some name) value
  | record e => exact @hkept.record s s hs e
  | recordEmpty => exact @hkept.recordEmpty s s hs

theorem met_run (h : Invariant c p) (parameters : List Parameter) (steps : List Step) {s : Scan}
    (hs : Met p s) : Met p (Scan.run c parameters steps s) := by
  induction steps generalizing s with
  | nil => exact hs
  | cons step steps ih => exact ih (h.met_step parameters hs step)

end Invariant

theorem knows_after (c : Context) (parameters : List Parameter) (steps : List Step) :
    Knows (Scan.after c parameters steps).environment :=
  ((invariant_evaluated c).met_run parameters steps
    ⟨.nil, fun _ h => absurd h List.not_mem_nil⟩).environment

/-- However far a pass through a body has got, no integer in the values of its local names, or in
the value of any expression there, is the least one of the signed range. So what changes its sign as
an integer of that range stays in it. -/
theorem opposable_after (c : Context) (f : Function) (count : Nat) :
    let v := Scan.after c (parametersOf c f.params) ((stepsOf f).take count)
    (∀ name shape, v.environment.lookup name = some shape → shape.All Json.Opposable) ∧
      (∀ e value, v.value? e = some value → value.Opposable) ∧
      ∀ e number i, v.value? e = some (.number number) → number.toSigned? = some i →
        i ≠ -(Int.pow 2 63) ∧ -(Int.pow 2 63) < -i ∧ -i < Int.pow 2 63 := by
  intro v
  have hknows : Knows v.environment := knows_after c _ _
  have hvalue : ∀ e value, v.value? e = some value → value.Opposable :=
    fun e _ h => (Knows.evaluated_value c hknows e h).opposable
  refine ⟨fun name shape h =>
    (hknows name shape h).imp fun _ => Evaluated.opposable, hvalue, fun e number i h hsigned => ?_⟩
  obtain ⟨rfl, hi⟩ := eq_of_toSigned? hsigned
  have hleast : -(Int.pow 2 63) < i := (hvalue e _ h i .here).1
  exact ⟨Int.ne_of_gt hleast, Int.neg_lt_neg hi, Int.neg_lt_of_neg_lt hleast⟩

def opposing : Function :=
  .mk [] "show" [] []
    [.bind (.name "least") [] (some (.negate (.lit (.integer 9223372036854775807 "")))) none,
      .expr (.negate (localNamed "least")) false]

theorem opposable_least :
    let v := Scan.after presenter.context [] ((stepsOf opposing).take 1)
    let i : Int := -9223372036854775807
    v.value? (localNamed "least") = some (.number (.int i)) ∧ (Number.int i).toSigned? = some i ∧
      i ≠ -(Int.pow 2 63) ∧ -(Int.pow 2 63) < -i ∧ -i < Int.pow 2 63 := by
  intro v i
  have hlookup : v.environment.lookup "least" = some (.literal (.number (.int i))) := by
    have hlast := @Scan.lookup_run_of_last presenter.context [] "least" []
      (.negate (.lit (.integer 9223372036854775807 ""))) [] nofun {}
    rw [Evaluator.evaluate_eq] at hlast
    exact hlast
  have hvalue : v.value? (localNamed "least") = some (.number (.int i)) := by
    have hlocal : v.value? (localNamed "least") = localValue? v.environment "least" := rfl
    rw [hlocal, localValue?, if_neg (by decide), hlookup]
  have hsigned : (Number.int i).toSigned? = some i := rfl
  exact ⟨hvalue, hsigned, (opposable_after presenter.context opposing 1).2.2 _ _ i hvalue hsigned⟩

end Handler

end ApiContract
