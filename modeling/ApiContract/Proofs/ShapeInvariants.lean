import ApiContract.Proofs.DeferredCode
import ApiContract.Proofs.ScanRuns

namespace ApiContract.Handler

open Source

def Environment.Holds (p : Shape → Prop) (env : Environment) : Prop :=
  ∀ name shape, env.lookup name = some shape → p shape

namespace Environment.Holds

variable {p : Shape → Prop}

theorem nil : Environment.Holds p [] := by
  intro name shape h
  cases h

theorem bind {env : Environment} (h : Environment.Holds p env) (name : String) {shape : Shape}
    (hshape : p shape) : Environment.Holds p (env.bind name shape) := by
  intro other found hfound
  by_cases hname : other = name
  · rw [hname, Environment.lookup_bind_self] at hfound
    exact Option.some.inj hfound ▸ hshape
  · rw [Environment.lookup_bind_of_ne hname] at hfound
    exact h other found hfound

end Environment.Holds

/-- Every way in which an analysis makes a shape keeps to shapes of this kind. -/
structure Invariant (c : Context) (p : Shape → Prop) : Prop where
  value :
      ∀ env, Environment.Holds p env → ∀ e value, value? c env e = some value → p (.literal value)
  ofType : ∀ type, p (.ofType type)
  unresolved : p .unresolved
  paginate : ∀ shape, p shape → p shape.paginate
  constructed : ∀ parameters env scope found source, p source →
    p (Evaluator.constructed ⟨c, parameters, env⟩ scope found source)

namespace Invariant

variable {c : Context} {p : Shape → Prop}

theorem null (h : Invariant c p) : p (.literal .null) := h.value [] .nil (.tuple []) .null rfl

section

variable {v : Evaluator} (h : Invariant v.context p) (henv : Environment.Holds p v.environment)
include h henv

theorem named {e : Expr} {shape : Shape} (hshape : v.named? e = some shape) : p shape := by
  unfold Evaluator.named? at hshape
  split at hshape
  · cases hshape
  split at hshape
  · cases hshape
  split at hshape
  next found hfound =>
    obtain rfl := Option.some.inj hshape
    exact henv _ _ hfound
  next =>
    unfold Evaluator.parameterShape? at hshape
    split at hshape
    · obtain rfl := Option.some.inj hshape
      exact h.ofType _
    · obtain rfl := Option.some.inj hshape
      exact h.ofType _
    · cases hshape

theorem chainShape {e : Expr} {shape : Shape} (hshape : v.chainShape? e = some shape) :
    p shape := by
  unfold Evaluator.chainShape? at hshape
  split at hshape
  · exact h.named henv hshape
  · exact h.named henv hshape
  · obtain rfl := Option.some.inj hshape
    cases hnamed : v.named? _ with
    | none => exact h.unresolved
    | some found => exact h.named henv hnamed
  · obtain ⟨found, hfound, rfl⟩ := Option.map_eq_some_iff.mp hshape
    split
    · exact h.paginate found (h.named henv hfound)
    · exact h.named henv hfound
  · cases hshape

/-- It holds of whatever an expression is read as. -/
theorem evaluate (e : Expr) : p (v.evaluate e) := by
  induction hsize : sizeOf e using Nat.strongRecOn generalizing e with
  | ind size ih =>
    rw [Evaluator.evaluate_eq]
    cases hvalue : v.value? (peel e) with
    | some value => exact h.value v.environment henv (peel e) value hvalue
    | none =>
      cases hchain : v.chainShape? (peel e) with
      | some shape => exact h.chainShape henv hchain
      | none =>
        cases hfound : firstConstruction? v.context (peel e) with
        | none => exact h.unresolved
        | some found =>
          refine h.constructed _ _ (peel e) found _ ?_
          cases hx : found.first with
          | none => exact h.unresolved
          | some x =>
            have hlt : sizeOf x < size := hsize ▸ Nat.lt_of_lt_of_le
              (sizeOf_lt_of_firstConstruction hfound hx) (sizeOf_peel_le e)
            exact ih (sizeOf x) hlt x rfl

theorem transformed {e : Expr} {shape : Shape} (hshape : v.transformed? e = some shape) :
    p shape := by
  unfold Evaluator.transformed? at hshape
  split at hshape
  next found hfound =>
    split at hshape
    · obtain rfl := Option.some.inj hshape
      refine h.constructed _ _ e found _ ?_
      cases found.first with
      | none => exact h.unresolved
      | some x => exact h.evaluate henv x
    · cases hshape
  next => cases hshape

theorem response (e : Expr) : p (v.response e).shape := by
  unfold Evaluator.response
  dsimp only
  split
  · exact h.null
  split
  next shape hshape => exact h.transformed henv hshape
  next =>
    split
    next body _ _ => exact h.evaluate henv body
    next => exact h.evaluate henv _

end

/-- It holds of all that a pass has met. -/
structure Met (p : Shape → Prop) (s : Scan) : Prop where
  environment : Environment.Holds p s.environment
  responses : ∀ response ∈ s.responses, p response.shape

theorem Met.respond {s : Scan} (hs : Met p s) {response : Response} (hresponse : p response.shape) :
    Met p { s with responses := s.responses ++ [response] } := by
  refine ⟨hs.environment, fun other hother => ?_⟩
  obtain hother | hother := List.mem_append.mp hother
  · exact hs.responses other hother
  · obtain rfl := List.mem_singleton.mp hother
    exact hresponse

theorem kept_met (h : Invariant c p) (parameters : List Parameter) :
    Scan.Kept c c parameters parameters fun s _ => Met p s := by
  apply Scan.Kept.of_steps
  · exact fun hs e => hs.respond (h.response (v := ⟨c, parameters, _⟩) hs.environment e)
  · exact fun hs => hs.respond h.null
  · intro s hs name e
    cases name with
    | none => exact hs
    | some name =>
      have hshape := h.evaluate (v := s.evaluator c parameters) hs.environment e
      exact ⟨hs.environment.bind name hshape, hs.responses⟩

theorem responses (h : Invariant c p) (f : Function) :
    ∀ response ∈ (ofFunction c f).responses, p response.shape := by
  have hfresh : Met p {} := ⟨.nil, fun _ hresponse => absurd hresponse List.not_mem_nil⟩
  exact ((h.kept_met (parametersOf c f.params)).body hfresh f.body).responses

end Invariant

end ApiContract.Handler
