import ApiContract.Proofs.LastAssignment
import ApiContract.Proofs.SelectedResponses
import Mathlib.Logic.Relation

namespace ApiContract.Handler

open Source

/-- Passing through an expression binds, assigns and returns nothing. -/
def IsStill (e : Expr) : Prop := Step.ofExpr false e = []

def guardOf (condition value : Expr) (closed : Bool) : Stmt :=
  .expr (.branch condition [.expr (.ret (some value)) true] none) closed

/-- A body takes on a guard, anywhere before its last statement, that answers with no success where
it stands. -/
inductive TakesGuard (c : Context) (parameters : List Parameter) :
    List Stmt → List Stmt → Prop where
  | intro (before : List Stmt) {after : List Stmt} (hafter : after ≠ []) {condition value : Expr}
      (closed : Bool) (hcondition : IsStill condition) (hvalue : IsStill value) (hstatus :
      ¬ ((Scan.after c parameters (Step.ofStmts false before)).response value).Succeeds) :
      TakesGuard c parameters (before ++ after) (before ++ guardOf condition value closed :: after)

namespace Step

theorem ofStmts_append (tail : Bool) (before : List Stmt) {after : List Stmt}
    (hafter : after ≠ []) :
    ofStmts tail (before ++ after) = ofStmts false before ++ ofStmts tail after := by
  have hmore : ∀ before : List Stmt, (before ++ after).isEmpty = false :=
    fun before => by simp [hafter]
  induction before with
  | nil => rfl
  | cons stmt before ih =>
    rw [List.cons_append]
    cases stmt with
    | bind pattern inner value otherwise =>
      cases value with
      | none => rw [ofStmts, ofStmts, ih]
      | some value => rw [ofStmts, ofStmts, ih, ← List.append_assoc]
    | item => rw [ofStmts, ofStmts, ih]
    | expr e closed =>
      rw [ofStmts, ofStmts, ih, hmore, List.append_assoc, Bool.and_false, Bool.false_and,
        Bool.false_and, Bool.false_and]
    | expansion e closed =>
      rw [ofStmts, ofStmts, ih, hmore, List.append_assoc, Bool.and_false, Bool.false_and,
        Bool.false_and, Bool.false_and]

theorem ofStmts_guardOf (tail : Bool) {condition value : Expr} (hcondition : IsStill condition)
    (hvalue : IsStill value) (closed : Bool) {after : List Stmt} (hafter : after ≠ []) :
    ofStmts tail (guardOf condition value closed :: after) =
      record value :: ofStmts tail after := by
  have hmore : after.isEmpty = false := by simpa using hafter
  rw [guardOf, ofStmts, hmore, Bool.and_false, Bool.false_and, ofExpr, hcondition, ofStmts, ofStmts,
    ofExpr, hvalue, ofOption]
  rfl

end Step

namespace Scan

variable {c : Context} {parameters : List Parameter}

theorem run_recorded (steps : List Step) (environment : Environment)
    (recorded responses : List Response) :
    (run c parameters steps ⟨environment, recorded ++ responses⟩).responses =
      recorded ++ (run c parameters steps ⟨environment, responses⟩).responses := by
  induction steps generalizing environment responses with
  | nil => rfl
  | cons step steps ih =>
    cases step with
    | assign name value => exact ih _ responses
    | record e =>
      have hassoc :=
        ih environment (responses ++ [(Evaluator.mk c parameters environment).response e])
      rwa [← List.append_assoc] at hassoc
    | recordEmpty =>
      have hassoc := ih environment (responses ++ [⟨200, .literal .null⟩])
      rwa [← List.append_assoc] at hassoc

end Scan

variable {c : Context} {parameters : List Parameter} {body body' : List Stmt}

theorem insertIdx_length_append {α : Type} (before after : List α) (x : α) :
    (before ++ after).insertIdx before.length x = before ++ x :: after := by
  induction before with
  | nil => rfl
  | cons y before ih => exact congrArg (y :: ·) ih

/-- A guard has its response where it stands, and the others keep theirs. -/
theorem TakesGuard.responsesOf_eq (h : TakesGuard c parameters body body') :
    ∃ k r, k ≤ (responsesOf c parameters body).length ∧ ¬ r.Succeeds ∧
      responsesOf c parameters body' = (responsesOf c parameters body).insertIdx k r := by
  cases h with
  | @intro before after hafter condition value closed hcondition hvalue hstatus =>
    let s := Scan.run c parameters (Step.ofStmts false before) {}
    let later := (Scan.run c parameters (Step.ofStmts true after) ⟨s.environment, []⟩).responses
    let r := (Scan.after c parameters (Step.ofStmts false before)).response value
    have hbody : responsesOf c parameters (before ++ after) = s.responses ++ later := by
      rw [responsesOf, Scan.stmts_eq_run, Step.ofStmts_append true before hafter, Scan.run_append,
        ← Scan.run_recorded, List.append_nil]
    have hbody' : responsesOf c parameters (before ++ guardOf condition value closed :: after) =
        s.responses ++ r :: later := by
      rw [responsesOf, Scan.stmts_eq_run, Step.ofStmts_append true before (List.cons_ne_nil _ _),
        Scan.run_append, Step.ofStmts_guardOf true hcondition hvalue closed hafter,
        List.append_cons, ← Scan.run_recorded, List.append_nil]
      rfl
    refine ⟨s.responses.length, r, ?_, hstatus, ?_⟩
    · rw [hbody, List.length_append]
      exact Nat.le_add_right _ _
    · rw [hbody, hbody', insertIdx_length_append]

/-- Where a success is recorded, guards that answer with none leave the choice as it is. -/
theorem select_of_takesGuards (h : Relation.ReflTransGen (TakesGuard c parameters) body body')
    (hsuccess : ∃ r ∈ responsesOf c parameters body, r.Succeeds) :
    Response.select (responsesOf c parameters body') =
      Response.select (responsesOf c parameters body) := by
  have hall : (∃ r ∈ responsesOf c parameters body', r.Succeeds) ∧
      Response.select (responsesOf c parameters body') =
        Response.select (responsesOf c parameters body) := by
    induction h with
    | refl => exact ⟨hsuccess, rfl⟩
    | tail _ hguard ih =>
      obtain ⟨⟨other, hother, hsucceeds⟩, hselect⟩ := ih
      obtain ⟨k, r, hk, hr, hresponses⟩ := hguard.responsesOf_eq
      rw [hresponses, Response.select_insertIdx_of_not_succeeds ⟨other, hother, hsucceeds⟩ hr hk]
      exact ⟨⟨other, (List.mem_insertIdx hk).mpr (.inr hother), hsucceeds⟩, hselect⟩
  exact hall.2

end ApiContract.Handler
