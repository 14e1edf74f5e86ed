import ApiContract.Proofs.ScanRuns
import ApiContract.Handler.Analysis

namespace ApiContract.Handler

open Source

def transparentPaths : List (List String) :=
  [["Ok"], ["Some"], ["Box", "new"], ["Arc", "new"], ["Rc", "new"]]

/-- A form around an expression that does not change what it stands for. -/
inductive Wrapper where
  | paren
  | reference
  | await
  | attempt
  | call (path : Path) (inner : List Expr) (hpath : path.names ∈ transparentPaths)
  | method (name : String) (inner args : List Expr) (hname : name ∈ transparentMethods)
      (hargs : args.length ≤ 1)

namespace Wrapper

def around : Wrapper → Expr → Expr
  | paren, e => .paren e
  | reference, e => .reference e
  | await, e => .await e
  | attempt, e => .attempt e
  | call path inner _, e => .call (.path path inner) [e]
  | method name inner args _ _, e => .method e name inner args

def stack (ws : List Wrapper) (e : Expr) : Expr := ws.foldr around e

theorem call_transparent {path : Path} (hpath : path.names ∈ transparentPaths) (inner : List Expr) :
    isTransparentCall (.path path inner) = true := by
  have hall : ∀ names ∈ transparentPaths,
      transparentCalls.contains (String.intercalate "::" names) = true := by
    decide
  exact hall path.names hpath

theorem method_transparent {name : String} {args : List Expr} (hname : name ∈ transparentMethods)
    (hargs : args.length ≤ 1) : (args.length ≤ 1 && transparentMethods.contains name) = true := by
  simp [hname, hargs]

theorem peel_around (w : Wrapper) (e : Expr) : peel (w.around e) = peel e := by
  cases w with
  | paren | reference | await | attempt => rfl
  | call path inner hpath => rw [around, peel, if_pos (call_transparent hpath inner)]
  | method name inner args hname hargs => rw [around, peel, if_pos (method_transparent hname hargs)]

theorem peel_stack (ws : List Wrapper) (e : Expr) : peel (stack ws e) = peel e := by
  induction ws with
  | nil => rfl
  | cons w ws ih => exact (w.peel_around _).trans ih

end Wrapper

namespace Evaluator

variable (v : Evaluator)

theorem status?_around (w : Wrapper) (e : Expr) : v.status? (w.around e) = v.status? e := by
  cases w with
  | paren | reference | await | attempt => rfl
  | call path inner hpath =>
    rw [Wrapper.around, status?, Wrapper.call_transparent hpath, Bool.true_or, if_pos rfl]
  | method name inner args hname hargs =>
    rw [Wrapper.around, status?, if_pos (Wrapper.method_transparent hname hargs)]

theorem layers_wrapper (w : Wrapper) (status : Option Nat) (failed : Bool) (e : Expr) :
    v.layers status failed (w.around e) = v.layers status failed e := by
  cases w with
  | paren | reference | await | attempt => rfl
  | call path inner hpath =>
    rw [Wrapper.around, layers, if_pos (Wrapper.call_transparent hpath inner)]
  | method name inner args hname hargs =>
    rw [Wrapper.around, layers, if_pos (Wrapper.method_transparent hname hargs)]

theorem layers_stack (ws : List Wrapper) (status : Option Nat) (failed : Bool) (e : Expr) :
    v.layers status failed (Wrapper.stack ws e) = v.layers status failed e := by
  induction ws with
  | nil => rfl
  | cons w ws ih => exact (v.layers_wrapper w status failed _).trans ih

/-- What may stand around the payload of a return. -/
inductive Layer where
  | wrapper (w : Wrapper)
  | error (callee : Expr) (h : callName? callee = some "Err")
  /-- A tuple that starts with a status and ends with what it stands around. -/
  | status (first : Expr) (code : Nat) (between : List Expr) (h : v.status? first = some code)

namespace Layer

variable {v}

def around : Layer v → Expr → Expr
  | wrapper w, e => w.around e
  | error callee _, e => .call callee [e]
  | status first _ between _, e => .tuple (first :: (between ++ [e]))

def code? : Layer v → Option Nat
  | status _ code _ _ => some code
  | _ => none

def isError : Layer v → Bool
  | error .. => true
  | _ => false

def enclose (ls : List (Layer v)) (e : Expr) : Expr := ls.foldr around e

def codes (ls : List (Layer v)) : List Nat := ls.filterMap code?

end Layer

variable {v}

theorem lastLayers_concat (status : Option Nat) (failed : Bool) (between : List Expr) (e : Expr) :
    v.lastLayers status failed (between ++ [e]) = v.layers status failed e := by
  induction between with
  | nil => rfl
  | cons first between ih =>
    rw [List.cons_append, lastLayers, if_neg (by simp)]
    exact ih

theorem not_isTransparentCall_of_error {callee : Expr} (h : callName? callee = some "Err") :
    isTransparentCall callee = false := by
  rw [isTransparentCall, h]
  decide

/-- Layers are gone through from the outside to the inside. -/
theorem layers_enclose (ls : List (Layer v)) (status : Option Nat) (failed : Bool) (e : Expr) :
    v.layers status failed (Layer.enclose ls e) =
      v.layers ((Layer.codes ls).getLast?.or status) (failed || ls.any Layer.isError) e := by
  induction ls generalizing status failed with
  | nil => simp [Layer.enclose, Layer.codes]
  | cons l ls ih =>
    cases l with
    | wrapper w => exact (v.layers_wrapper w status failed _).trans (ih status failed)
    | error callee h =>
      have htransparent := not_isTransparentCall_of_error h
      have hstep : v.layers status failed (.call callee [Layer.enclose ls e]) =
          v.layers status true (Layer.enclose ls e) := by
        rw [layers, htransparent, if_neg Bool.false_ne_true, if_pos h]
      refine hstep.trans ((ih status true).trans ?_)
      simp [Layer.codes, Layer.code?, Layer.isError]
    | status first code between h =>
      have hstep : v.layers status failed (.tuple (first :: (between ++ [Layer.enclose ls e]))) =
          v.layers (some code) failed (Layer.enclose ls e) := by
        rw [layers, if_neg (by simp), h]
        exact lastLayers_concat (some code) failed between _
      refine hstep.trans ((ih (some code) failed).trans ?_)
      have hlast : (Layer.codes (.status first code between h :: ls)).getLast? =
          some ((Layer.codes ls).getLast?.getD code) := List.getLast?_cons
      rw [hlast]
      cases (Layer.codes ls).getLast? <;> rfl

variable (v)

/-- An expression that is one more layer around something: an error, or a tuple that starts with a
status. -/
def IsLayered : Expr → Prop
  | .call callee [_] => callName? callee = some "Err"
  | .tuple (first :: _ :: _) => (v.status? first).isSome
  | _ => False

/-- What is inside all layers. Transparent forms around a payload are layers of their own, so that
it is told by what they hold. -/
structure IsPayload (p : Expr) : Prop where
  notLayered : ¬ v.IsLayered (peel p)
  /-- The payload is no status itself. -/
  noStatus : v.bareStatus? (peel p) = none
  /-- No responder is given a status. -/
  noStatusGiven : ∀ x ∈ p.nodes isImmediate, ∀ body second rest,
    v.responded? x = some (body, second :: rest) → v.status? second = none

variable {v}

theorem layers_of_not_isLayered {p : Expr} (h : ¬ v.IsLayered (peel p)) (status : Option Nat)
    (failed : Bool) : v.layers status failed p = ⟨status, failed, peel p⟩ := by
  fun_induction peel p with
  | case1 e ih | case2 e ih | case3 e ih | case4 e ih => exact ih h
  | case5 callee arg htransparent ih => rw [layers, if_pos htransparent, ih h]
  | case6 callee arg htransparent =>
    have herror : ¬ callName? callee = some "Err" := h
    rw [layers, if_neg htransparent, if_neg herror]
  | case7 receiver name inner args htransparent ih => rw [layers, if_pos htransparent, ih h]
  | case8 receiver name inner args htransparent => rw [layers, if_neg htransparent]
  | case9 e hparen hreference hawait hattempt hcall hmethod =>
    cases e with
    | paren e => exact absurd rfl (hparen e)
    | reference e => exact absurd rfl (hreference e)
    | await e => exact absurd rfl (hawait e)
    | attempt e => exact absurd rfl (hattempt e)
    | method receiver name inner args => exact absurd rfl (hmethod receiver name inner args)
    | call callee args =>
      rcases args with _ | ⟨arg, _ | ⟨second, rest⟩⟩
      · rfl
      · exact absurd rfl (hcall callee arg)
      · rfl
    | tuple elements =>
      rcases elements with _ | ⟨first, _ | ⟨second, rest⟩⟩
      · rfl
      · rfl
      · have hnone : v.status? first = none := Option.not_isSome_iff_eq_none.mp h
        rw [layers, if_neg (by simp), hnone]
    | _ => rfl

theorem mem_nodes_peel {p x : Expr} (h : x ∈ (peel p).nodes isImmediate) :
    x ∈ p.nodes isImmediate := by
  fun_induction peel p with
  | case1 e ih | case2 e ih | case3 e ih | case4 e ih => exact List.mem_cons_of_mem _ (ih h)
  | case5 callee arg _ ih =>
    rw [Expr.nodes, nodesOfAll, nodesOfAll, List.append_nil]
    exact List.mem_cons_of_mem _ (List.mem_append_right _ (ih h))
  | case6 => exact h
  | case7 receiver name inner args _ ih =>
    rw [Expr.nodes, List.append_assoc]
    exact List.mem_cons_of_mem _ (List.mem_append_left _ (ih h))
  | case8 => exact h
  | case9 => exact h

theorem status_of_payload {e p : Expr} {found : Layers} (hp : v.IsPayload p)
    (he : v.layers none false e = found) (hpayload : found.payload = peel p) :
    (v.response e).status = found.fallback := by
  rw [response, he, hpayload, hp.noStatus]
  dsimp only
  split
  · rfl
  split
  next body rest hfound =>
    obtain ⟨x, hx, hresponded⟩ := List.exists_of_findSome?_eq_some hfound
    have hnone : rest.head?.bind v.status? = none := by
      cases rest with
      | nil => rfl
      | cons second rest => exact hp.noStatusGiven x (mem_nodes_peel hx) body second rest hresponded
    rw [hnone, Option.getD_none]
  next => rfl

theorem valid_of_validStatus? {n code : Nat} (h : validStatus? n = some code) :
    Status.valid code = true := by
  unfold validStatus? at h
  split at h
  next hvalid => exact Option.some.inj h ▸ hvalid
  next => cases h

theorem valid_of_ofConstant? {name : String} {code : Nat}
    (h : Status.ofConstant? name = some code) : Status.valid code = true := by
  have htable : ∀ entry ∈ Status.table, Status.valid entry.code = true := by decide
  obtain ⟨entry, hentry, rfl⟩ := Option.map_eq_some_iff.mp h
  exact htable entry (List.mem_of_find?_eq_some hentry)

theorem valid_of_constantStatus? {path : Path} {code : Nat} (h : constantStatus? path = some code) :
    Status.valid code = true := by
  unfold constantStatus? at h
  split at h
  · exact valid_of_ofConstant? h
  · cases h

theorem valid_of_status? {e : Expr} {code : Nat} (h : v.status? e = some code) :
    Status.valid code = true := by
  fun_induction status? v e with
  | case1 e ih | case2 e ih | case3 e ih | case4 e ih => exact ih h
  | case5 n suffix => exact valid_of_validStatus? h
  | case6 path inner name hname n hn =>
    obtain ⟨m, -, hvalid⟩ := Option.bind_eq_some_iff.mp h
    exact valid_of_validStatus? hvalid
  | case7 => cases h
  | case8 path inner hname => exact valid_of_constantStatus? h
  | case9 callee arg hcallee ih => exact ih h
  | case10 => cases h
  | case11 receiver name inner args htransparent ih => exact ih h
  | case12 => cases h
  | case13 => cases h

mutual

theorem valid_of_layers {status : Option Nat} (hstatus : ∀ code ∈ status, Status.valid code = true)
    (failed : Bool) (e : Expr) :
    ∀ code ∈ (v.layers status failed e).status, Status.valid code = true := by
  match e with
  | .paren e | .reference e | .await e | .attempt e => exact valid_of_layers hstatus failed e
  | .call callee [arg] =>
    rw [layers]
    split
    · exact valid_of_layers hstatus failed arg
    split
    · exact valid_of_layers hstatus true arg
    · exact hstatus
  | .call _ [] | .call _ (_ :: _ :: _) => exact hstatus
  | .method receiver name inner args =>
    rw [layers]
    split
    · exact valid_of_layers hstatus failed receiver
    · exact hstatus
  | .tuple [] | .tuple [_] => exact hstatus
  | .tuple (first :: second :: rest) =>
    rw [layers, if_neg (by simp)]
    cases hcode : v.status? first with
    | none => exact hstatus
    | some code =>
      refine valid_of_lastLayers ?_ failed (second :: rest)
      rintro _ ⟨⟩
      exact valid_of_status? hcode
  | .lit _ | .path .. | .negate _ | .array _ | .record .. | .field _ | .index .. | .assign ..
  | .ret _ | .closure _ | .async _ | .branch .. | .cases .. | .block _ | .unchecked _ | .json _
  | .vec _ | .expansion | .compound _ =>
    exact hstatus

theorem valid_of_lastLayers {status : Option Nat}
    (hstatus : ∀ code ∈ status, Status.valid code = true) (failed : Bool) (es : List Expr) :
    ∀ code ∈ (v.lastLayers status failed es).status, Status.valid code = true := by
  match es with
  | [] => exact hstatus
  | [e] => exact valid_of_layers hstatus failed e
  | _ :: second :: rest => exact valid_of_lastLayers hstatus failed (second :: rest)

end

theorem Layers.valid_fallback {found : Layers}
    (h : ∀ code ∈ found.status, Status.valid code = true) : Status.valid found.fallback = true := by
  rw [fallback]
  cases hstatus : found.status with
  | some code => exact h code hstatus
  | none => cases found.failed <;> rfl

theorem valid_of_bareStatus? {e : Expr} {code : Nat} (h : v.bareStatus? e = some code) :
    Status.valid code = true := by
  unfold bareStatus? at h
  split at h
  · exact valid_of_constantStatus? h
  · split at h
    · exact valid_of_status? h
    · cases h
  · cases h

theorem valid_response (e : Expr) : Status.valid (v.response e).status = true := by
  have hfallback : Status.valid (v.layers none false e).fallback = true :=
    Layers.valid_fallback (valid_of_layers (by simp) false e)
  rw [response]
  split
  next code hcode => exact valid_of_bareStatus? hcode
  split
  · exact hfallback
  split
  next body rest _ =>
    dsimp only
    cases hcode : rest.head?.bind v.status? with
    | none => exact hfallback
    | some code =>
      obtain ⟨second, -, hsecond⟩ := Option.bind_eq_some_iff.mp hcode
      exact valid_of_status? hsecond
  · exact hfallback

end Evaluator

namespace Scan

def Valid (s : Scan) : Prop := ∀ response ∈ s.responses, Status.valid response.status = true

theorem Valid.respond {s : Scan} (h : s.Valid) {response : Response}
    (hresponse : Status.valid response.status = true) :
    Valid { s with responses := s.responses ++ [response] } := by
  intro other hother
  obtain hother | hother := List.mem_append.mp hother
  · exact h other hother
  · exact List.mem_singleton.mp hother ▸ hresponse

theorem kept_valid (c : Context) (parameters : List Parameter) :
    Kept c c parameters parameters fun s _ => s.Valid := by
  apply Kept.of_steps
  · exact fun hs e => hs.respond (Evaluator.valid_response e)
  · exact fun hs => hs.respond rfl
  · intro s hs name e
    cases name with
    | none => exact hs
    | some name => exact hs

end Scan

theorem valid_responses (c : Context) (f : Function) :
    ∀ response ∈ (ofFunction c f).responses, Status.valid response.status = true :=
  (Scan.kept_valid c (parametersOf c f.params)).body (fun _ h => absurd h List.not_mem_nil) f.body

/-- Every status lies between 100 and 599. The status of a return is that of the innermost tuple
around its payload; without one it is 500 if there is an error around the payload, and else 200. -/
theorem status_of_return :
    (∀ (v : Evaluator) (e : Expr), 100 ≤ (v.response e).status ∧ (v.response e).status ≤ 599) ∧
      (∀ (c : Context) (f : Function),
        ∀ response ∈ (ofFunction c f).responses, 100 ≤ response.status ∧ response.status ≤ 599) ∧
      ∀ (v : Evaluator) (ls : List v.Layer) (p : Expr), v.IsPayload p →
        (v.response (Evaluator.Layer.enclose ls p)).status = (Evaluator.Layer.codes
            ls).getLast?.getD (if ls.any Evaluator.Layer.isError then 500 else 200) := by
  have hrange : ∀ {code : Nat}, Status.valid code = true → 100 ≤ code ∧ code ≤ 599 := by
    intro code h
    simpa [Status.valid] using h
  refine ⟨fun v e => hrange (Evaluator.valid_response e), ?_, ?_⟩
  · exact fun c f response h => hrange (valid_responses c f response h)
  · intro v ls p hp
    have hlayers := Evaluator.layers_enclose ls none false p
    rw [Evaluator.layers_of_not_isLayered hp.notLayered] at hlayers
    rw [Evaluator.status_of_payload hp hlayers rfl, Evaluator.Layers.fallback, Option.or_none,
      Bool.false_or]

def pathTo (names : List String) : Path := .mk false (names.map fun name => .mk name .none)

def presenter : Evaluator where
  context :=
    { scope := .ofItems "src/lib.rs" ["crate"] []
      capabilities := CapabilityIndex.classifier ⟨fun
        | .domainObject => ["crate::User"]
        | .transformer => ["crate::UserResource"]
        | .validator => []⟩
      conventions := {}
      self := none }
  parameters := []
  environment := []

theorem length_nil_le_one : ([] : List Expr).length ≤ 1 := Nat.zero_le 1

def conflict : List presenter.Layer :=
  [.error (.path (pathTo ["Err"]) []) (by decide),
    .status (.path (pathTo ["StatusCode", "CONFLICT"]) []) 409 [] (by decide),
    .wrapper (.method "into_response" [] [] (by decide) length_nil_le_one)]

def taken : Expr := .call (.path (pathTo ["Json"]) []) [.lit (.string "taken")]

theorem status_of_conflict : presenter.IsPayload taken ∧
    (presenter.response (Evaluator.Layer.enclose conflict taken)).status = 409 := by
  have hpayload : presenter.IsPayload taken := by
    have hjson : ¬ callName? (.path (pathTo ["Json"]) []) = some "Err" := by decide
    refine ⟨hjson, rfl, ?_⟩
    intro x hx body second rest h
    have hnodes :
        taken.nodes isImmediate = [taken, .path (pathTo ["Json"]) [], .lit (.string "taken")] := rfl
    rw [hnodes] at hx
    obtain rfl | rfl | rfl :
        x = taken ∨ x = .path (pathTo ["Json"]) [] ∨ x = .lit (.string "taken") := by
      simpa using hx
    · cases h
    · cases h
    · cases h
  exact ⟨hpayload, status_of_return.2.2 presenter conflict taken hpayload⟩

end ApiContract.Handler
