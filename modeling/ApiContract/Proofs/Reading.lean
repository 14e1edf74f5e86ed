import ApiContract.Source.Reading

namespace ApiContract.Source

/-- An identifier as source text spells it. The mark of a raw one belongs to it. -/
def isIdentifier (name : String) : Bool :=
  match name.toList with
  | 'r' :: '#' :: rest => Text.isIdentifier rest
  | spelling => Text.isIdentifier spelling

namespace Token

mutual

def identifiers : Token → List String
  | .ident name => [name]
  | .group _ tokens => identifiersOfAll tokens
  | _ => []

def identifiersOfAll : List Token → List String
  | [] => []
  | token :: tokens => token.identifiers ++ identifiersOfAll tokens

end

def Spelled (tokens : List Token) : Prop :=
  ∀ name ∈ identifiersOfAll tokens, isIdentifier name = true

theorem spelled_nil : Spelled [] := by
  intro name hm
  rw [identifiersOfAll] at hm
  cases hm

theorem spelled_cons (token : Token) (tokens : List Token) :
    Spelled (token :: tokens) ↔
      (∀ name ∈ token.identifiers, isIdentifier name = true) ∧ Spelled tokens := by
  simp only [Spelled, identifiersOfAll, List.forall_mem_append]

theorem spelled_append (tokens more : List Token) :
    Spelled (tokens ++ more) ↔ Spelled tokens ∧ Spelled more := by
  induction tokens with
  | nil => simp [spelled_nil]
  | cons token tokens ih => rw [List.cons_append, spelled_cons, spelled_cons, ih, and_assoc]

theorem spelled_reverse {tokens : List Token} (h : Spelled tokens) : Spelled tokens.reverse := by
  induction tokens with
  | nil => exact h
  | cons token tokens ih =>
    obtain ⟨hfirst, hrest⟩ := (spelled_cons token tokens).mp h
    rw [List.reverse_cons, spelled_append, spelled_cons]
    exact ⟨ih hrest, hfirst, spelled_nil⟩

theorem Spelled.of_suffix {tokens rest : List Token} (h : Spelled tokens) (hs : rest <:+ tokens) :
    Spelled rest := by
  obtain ⟨before, rfl⟩ := hs
  exact ((spelled_append before rest).mp h).2

theorem Spelled.ident {name : String} {tokens : List Token} (h : Spelled (.ident name :: tokens)) :
    isIdentifier name = true :=
  ((spelled_cons _ tokens).mp h).1 name (by simp [identifiers])

theorem Spelled.group {bracket : Bracket} {inner tokens : List Token}
    (h : Spelled (.group bracket inner :: tokens)) : Spelled inner := by
  intro name hm
  exact ((spelled_cons _ tokens).mp h).1 name (by rwa [identifiers])

end Token

namespace Reader

open Token

variable {α β : Type}

/-- Given tokens whose identifiers are spelled as such, a reader gives nothing but what has a
property. -/
def Yields (r : Reader α) (post : α → Prop) : Prop :=
  ∀ tokens a rest, Spelled tokens → r.run tokens = some (a, rest) → post a

namespace Yields

theorem mono {r : Reader α} {post wider : α → Prop} (h : r.Yields post)
    (hw : ∀ a, post a → wider a) : r.Yields wider :=
  fun tokens a rest ht hr => hw a (h tokens a rest ht hr)

theorem any (r : Reader α) : r.Yields fun _ => True := fun _ _ _ _ _ => trivial

theorem pure {a : α} {post : α → Prop} (h : post a) : (Pure.pure a : Reader α).Yields post := by
  intro tokens b rest _ hr
  cases hr
  exact h

theorem failure {post : α → Prop} : (Alternative.failure : Reader α).Yields post :=
  fun _ _ _ _ hr => nomatch hr

theorem bind {r : Reader α} {next : α → Reader β} {post : α → Prop} {goal : β → Prop}
    (h : r.Yields post) (hnext : ∀ a, post a → (next a).Yields goal) :
    (r >>= next).Yields goal := by
  intro tokens b rest ht hb
  change (Reader.bind r next).run tokens = some (b, rest) at hb
  rw [Reader.bind] at hb
  cases hr : r.run tokens with
  | none => simp [hr] at hb
  | some found =>
    obtain ⟨a, middle⟩ := found
    simp only [hr] at hb
    exact hnext a (h tokens a middle ht hr) middle b rest
      (ht.of_suffix (r.suffix tokens a middle hr)) hb

theorem step {r : Reader α} {next : α → Reader β} {goal : β → Prop}
    (hnext : ∀ a, (next a).Yields goal) : (r >>= next).Yields goal :=
  (any r).bind fun a _ => hnext a

theorem failure_step {next : α → Reader β} {goal : β → Prop} :
    ((Alternative.failure : Reader α) >>= next).Yields goal :=
  fun _ _ _ _ hr => nomatch hr

theorem map {r : Reader α} {f : α → β} {post : α → Prop} {goal : β → Prop} (h : r.Yields post)
    (hf : ∀ a, post a → goal (f a)) : (f <$> r).Yields goal :=
  h.bind fun a ha => pure (hf a ha)

theorem ite {c : Prop} [Decidable c] {r other : Reader α} {post : α → Prop} (h : c → r.Yields post)
    (hother : ¬c → other.Yields post) : (if c then r else other).Yields post := by
  split
  next hc => exact h hc
  next hc => exact hother hc

theorem either {c : Prop} [Decidable c] {r other : Reader α} {next : α → Reader β} {post : α → Prop}
    {goal : β → Prop} (h : r.Yields post) (hother : other.Yields post)
    (hnext : ∀ a, post a → (next a).Yields goal) :
    (if c then r >>= next else other >>= next).Yields goal :=
  ite (fun _ => h.bind hnext) fun _ => hother.bind hnext

theorem oneOf {c : Prop} [Decidable c] {r other : Reader α} {next : α → Reader β} {goal : β → Prop}
    (hnext : ∀ a, (next a).Yields goal) : (if c then r >>= next else other >>= next).Yields goal :=
  either (any r) (any other) fun a _ => hnext a

theorem perhaps {c : Prop} [Decidable c] {r : Reader Unit} {next : Unit → Reader β}
    {goal : β → Prop} (hnext : ∀ u, (next u).Yields goal) :
    (if c then r >>= next else next ()).Yields goal :=
  ite (fun _ => step hnext) fun _ => hnext ()

end Yields

end Reader

namespace Reading

open Token Reader

variable {α : Type}

theorem ahead_yields : ahead.Yields Spelled := by
  intro tokens a rest ht hr
  cases hr
  exact ht

theorem anyIdent_yields : anyIdent.Yields fun name => isIdentifier name = true := by
  unfold anyIdent
  refine ahead_yields.bind fun tokens ht => ?_
  split
  · exact Yields.step fun _ => Yields.pure ht.ident
  · exact Yields.failure

theorem ident_yields : ident.Yields fun name => isIdentifier name = true ∧ name ∉ keywords := by
  intro tokens name rest ht hr
  change (if isIdent tokens = true then anyIdent else failure).run tokens = some (name, rest) at hr
  split at hr
  next hident =>
    refine ⟨anyIdent_yields tokens name rest ht hr, ?_⟩
    unfold isIdent at hident
    split at hident
    next =>
      cases hr
      simpa using hident
    next => cases hident
  next => cases hr

theorem all_yields {r : Reader α} {post : α → Prop} (h : r.Yields post) {tokens : List Token}
    {a : α} (ht : Spelled tokens) (ha : all r tokens = some a) : post a := by
  unfold all at ha
  split at ha
  next found hr =>
    cases ha
    exact h tokens a [] ht hr
  next => cases ha

theorem inside_yields {bracket : Bracket} {r : Reader α} {post : α → Prop} (h : r.Yields post) :
    (inside bracket r).Yields post := by
  unfold inside
  refine ahead_yields.bind fun tokens ht => ?_
  split
  next b inner outer =>
    refine Yields.ite (fun _ => Yields.failure_step) fun _ => ?_
    split
    next a ha => exact Yields.step fun _ => Yields.pure (all_yields h ht.group ha)
    next => exact Yields.failure
  next => exact Yields.failure

theorem loop_yields {r : Reader (Option α)} {post : α → Prop}
    (h : r.Yields fun found => ∀ a ∈ found, post a) (fuel : Nat) :
    (loop r fuel).Yields fun found => ∀ a ∈ found, post a := by
  induction fuel with
  | zero => exact Yields.failure
  | succ fuel ih =>
    unfold loop
    refine h.bind fun found hfound => ?_
    cases found with
    | none => exact Yields.pure (List.forall_mem_nil _)
    | some a =>
      exact ih.bind fun others ho => Yields.pure (List.forall_mem_cons.mpr ⟨hfound a rfl, ho⟩)

theorem many_yields {r : Reader (Option α)} {post : α → Prop}
    (h : r.Yields fun found => ∀ a ∈ found, post a) :
    (many r).Yields fun found => ∀ a ∈ found, post a :=
  Yields.step fun _ => loop_yields h _

theorem manyWhile_yields {more : Reader Bool} {r : Reader α} {post : α → Prop} (h : r.Yields post) :
    (manyWhile more r).Yields fun found => ∀ a ∈ found, post a := by
  refine many_yields (Yields.step fun _ => Yields.ite (fun _ => ?_) fun _ => Yields.pure (by simp))
  exact h.bind fun a ha => Yields.pure (by simpa using ha)

theorem commas_yields {r : Reader α} {post : α → Prop} (h : r.Yields post) :
    (commas r).Yields fun found => ∀ a ∈ found, post a := by
  have hgo :
      ∀ fuel, (separated.go (takeOp ",") atEnd r fuel).Yields fun found => ∀ a ∈ found, post a := by
    intro fuel
    induction fuel with
    | zero => exact Yields.failure
    | succ fuel ih =>
      unfold separated.go
      refine Yields.step fun _ =>
        Yields.ite (fun _ => Yields.pure (List.forall_mem_nil _)) fun _ => ?_
      refine h.bind fun a ha => Yields.step fun _ => Yields.ite (fun _ => ?_) fun _ => ?_
      · exact Yields.pure (List.forall_mem_singleton.mpr ha)
      · exact Yields.step fun _ =>
          ih.bind fun others ho => Yields.pure (List.forall_mem_cons.mpr ⟨ha, ho⟩)
  exact Yields.step fun _ => hgo _

end Reading

end ApiContract.Source
