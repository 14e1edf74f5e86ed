import ApiContract.Handler.Analysis
import Mathlib.Data.List.Forall2

namespace ApiContract

namespace Source

/-- What a part of an expression is to it. -/
inductive Role where
  /-- Passed over: deferred code, the left side of an assignment, the pattern and the type of a
  binding. -/
  | skipped
  | entered
  /-- Entered, and the expression ends with it. -/
  | last
  /-- A macro that stands as the last statement: the expression ends with it, and nothing in it is
  read. -/
  | lastMacro
deriving DecidableEq

def Stmt.parts (isLast : Bool) : Stmt → List (Role × Expr)
  | .bind _ inner none otherwise =>
    inner.map (Role.skipped, ·) ++ otherwise.toList.map (Role.skipped, ·)
  | .bind _ inner (some value) otherwise =>
    inner.map (Role.skipped, ·) ++ (Role.entered, value) :: otherwise.toList.map (Role.entered, ·)
  | .item _ => []
  | .expr e closed => [(if isLast && !closed then .last else .entered, e)]
  | .expansion e closed => [(if isLast && !closed then .lastMacro else .skipped, e)]

def partsOfBody : List Stmt → List (Role × Expr)
  | [] => []
  | stmt :: rest => stmt.parts rest.isEmpty ++ partsOfBody rest

def FieldInit.value : FieldInit → Expr
  | mk _ value => value

def Arm.parts : Arm → List (Role × Expr)
  | mk inner guard body =>
    inner.map (Role.entered, ·) ++ guard.toList.map (Role.entered, ·) ++ [(Role.last, body)]

/-- The expressions that stand in an expression, in the order of the text. Items inside a body have
none, and neither have macros. -/
def Expr.parts : Expr → List (Role × Expr)
  | .lit _ | .json _ | .vec _ | .expansion => []
  | .path _ inner => inner.map (Role.entered, ·)
  | .paren e | .reference e | .negate e | .field e | .await e | .attempt e => [(.entered, e)]
  | .tuple es | .array es | .compound es => es.map (Role.entered, ·)
  | .record _ inner fields rest =>
    inner.map (Role.entered, ·) ++ fields.map (fun f => (Role.entered, f.value)) ++
      rest.toList.map (Role.entered, ·)
  | .call callee args => (.entered, callee) :: args.map (Role.entered, ·)
  | .method receiver _ inner args =>
    (.entered, receiver) :: (inner.map (Role.entered, ·) ++ args.map (Role.entered, ·))
  | .index base position => [(.entered, base), (.entered, position)]
  | .assign left right => [(.skipped, left), (.entered, right)]
  | .ret value => value.toList.map (Role.entered, ·)
  | .closure parts => parts.map (Role.skipped, ·)
  | .async body => (partsOfBody body).map fun part => (.skipped, part.2)
  | .branch condition body otherwise =>
    (.entered, condition) :: (partsOfBody body ++ otherwise.toList.map (Role.last, ·))
  | .cases subject arms => (.entered, subject) :: arms.flatMap Arm.parts
  | .block body | .unchecked body => partsOfBody body

/-- Whether the value of an expression is that of one of its parts. -/
def Expr.isForked : Expr → Bool
  | .branch .. | .cases .. | .block _ | .unchecked _ => true
  | _ => false

def Expr.isReturn : Expr → Bool
  | .ret _ => true
  | _ => false

end Source

namespace Handler

open Source

abbrev Place := List Nat

namespace Place

/-- Inner places come before outer ones, and otherwise the order is that of the text. -/
inductive Before : Place → Place → Prop where
  | inner (i : Nat) (p : Place) : Before (i :: p) []
  | earlier {i j : Nat} (h : i < j) (p q : Place) : Before (i :: p) (j :: q)
  | inside (i : Nat) {p q : Place} (h : Before p q) : Before (i :: p) (i :: q)

theorem Before.asymm {p q : Place} (h : Before p q) : ¬ Before q p := by
  intro hback
  induction h with
  | inner i p => cases hback
  | earlier hlt p q =>
    cases hback with
    | earlier hgt => exact Nat.lt_asymm hlt hgt
    | inside => exact Nat.lt_irrefl _ hlt
  | inside i _ ih =>
    cases hback with
    | earlier hlt => exact Nat.lt_irrefl i hlt
    | inside _ hback => exact ih hback

theorem not_before_self (p : Place) : ¬ Before p p := fun h => h.asymm h

end Place

/-- A place where a body returns, and what stands there. -/
inductive Site where
  /-- The body ends with the expression. -/
  | ending (e : Expr)
  | explicit (value : Option Expr)

/-- The value of an expression may be that of the one at a place. -/
inductive EndsAt : Expr → Place → Expr → Prop where
  | here {e : Expr} (hforked : e.isForked = false) (hreturn : e.isReturn = false) : EndsAt e [] e
  | inside {e part found : Expr} {i : Nat} {p : Place} (h : e.parts[i]? = some (.last, part))
    (hpart : EndsAt part p found) : EndsAt e (i :: p) found
  | expansion {e part : Expr} {i : Nat} (h : e.parts[i]? = some (.lastMacro, part)) :
      EndsAt e [i] part

/-- An explicit return stands at a place that is entered from an expression. -/
inductive ReturnsAt : Expr → Place → Option Expr → Prop where
  | here (value : Option Expr) : ReturnsAt (.ret value) [] value
  | inside {e part : Expr} {i : Nat} {p : Place} {role : Role} {value : Option Expr}
      (h : e.parts[i]? = some (role, part)) (hrole : role = .entered ∨ role = .last)
      (hpart : ReturnsAt part p value) : ReturnsAt e (i :: p) value

/-- A place where a body returns. -/
inductive IsSite (body : List Stmt) : Place → Site → Prop where
  | ending {p : Place} {e : Expr} (h : EndsAt (.block body) p e) : IsSite body p (.ending e)
  | explicit {p : Place} {value : Option Expr} (h : ReturnsAt (.block body) p value) :
      IsSite body p (.explicit value)

def Site.response (v : Evaluator) : Site → Response
  | .ending e => v.response e
  | .explicit none => ⟨200, .literal .null⟩
  | .explicit (some e) => v.response e

/-- The sites that are passed in an expression; `tail` says that the body ends with it. -/
inductive Passes (tail : Bool) (e : Expr) : Place → Site → Prop where
  | ending {p : Place} {found : Expr} (htail : tail = true) (h : EndsAt e p found) :
      Passes tail e p (.ending found)
  | explicit {p : Place} {value : Option Expr} (h : ReturnsAt e p value) :
      Passes tail e p (.explicit value)

def PassesPart (tail : Bool) : Role × Expr → Place → Site → Prop
  | (.skipped, _), _, _ => False
  | (.entered, e), p, site => Passes false e p site
  | (.last, e), p, site => Passes tail e p site
  | (.lastMacro, e), p, site => tail = true ∧ p = [] ∧ site = .ending e

/-- The sites that are passed in some parts that follow one another. -/
inductive PassesParts (tail : Bool) (parts : List (Role × Expr)) : Place → Site → Prop where
  | intro {i : Nat} {part : Role × Expr} {p : Place} {site : Site} (h : parts[i]? = some part)
    (hpart : PassesPart tail part p site) : PassesParts tail parts (i :: p) site

def ownSite? (tail : Bool) (e : Expr) : Option Site :=
  match e with
  | .ret value => some (.explicit value)
  | e => if tail && !e.isForked then some (.ending e) else none

variable {tail : Bool}

theorem ownSite?_of_not_return {e : Expr} (h : e.isReturn = false) :
    ownSite? tail e = if tail && !e.isForked then some (.ending e) else none := by
  cases e with
  | ret value => cases h
  | _ => rfl

theorem passes_here {e : Expr} {site : Site} :
    Passes tail e [] site ↔ ownSite? tail e = some site := by
  constructor
  · rintro (⟨rfl, ⟨hforked, hreturn⟩⟩ | ⟨⟨value⟩⟩)
    · rw [ownSite?_of_not_return hreturn, hforked]
      rfl
    · rfl
  · intro h
    cases hreturn : e.isReturn with
    | false =>
      rw [ownSite?_of_not_return hreturn] at h
      split at h
      next hends =>
        obtain ⟨htail, hforked⟩ : tail = true ∧ e.isForked = false := by simpa using hends
        cases h
        exact .ending htail (.here hforked hreturn)
      next => cases h
    | true =>
      cases e with
      | ret value =>
        cases h
        exact .explicit (.here value)
      | _ => cases hreturn

theorem passes_cons {e : Expr} {i : Nat} {p : Place} {site : Site} :
    Passes tail e (i :: p) site ↔ PassesParts tail e.parts (i :: p) site := by
  constructor
  · rintro (⟨htail, h⟩ | ⟨h⟩)
    · cases h with
      | inside h hpart => exact .intro h (.ending htail hpart)
      | expansion h => exact .intro h ⟨htail, rfl, rfl⟩
    · cases h with
      | inside h hrole hpart =>
        obtain rfl | rfl := hrole
        · exact .intro h (.explicit hpart)
        · exact .intro h (.explicit hpart)
  · rintro ⟨h, hpart⟩
    rename_i part
    obtain ⟨role, part⟩ := part
    cases role with
    | skipped => cases hpart
    | entered =>
      obtain ⟨⟨⟩, -⟩ | ⟨hpart⟩ := hpart
      exact .explicit (.inside h (Or.inl rfl) hpart)
    | last =>
      obtain ⟨htail, hpart⟩ | ⟨hpart⟩ := hpart
      · exact .ending htail (.inside h hpart)
      · exact .explicit (.inside h (Or.inr rfl) hpart)
    | lastMacro =>
      obtain ⟨htail, rfl, rfl⟩ := hpart
      exact .ending htail (.expansion h)

theorem not_passesParts_nil {parts : List (Role × Expr)} {site : Site} :
    ¬ PassesParts tail parts [] site :=
  nofun

/-- A list of sites, each once and in the order of their places. -/
structure Lists (passed : Place → Site → Prop) (found : List (Place × Site)) : Prop where
  ordered : found.Pairwise fun a b => a.1.Before b.1
  mem_iff : ∀ p site, (p, site) ∈ found ↔ passed p site

namespace Lists

theorem nodup {passed : Place → Site → Prop} {found : List (Place × Site)}
    (h : Lists passed found) : found.Nodup := by
  refine h.ordered.imp ?_
  rintro a b hbefore rfl
  exact Place.not_before_self a.1 hbefore

/-- There is one such list at most. -/
theorem unique {passed : Place → Site → Prop} {found other : List (Place × Site)}
    (h : Lists passed found) (hother : Lists passed other) : found = other := by
  have hperm : found.Perm other := by
    refine (List.perm_ext_iff_of_nodup h.nodup hother.nodup).mpr ?_
    exact fun entry => (h.mem_iff entry.1 entry.2).trans (hother.mem_iff entry.1 entry.2).symm
  refine hperm.eq_of_pairwise ?_ h.ordered hother.ordered
  exact fun _ _ _ _ hbefore hafter => absurd hafter hbefore.asymm

theorem nil {passed : Place → Site → Prop} (h : ∀ p site, ¬ passed p site) : Lists passed [] where
  ordered := .nil
  mem_iff := fun p site => ⟨nofun, fun hpassed => absurd hpassed (h p site)⟩

def shift (count : Nat) : Place × Site → Place × Site
  | ([], site) => ([], site)
  | (i :: p, site) => ((count + i) :: p, site)

theorem before_shift {count : Nat} {a b : Place × Site} (h : a.1.Before b.1) :
    (shift count a).1.Before (shift count b).1 := by
  obtain ⟨p, site⟩ := a
  obtain ⟨q, other⟩ := b
  cases h with
  | inner i p => exact .inner _ p
  | earlier hlt p q => exact .earlier (Nat.add_lt_add_left hlt count) p q
  | inside i h => exact .inside _ h

theorem append {parts more : List (Role × Expr)} {found later : List (Place × Site)}
    (h : Lists (PassesParts tail parts) found) (hlater : Lists (PassesParts tail more) later) :
    Lists (PassesParts tail (parts ++ more)) (found ++ later.map (shift parts.length)) where
  ordered := by
    refine List.pairwise_append.mpr
      ⟨h.ordered, List.pairwise_map.mpr (hlater.ordered.imp before_shift), ?_⟩
    rintro ⟨p, site⟩ hfirst ⟨q, other⟩ hsecond
    obtain ⟨⟨r, third⟩, hthird, heq⟩ := List.mem_map.mp hsecond
    obtain ⟨hpart, -⟩ := (h.mem_iff p site).mp hfirst
    obtain ⟨hmore, -⟩ := (hlater.mem_iff r third).mp hthird
    cases heq
    exact .earlier (Nat.lt_add_right _ (List.getElem?_eq_some_iff.mp hpart).1) _ _
  mem_iff := by
    intro p site
    rw [List.mem_append, h.mem_iff]
    constructor
    · rintro (⟨hpart, hpassed⟩ | hm)
      · exact .intro
          (List.getElem?_append_left (List.getElem?_eq_some_iff.mp hpart).1 ▸ hpart) hpassed
      · obtain ⟨⟨q, other⟩, hother, heq⟩ := List.mem_map.mp hm
        obtain ⟨hpart, hpassed⟩ := (hlater.mem_iff q other).mp hother
        cases heq
        refine .intro ?_ hpassed
        rw [List.getElem?_append_right (Nat.le_add_right _ _), Nat.add_sub_cancel_left]
        exact hpart
    · rintro ⟨hpart, hpassed⟩
      rename_i i part p
      by_cases hi : i < parts.length
      · rw [List.getElem?_append_left hi] at hpart
        exact Or.inl (.intro hpart hpassed)
      · rw [List.getElem?_append_right (Nat.not_lt.mp hi)] at hpart
        refine Or.inr (List.mem_map.mpr ⟨((i - parts.length) :: p, site), ?_, ?_⟩)
        · exact (hlater.mem_iff _ _).mpr (.intro hpart hpassed)
        · rw [shift, Nat.add_sub_cancel' (Nat.not_lt.mp hi)]

theorem part {part : Role × Expr} {found : List (Place × Site)}
    (h : Lists (PassesPart tail part) found) :
    Lists (PassesParts tail [part]) (found.map fun entry => (0 :: entry.1, entry.2)) where
  ordered := List.pairwise_map.mpr (h.ordered.imp fun hbefore => .inside 0 hbefore)
  mem_iff := by
    intro p site
    rw [List.mem_map]
    constructor
    · rintro ⟨⟨q, other⟩, hm, heq⟩
      cases heq
      exact .intro rfl ((h.mem_iff _ _).mp hm)
    · rintro ⟨hpart, hpassed⟩
      obtain ⟨hi, rfl⟩ := List.getElem?_eq_some_iff.mp hpart
      rename_i i p
      obtain rfl : i = 0 := Nat.lt_one_iff.mp hi
      exact ⟨(p, site), (h.mem_iff _ _).mpr hpassed, rfl⟩

theorem expr {e : Expr} {found : List (Place × Site)} (h : Lists (PassesParts tail e.parts) found) :
    Lists (Passes tail e) (found ++ (ownSite? tail e).toList.map fun site => ([], site)) where
  ordered := by
    refine List.pairwise_append.mpr ⟨h.ordered, ?_, ?_⟩
    · cases ownSite? tail e with
      | none => exact .nil
      | some site => exact List.pairwise_singleton _ _
    · rintro ⟨p, site⟩ hfirst ⟨q, other⟩ hsecond
      obtain ⟨third, -, heq⟩ := List.mem_map.mp hsecond
      obtain ⟨-, -⟩ := (h.mem_iff p site).mp hfirst
      cases heq
      exact .inner _ _
  mem_iff := by
    intro p site
    rw [List.mem_append, h.mem_iff, List.mem_map]
    cases p with
    | nil =>
      rw [passes_here, ← Option.mem_toList]
      constructor
      · rintro (hparts | ⟨other, hm, heq⟩)
        · exact absurd hparts not_passesParts_nil
        · cases heq
          exact hm
      · exact fun hm => Or.inr ⟨site, hm, rfl⟩
    | cons i p =>
      rw [passes_cons]
      constructor
      · rintro (hparts | ⟨other, hm, heq⟩)
        · exact hparts
        · cases heq
      · exact Or.inl

end Lists

variable (c : Context) (parameters : List Parameter)

def Answers (entry : Place × Site) (response : Response) : Prop :=
  ∃ environment, response = entry.2.response ⟨c, parameters, environment⟩

/-- From one state of the scan to another one exactly some sites are recorded, in their order. -/
def Collects (passed : Place → Site → Prop) (s t : Scan) : Prop :=
  ∃ found responses, Lists passed found ∧ t.responses = s.responses ++ responses ∧
    List.Forall₂ (Answers c parameters) found responses

namespace Collects

variable {c parameters} {passed : Place → Site → Prop} {s t u : Scan}

theorem nothing (hnone : ∀ p site, ¬ passed p site) (h : t.responses = s.responses) :
    Collects c parameters passed s t :=
  ⟨[], [], .nil hnone, by rw [h, List.append_nil], .nil⟩

theorem bind (h : Collects c parameters passed s t) (name : Option String) (e : Expr) :
    Collects c parameters passed s (t.bind c parameters name e) := by
  cases name with
  | none => exact h
  | some name => exact h

theorem append {parts more : List (Role × Expr)}
    (h : Collects c parameters (PassesParts tail parts) s t)
    (hmore : Collects c parameters (PassesParts tail more) t u) :
    Collects c parameters (PassesParts tail (parts ++ more)) s u := by
  obtain ⟨found, responses, hlists, heq, hanswers⟩ := h
  obtain ⟨later, others, hlater, hothers, hanswersLater⟩ := hmore
  refine ⟨_, responses ++ others, hlists.append hlater, by rw [hothers, heq, List.append_assoc], ?_⟩
  refine List.rel_append hanswers (List.forall₂_map_left_iff.mpr (hanswersLater.imp ?_))
  rintro ⟨p, site⟩ response hanswer
  cases p with
  | nil => exact hanswer
  | cons i p => exact hanswer

theorem part {part : Role × Expr} (h : Collects c parameters (PassesPart tail part) s t) :
    Collects c parameters (PassesParts tail [part]) s t := by
  obtain ⟨found, responses, hlists, heq, hanswers⟩ := h
  exact ⟨_, responses, hlists.part, heq, List.forall₂_map_left_iff.mpr hanswers⟩

theorem cons {part : Role × Expr} {more : List (Role × Expr)}
    (h : Collects c parameters (PassesPart tail part) s t)
    (hmore : Collects c parameters (PassesParts tail more) t u) :
    Collects c parameters (PassesParts tail (part :: more)) s u :=
  h.part.append hmore

theorem nil : Collects c parameters (PassesParts tail []) s s :=
  nothing (by rintro _ _ ⟨h, -⟩; cases h) rfl

theorem skipped (es : List Expr) :
    Collects c parameters (PassesParts tail (es.map (Role.skipped, ·))) s s := by
  refine nothing ?_ rfl
  rintro _ _ ⟨h, hpart⟩
  obtain ⟨e, -, rfl⟩ := List.mem_map.mp (List.mem_of_getElem? h)
  exact hpart

theorem expr {e : Expr} (h : Collects c parameters (PassesParts tail e.parts) s t)
    {responses : List Response} (hadded : u.responses = t.responses ++ responses) (hanswers :
    List.Forall₂ (fun site => Answers c parameters ([], site)) (ownSite? tail e).toList responses) :
    Collects c parameters (Passes tail e) s u := by
  obtain ⟨found, earlier, hlists, heq, hearlier⟩ := h
  refine ⟨_, earlier ++ responses, hlists.expr, by rw [hadded, heq, List.append_assoc], ?_⟩
  exact List.rel_append hearlier (List.forall₂_map_left_iff.mpr hanswers)

theorem forked {e : Expr} (hforked : e.isForked = true) (hreturn : e.isReturn = false)
    (h : Collects c parameters (PassesParts tail e.parts) s t) :
    Collects c parameters (Passes tail e) s t := by
  refine h.expr (List.append_nil _).symm ?_
  rw [ownSite?_of_not_return hreturn, hforked, Bool.not_true, Bool.and_false]
  exact .nil

theorem site {e : Expr} (hforked : e.isForked = false) (hreturn : e.isReturn = false)
    (h : Collects c parameters (PassesParts tail e.parts) s t) :
    Collects c parameters (Passes tail e) s (t.site c parameters tail e) := by
  have hown : ownSite? tail e = if tail then some (.ending e) else none := by
    rw [ownSite?_of_not_return hreturn, hforked, Bool.not_false, Bool.and_true]
  cases tail with
  | false => exact h.expr (List.append_nil _).symm (hown ▸ .nil)
  | true => exact h.expr rfl (hown ▸ .cons ⟨t.environment, rfl⟩ .nil)

theorem expansion (e : Expr) (ends : Bool) :
    Collects c parameters (PassesPart tail (if ends then .lastMacro else .skipped, e)) s
      (s.site c parameters (tail && ends) e) := by
  cases ends with
  | false =>
    rw [Bool.and_false]
    exact nothing (fun _ _ h => h) rfl
  | true =>
    cases tail with
    | false => exact nothing (fun _ _ h => Bool.noConfusion h.1) rfl
    | true =>
      refine ⟨[([], .ending e)], [(s.evaluator c parameters).response e],
        ⟨List.pairwise_singleton _ _, ?_⟩, rfl, ?_⟩
      · intro p site
        rw [List.mem_singleton, Prod.mk.injEq]
        exact ⟨fun h => ⟨rfl, h.1, h.2⟩, fun h => ⟨h.2.1, h.2.2⟩⟩
      · exact .cons ⟨s.environment, rfl⟩ .nil

end Collects

variable {c parameters}

open Collects in
mutual

theorem collects_expr (tail : Bool) (e : Expr) (s : Scan) :
    Collects c parameters (Passes tail e) s (Scan.expr c parameters tail e s) := by
  match e with
  | .lit _ | .json _ | .vec _ | .expansion =>
    rw [Scan.expr]
    exact site rfl rfl nil
  | .closure parts =>
    rw [Scan.expr]
    exact site rfl rfl (skipped parts)
  | .async body =>
    rw [Scan.expr]
    have hskipped : Collects c parameters
        (PassesParts tail (((partsOfBody body).map Prod.snd).map (Role.skipped, ·))) s s :=
      skipped _
    rw [List.map_map] at hskipped
    exact site rfl rfl hskipped
  | .path _ es | .tuple es | .array es | .compound es =>
    rw [Scan.expr]
    exact site rfl rfl (collects_exprs tail es s)
  | .paren e | .reference e | .negate e | .field e | .await e | .attempt e =>
    rw [Scan.expr]
    exact site rfl rfl (part (collects_expr false e s))
  | .record _ inner fields rest =>
    rw [Scan.expr]
    refine site rfl rfl
      (append (append (collects_exprs tail inner s) (collects_fields tail fields _)) ?_)
    exact collects_option tail rest _
  | .call callee args =>
    rw [Scan.expr]
    exact site rfl rfl (cons (collects_expr false callee s) (collects_exprs tail args _))
  | .method receiver _ inner args =>
    rw [Scan.expr]
    refine site rfl rfl (cons (collects_expr false receiver s) ?_)
    exact append (collects_exprs tail inner _) (collects_exprs tail args _)
  | .index base position =>
    rw [Scan.expr]
    exact site rfl rfl (cons (collects_expr false base s) (part (collects_expr false position _)))
  | .assign left right =>
    rw [Scan.expr]
    have hleft : Collects c parameters (PassesPart tail (.skipped, left)) s s :=
      nothing (fun _ _ h => h) rfl
    exact site rfl rfl (cons hleft (part ((collects_expr false right s).bind _ _)))
  | .ret none =>
    rw [Scan.expr]
    exact expr nil rfl (.cons ⟨[], rfl⟩ .nil)
  | .ret (some e) =>
    rw [Scan.expr]
    exact expr (part (collects_expr false e s)) rfl (.cons ⟨_, rfl⟩ .nil)
  | .branch condition body otherwise =>
    rw [Scan.expr]
    refine forked rfl rfl (cons (collects_expr false condition s) ?_)
    exact append (collects_stmts tail body _) (collects_last tail otherwise _)
  | .cases subject arms =>
    rw [Scan.expr]
    exact forked rfl rfl (cons (collects_expr false subject s) (collects_arms tail arms _))
  | .block body | .unchecked body =>
    rw [Scan.expr]
    exact forked rfl rfl (collects_stmts tail body s)

theorem collects_exprs (tail : Bool) (es : List Expr) (s : Scan) : Collects c parameters
    (PassesParts tail (es.map (Role.entered, ·))) s (Scan.exprs c parameters es s) := by
  match es with
  | [] =>
    rw [Scan.exprs]
    exact nil
  | e :: rest =>
    rw [Scan.exprs]
    exact cons (collects_expr false e s) (collects_exprs tail rest _)

theorem collects_option (tail : Bool) (o : Option Expr) (s : Scan) : Collects c parameters
    (PassesParts tail (o.toList.map (Role.entered, ·))) s (Scan.option c parameters false o s) := by
  match o with
  | none =>
    rw [Scan.option]
    exact nil
  | some e =>
    rw [Scan.option]
    exact part (collects_expr false e s)

theorem collects_last (tail : Bool) (o : Option Expr) (s : Scan) : Collects c parameters
    (PassesParts tail (o.toList.map (Role.last, ·))) s (Scan.option c parameters tail o s) := by
  match o with
  | none =>
    rw [Scan.option]
    exact nil
  | some e =>
    rw [Scan.option]
    exact part (collects_expr tail e s)

theorem collects_fields (tail : Bool) (fields : List FieldInit) (s : Scan) :
    Collects c parameters (PassesParts tail (fields.map fun f => (Role.entered, f.value))) s
      (Scan.fields c parameters fields s) := by
  match fields with
  | [] =>
    rw [Scan.fields]
    exact nil
  | .mk _ e :: rest =>
    rw [Scan.fields]
    exact cons (collects_expr false e s) (collects_fields tail rest _)

theorem collects_arms (tail : Bool) (arms : List Arm) (s : Scan) : Collects c parameters
    (PassesParts tail (arms.flatMap Arm.parts)) s (Scan.arms c parameters tail arms s) := by
  match arms with
  | [] =>
    rw [Scan.arms]
    exact nil
  | .mk inner guard body :: rest =>
    rw [Scan.arms, List.flatMap_cons]
    have hguarded := append (collects_exprs tail inner s) (collects_option tail guard _)
    exact append (append hguarded (part (collects_expr tail body _))) (collects_arms tail rest _)

theorem collects_stmts (tail : Bool) (body : List Stmt) (s : Scan) : Collects c parameters
    (PassesParts tail (partsOfBody body)) s (Scan.stmts c parameters tail body s) := by
  match body with
  | [] =>
    rw [Scan.stmts]
    exact nil
  | .bind _ inner none otherwise :: rest =>
    rw [Scan.stmts, partsOfBody]
    refine append ?_ (collects_stmts tail rest s)
    exact append (skipped inner) (skipped otherwise.toList)
  | .bind _ inner (some value) otherwise :: rest =>
    rw [Scan.stmts, partsOfBody]
    refine append (append (skipped inner) (Collects.bind ?_ _ _)) (collects_stmts tail rest _)
    exact cons (collects_expr false value s) (collects_option tail otherwise _)
  | .item _ :: rest =>
    rw [Scan.stmts, partsOfBody]
    exact append nil (collects_stmts tail rest s)
  | .expr e closed :: rest =>
    rw [Scan.stmts, partsOfBody]
    refine append (part ?_) (collects_stmts tail rest _)
    cases hends : rest.isEmpty && !closed with
    | true =>
      rw [Bool.and_assoc, hends, Bool.and_true]
      exact collects_expr tail e s
    | false =>
      rw [Bool.and_assoc, hends, Bool.and_false]
      exact collects_expr false e s
  | .expansion e closed :: rest =>
    rw [Scan.stmts, partsOfBody]
    refine append (part ?_) (collects_stmts tail rest _)
    rw [Bool.and_assoc]
    exact expansion e _

end

theorem Lists.congr {passed other : Place → Site → Prop} {found : List (Place × Site)}
    (h : Lists passed found) (hiff : ∀ p site, passed p site ↔ other p site) :
    Lists other found where
  ordered := h.ordered
  mem_iff := fun p site => (h.mem_iff p site).trans (hiff p site)

theorem passes_block {body : List Stmt} {p : Place} {site : Site} :
    Passes true (.block body) p site ↔ IsSite body p site := by
  constructor
  · rintro (⟨-, h⟩ | ⟨h⟩)
    · exact .ending h
    · exact .explicit h
  · rintro (⟨h⟩ | ⟨h⟩)
    · exact .ending rfl h
    · exact .explicit h

/-- The places where a body returns have one listing in their order, and the responses of its
handler are theirs, one for each. -/
theorem responses_at_sites (c : Context) (f : Function) :
    ∃! sites : List (Place × Site), Lists (IsSite f.body) sites ∧
      List.Forall₂ (Answers c (parametersOf c f.params)) sites (ofFunction c f).responses := by
  have hbody : Collects c (parametersOf c f.params) (Passes true (.block f.body)) {}
      (Scan.stmts c (parametersOf c f.params) true f.body {}) :=
    .forked rfl rfl (collects_stmts true f.body {})
  obtain ⟨sites, responses, hlists, hresponses, hanswers⟩ := hbody
  obtain rfl : (ofFunction c f).responses = responses := hresponses
  refine ⟨sites, ⟨hlists.congr fun _ _ => passes_block, hanswers⟩, ?_⟩
  rintro other ⟨hother, -⟩
  exact hother.unique (hlists.congr fun _ _ => passes_block)

end Handler

end ApiContract
