import ApiContract.Proofs.AlikeContexts
import ApiContract.Proofs.MethodBlocks
import ApiContract.Proofs.ShapeInvariants

namespace ApiContract

open Source

namespace Scope

variable {near far : Scope} {known other : String}

/-- Names that stand for the same from two modules, of which the first knows a type under one name
and the second under another: these two, names that start from the module itself, and whatever is
below such names. -/
inductive Counterpart (near far : Scope) (known other : String) : String → String → Prop where
  | same (name : String) : Counterpart near far known other name name
  | imported : Counterpart near far known other known other
  | relative {first : String} (rest : List String) (hfirst : first = "self" ∨ first = "super") :
      Counterpart near far known other (Imports.target near.module (first :: rest))
        (Imports.target far.module (first :: rest))
  | within {name name' : String} (segment : String)
      (h : Counterpart near far known other name name') :
      Counterpart near far known other (name ++ "::" ++ segment) (name' ++ "::" ++ segment)

/-- Two modules with the same modules below them, that import the same names. -/
structure Alike (near far : Scope) (known other : String) : Prop where
  modules : near.modules = far.modules
  imports : ∀ name, Option.Rel (Counterpart near far known other) (near.imports.get? name)
    (far.imports.get? name)

theorem counterpart_foldl {name name' : String} (h : Counterpart near far known other name name')
    (rest : List String) : Counterpart near far known other
      (rest.foldl (fun text segment => text ++ "::" ++ segment) name)
      (rest.foldl (fun text segment => text ++ "::" ++ segment) name') := by
  induction rest generalizing name name' with
  | nil => exact h
  | cons segment rest ih => exact ih (.within segment h)

theorem counterpart_local (name : String) : Counterpart near far known other
    (near.moduleName ++ "::" ++ name) (far.moduleName ++ "::" ++ name) := by
  have htarget : ∀ scope : Scope, scope.moduleName = Imports.target scope.module ["self"] := by
    intro scope
    rw [Imports.target, Imports.absolute, List.append_nil, moduleName]
  rw [htarget near, htarget far]
  exact .within name (.relative [] (.inl rfl))

theorem counterpart_resolve (h : Alike near far known other) (name : String) :
    Counterpart near far known other (near.resolve name) (far.resolve name) := by
  rw [resolve, resolve]
  cases Name.segments name with
  | nil => exact .same name
  | cons first rest =>
    dsimp only
    split
    · exact .same _
    · split
      next hfirst => exact .relative rest hfirst
      next =>
        rcases Handler.none_or_of_rel (h.imports first) with
          ⟨hnone, hnone'⟩ | ⟨meaning, meaning', hsome, hsome', hmeaning⟩
        · rw [hnone, hnone', h.modules]
          dsimp only
          split
          · exact .same _
          · split
            · exact counterpart_local _
            · exact .same _
        · rw [hsome, hsome']
          exact counterpart_foldl hmeaning rest

end Scope

namespace Handler

open Scope

theorem Context.resolve_of_head (c : Context) {names : List String}
    (hparts : ∀ part ∈ names, Name.IsPart part) (h : names.head? ≠ some "Self") :
    c.resolve (Name.join names) = c.scope.resolve (Name.join names) := by
  have hself : ∀ text, Name.join names = text → (Name.segments text).head? ≠ some "Self" := by
    rintro text rfl
    rwa [Name.segments_join hparts]
  unfold resolve
  split
  next self rest hchars =>
    split
    · exact absurd (by decide) (hself "Self" (String.toList_inj.mp hchars))
    next tail =>
      have htext : Name.join names = "Self" ++ "::" ++ String.ofList tail := by
        refine String.toList_inj.mp (hchars.trans ?_)
        simp
      refine absurd ?_ (hself _ htext)
      rw [Name.segments_append (by decide), List.head?_cons]
    · rfl
  · rfl

theorem Context.resolve_rel {R : String → String → Prop} {c c' : Context}
    (hscope : ∀ name, R (c.scope.resolve name) (c'.scope.resolve name))
    (hself : Option.Rel R c.self c'.self)
    (hwithin : ∀ {type type'}, R type type' →
      ∀ segment, R (type ++ "::" ++ segment) (type' ++ "::" ++ segment)) (name : String) :
    R (c.resolve name) (c'.resolve name) := by
  have hresolve := hscope name
  rw [resolve, resolve]
  rcases none_or_of_rel hself with ⟨hnone, hnone'⟩ | ⟨self, self', hsome, hsome', hself⟩
  · rw [hnone, hnone']
    exact hresolve
  · rw [hsome, hsome']
    generalize name.toList = chars
    split
    next _ _ rest heq =>
      obtain rfl := Option.some.inj heq
      have htail : ∀ (type : String) (tail : List Char),
          type ++ String.ofList (':' :: ':' :: tail) = type ++ "::" ++ String.ofList tail := by
        intro type tail
        refine String.toList_inj.mp ?_
        rw [Name.toList_append, String.toList_append, String.toList_ofList, String.toList_ofList]
      split
      · exact hself
      next tail =>
        rw [htail self tail, htail self' tail]
        exact hwithin hself _
      · exact hresolve
    next hother =>
      split
      next heq => exact absurd rfl (hother _ _ rfl)
      next => exact hresolve

/-- A routine is described alike in two modules that import a type under two names, if the names
that stand for the same there are told alike. -/
theorem ofFunction_imported {near far : Scope} {known other : String} {capabilities : Classifier}
    {self self' : Option String} (conventions : Conventions) (h : near.Alike far known other)
    (hself : Option.Rel (near.Counterpart far known other) self self')
    (hagree : ∀ type type', near.Counterpart far known other type type' →
      capabilities.Agree capabilities type type') (f : Function) :
    (ofFunction ⟨near, capabilities, conventions, self⟩ f).Alike (near.Counterpart far known other)
      (ofFunction ⟨far, capabilities, conventions, self'⟩ f) := by
  have hcontext : Context.Alike (near.Counterpart far known other)
      ⟨near, capabilities, conventions, self⟩ ⟨far, capabilities, conventions, self'⟩ :=
    { conventions := rfl
      resolve := Context.resolve_rel (counterpart_resolve h) hself
        fun h segment => .within segment h
      native := fun name _ => .same name
      agree := fun h => hagree _ _ h }
  exact ofFunction_alike hcontext f

end Handler

/-- A transformer of this name makes the shape, or something that the shape is made of. -/
def Shape.Wraps (type : String) : Shape → Prop
  | .wrapped transformer _ _ source => transformer = type ∨ source.Wraps type
  | _ => False

namespace Handler

/-- What a handler makes of a type is what the capabilities of its name say. -/
structure Follows (has : Capability → Bool) (type : String) (handler : Handler) : Prop where
  parameters : ∀ p ∈ handler.parameters, p.type = some type →
    has .validator = false ∧ p.kind = if has .domainObject then .domainObject else .other
  validator : handler.validator = some type → has .validator = true
  responses : ∀ r ∈ handler.responses, r.shape.Wraps type → has .transformer = true

section

variable {c : Context} {params : List Param} {p : Parameter}

theorem kind_of_mem_declared (h : p ∈ declared c params) : p.kind = kindOf c p.type := by
  obtain ⟨found, hfound, hp⟩ := List.mem_filterMap.mp h
  obtain ⟨⟨param, place⟩, -, rfl⟩ := List.mem_map.mp hfound
  cases param with
  | receiver => cases hp
  | typed pattern type =>
    obtain rfl := Option.some.inj hp
    rfl

theorem invariant_wraps (c : Context) (type : String) :
    Invariant c fun shape => shape.Wraps type → c.has type .transformer = true where
  value := fun _ _ _ _ _ => False.elim
  ofType := fun _ => False.elim
  unresolved := False.elim
  paginate := fun shape h => by
    cases shape with
    | wrapped => exact h
    | literal | raw | unresolved => exact False.elim
  constructed := fun parameters env scope found source h hwraps => by
    rw [Evaluator.constructed] at hwraps
    dsimp only at hwraps
    split at hwraps
    next htransformer =>
      obtain rfl | hsource := hwraps
      · exact htransformer
      · exact h hsource
    next =>
      split at hwraps <;> exact hwraps.elim

theorem ofFunction_follows (c : Context) {type : String} (hnative : Name.isNative type = false)
    (f : Source.Function) : (ofFunction c f).Follows (c.has type) type := by
  have hkind : kindOf c (some type) = if c.has type .validator then .validator
      else if c.has type .domainObject then .domainObject else .other := by
    rw [kindOf, hnative, if_neg Bool.false_ne_true]
  refine ⟨fun p hp htype => ?_, fun hvalidator => ?_, ?_⟩
  · obtain ⟨hdeclared, hother⟩ := List.mem_filter.mp hp
    have hp := kind_of_mem_declared hdeclared
    rw [htype, hkind] at hp
    cases hhas : c.has type .validator with
    | true => simp [isValidator, hp, hhas] at hother
    | false => exact ⟨rfl, by simpa [hhas] using hp⟩
  · obtain ⟨p, hp, htype⟩ := Option.bind_eq_some_iff.mp hvalidator
    obtain ⟨hdeclared, hp⟩ := List.mem_filter.mp (List.mem_of_getLast? hp)
    rw [isValidator, kind_of_mem_declared hdeclared, htype, hkind] at hp
    cases hhas : c.has type .validator with
    | true => rfl
    | false =>
      rw [hhas, if_neg Bool.false_ne_true] at hp
      split at hp <;> cases hp
  · exact (invariant_wraps c type).responses f

end

end Handler

end ApiContract
