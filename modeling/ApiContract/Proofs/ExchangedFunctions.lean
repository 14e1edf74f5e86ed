import Mathlib.Data.List.Forall2
import ApiContract.Module.Locate
import ApiContract.Proofs.ModuleLookup
import ApiContract.Struct.Index
import ApiContract.Capability

namespace ApiContract

open Source

namespace Source

/-- The place of one function, among the items of a module or in a block of methods for a type, is
held by `f` here and by `f'` there. The function may be missing on either side. -/
inductive Exchanges (f f' : Option Function) : Target → List Item → List Item → Prop where
  | function (before after : List Item) :
      Exchanges f f' .module (before ++ ((f.map .function).toList ++ after))
        (before ++ ((f'.map .function).toList ++ after))
  | method {type : TypeExpr} {owner : String} (howner : Scope.ownerName? type = some owner)
      (before after : List Item) (trait : Option Path) (inner : List Expr)
      (earlier later : List Member) : Exchanges f f' (.type owner) (before ++
      .implementation trait type inner (earlier ++ ((f.map .function).toList ++ later)) :: after)
      (before ++
        .implementation trait type inner (earlier ++ ((f'.map .function).toList ++ later)) :: after)

/-- Items that are the same, but that in one place, which may be in a module written out among them,
one function is exchanged. -/
inductive AgreeBut (f f' : Option Function) (target : Target) : List Item → List Item → Prop where
  | same (items : List Item) : AgreeBut f f' target items items
  | here {items items' : List Item} (h : Exchanges f f' target items items') :
      AgreeBut f f' target items items'
  | inside {content content' : List Item} (h : AgreeBut f f' target content content')
      (name : String) (before after : List Item) :
      AgreeBut f f' target (before ++ .module name (some content) :: after)
        (before ++ .module name (some content') :: after)

/-- What is collected from items without a look at functions, at methods and into modules. -/
structure Shallow {α : Type} (g : Item → List α) : Prop where
  function : ∀ f, g (.function f) = []
  methods : ∀ trait type inner members members',
    g (.implementation trait type inner members) = g (.implementation trait type inner members')
  content :
      ∀ name content content', g (.module name (some content)) = g (.module name (some content'))

variable {α : Type} {f f' : Option Function} {target : Target} {items items' : List Item}

theorem Shallow.flatMap_function {g : Item → List α} (hg : Shallow g) (f : Option Function) :
    (f.map Item.function).toList.flatMap g = [] := by
  cases f with
  | none => rfl
  | some f => simp [hg.function]

theorem AgreeBut.flatMap_eq (h : AgreeBut f f' target items items') {g : Item → List α}
    (hg : Shallow g) : items.flatMap g = items'.flatMap g := by
  cases h with
  | same => rfl
  | here h =>
    cases h with
    | function before after => simp only [List.flatMap_append, hg.flatMap_function]
    | @method type _ _ before after trait inner earlier later =>
      have hblock := hg.methods trait type inner (earlier ++ ((f.map .function).toList ++ later))
        (earlier ++ ((f'.map .function).toList ++ later))
      simp only [List.flatMap_append, List.flatMap_cons, hblock]
  | inside _ name before after =>
    simp only [List.flatMap_append, List.flatMap_cons, hg.content name _ []]

theorem AgreeBut.filterMap_eq (h : AgreeBut f f' target items items') {g : Item → Option α}
    (hg : Shallow fun item => (g item).toList) : items.filterMap g = items'.filterMap g := by
  rw [List.filterMap_eq_flatMap_toList, List.filterMap_eq_flatMap_toList, h.flatMap_eq hg]

theorem AgreeBut.any_eq (h : AgreeBut f f' target items items') {p : Item → Bool}
    (hp : Shallow fun item => if p item then [()] else []) : items.any p = items'.any p := by
  have hany : ∀ items : List Item,
      items.any p = (items.flatMap fun item => if p item then [()] else []).any fun _ => true := by
    intro items
    rw [List.any_flatMap]
    congr 1
    funext item
    cases p item <;> rfl
  rw [hany, hany, h.flatMap_eq hp]

end Source

namespace Scope

/-- Scopes of one module in which names mean the same, and whose items agree but for one
function. -/
structure Agree (f f' : Option Function) (target : Target) (scope scope' : Scope) : Prop where
  eq : scope' = { scope with items := scope'.items }
  items : AgreeBut f f' target scope.items scope'.items

variable {f f' : Option Function} {target : Target} {items items' : List Item}
  {scope scope' : Scope}

theorem agree_ofItems (h : AgreeBut f f' target items items') (path : String)
    (module : List String) :
    Agree f f' target (ofItems path module items) (ofItems path module items') where
  eq := by
    have himports : Imports.ofItems module items' = Imports.ofItems module items := congrArg
      Table.ofList (h.flatMap_eq ⟨fun _ => rfl, fun _ _ _ _ _ => rfl, fun _ _ _ => rfl⟩).symm
    rw [ofItems, ofItems, himports, h.filterMap_eq]
    exact ⟨fun _ => rfl, fun _ _ _ _ _ => rfl, fun _ _ _ => rfl⟩
  items := h

theorem Agree.defines_eq (h : Agree f f' target scope scope') (name : String) :
    scope'.defines name = scope.defines name :=
  (h.items.any_eq ⟨fun _ => rfl, fun _ _ _ _ _ => rfl, fun _ _ _ => rfl⟩).symm

theorem Agree.alias?_eq (h : Agree f f' target scope scope') (name : String) :
    scope'.alias? name = scope.alias? name := by
  rw [h.eq]
  rfl

theorem Agree.refl (scope : Scope) : Agree f f' target scope scope := ⟨rfl, .same scope.items⟩

theorem rel_agree_refl (found : Option Scope) : Option.Rel (Agree f f' target) found found := by
  cases found with
  | none => exact .none
  | some scope => exact .some (.refl scope)

theorem rel_inner?_ofItems (h : AgreeBut f f' target items items') (path : String)
    (module : List String) (name : String) : Option.Rel (Agree f f' target)
    ((ofItems path module items).inner? name) ((ofItems path module items').inner? name) := by
  have happend : ∀ before rest : List Item, (ofItems path module (before ++ rest)).inner? name =
      ((ofItems path module before).inner? name).or ((ofItems path module rest).inner? name) :=
    fun before rest => List.findSome?_append
  cases h with
  | same => exact rel_agree_refl _
  | here h =>
    have hfunction : ∀ f : Option Function,
        (ofItems path module (f.map .function).toList).inner? name = none := by
      intro f
      cases f <;> rfl
    cases h with
    | function before after =>
      rw [happend, happend _ after, hfunction, happend before, happend _ after, hfunction]
      exact rel_agree_refl _
    | @method type _ _ before after trait inner =>
      have hblock : ∀ members,
          (ofItems path module (.implementation trait type inner members :: after)).inner? name =
            (ofItems path module after).inner? name :=
        fun _ => inner?_ofItems_of_ne after fun _ he => Item.noConfusion he
      rw [happend, happend before, hblock, hblock]
      exact rel_agree_refl _
  | inside h step before after =>
    rw [happend, happend before, inner?_ofItems_module, inner?_ofItems_module]
    cases (ofItems path module before).inner? name with
    | some found => exact rel_agree_refl (some found)
    | none =>
      rw [Option.none_or, Option.none_or]
      split
      · exact .some (agree_ofItems h path (module ++ [name]))
      · exact rel_agree_refl _

theorem Agree.inner? (h : Agree f f' target scope scope') (name : String) :
    Option.Rel (Agree f f' target) (scope.inner? name) (scope'.inner? name) := by
  have hinner :
      scope'.inner? name = (ofItems scope.path scope.module scope'.items).inner? name := by
    rw [h.eq]
    rfl
  rw [hinner]
  exact rel_inner?_ofItems h.items scope.path scope.module name

theorem nested_of_exchanges (h : Exchanges f f' target items items') (path : String)
    (module : List String) : nested path module items = nested path module items' := by
  cases h with
  | function before after =>
    have hfunction : ∀ f : Option Function, nested path module (f.map .function).toList = [] := by
      intro f
      cases f <;> simp [nested]
    rw [nested_append, nested_append _ _ _ after, hfunction, nested_append,
      nested_append _ _ _ after, hfunction]
  | @method type _ _ before after trait inner earlier later =>
    have hblock :
        ∀ members, nested path module (.implementation trait type inner members :: after) =
          nested path module after := by
      intro members
      simp [nested]
    rw [nested_append, nested_append, hblock, hblock]

theorem forall₂_nested (h : AgreeBut f f' target items items') (path : String)
    (module : List String) :
    List.Forall₂ (Agree f f' target) (nested path module items) (nested path module items') := by
  have hrefl : ∀ scopes : List Scope, List.Forall₂ (Agree f f' target) scopes scopes :=
    fun scopes => List.forall₂_same.mpr fun scope _ => .refl scope
  induction h generalizing module with
  | same => exact hrefl _
  | here h =>
    rw [nested_of_exchanges h]
    exact hrefl _
  | inside h name before after ih =>
    rw [nested_append, nested_append, nested_module, nested_module]
    refine List.rel_append (List.rel_append (hrefl _) (.cons ?_ (ih _))) (hrefl _)
    exact agree_ofItems h path (module ++ [name])

/-- What an item says of the traits of types is read against names only. -/
theorem Agree.marks_eq (h : Agree f f' target scope scope') :
    Capability.marks scope' = Capability.marks scope := by
  rw [h.eq]
  rfl

theorem Agree.flatMap_marks (h : Agree f f' target scope scope') :
    scope.items.flatMap (Capability.marks scope) =
      scope'.items.flatMap (Capability.marks scope') := by
  rw [h.marks_eq]
  refine h.items.flatMap_eq ⟨fun _ => rfl, fun trait type _ _ _ => ?_, fun _ _ _ => rfl⟩
  cases trait <;> cases type <;> rfl

theorem fieldType_ofExpr_withItems (scope : Scope) (items : List Item) (type : TypeExpr) :
    FieldType.ofExpr { scope with items } type = FieldType.ofExpr scope type := by
  delta FieldType.ofExpr
  rfl

theorem struct_ofFields_withItems (scope : Scope) (items : List Item) (name : String)
    (fields : Fields) :
    Struct.ofFields { scope with items } name fields = Struct.ofFields scope name fields := by
  cases fields with
  | named fields => simp only [Struct.ofFields, fieldType_ofExpr_withItems]
  | positional | unit => rfl

theorem Agree.structs_eq (h : Agree f f' target scope scope') :
    Struct.ofScope scope = Struct.ofScope scope' := by
  rw [h.eq, Struct.ofScope, Struct.ofScope]
  simp only [struct_ofFields_withItems]
  exact h.items.filterMap_eq ⟨fun _ => rfl, fun _ _ _ _ _ => rfl, fun _ _ _ => rfl⟩

end Scope

end ApiContract
