import ApiContract.Handler.Construction
import ApiContract.Proofs.OrdinaryTypes
import Mathlib.Data.List.Forall2

namespace ApiContract

open Source

namespace Source

variable (R : Path → Path → Prop)

/-- Called paths: types that are exchanged, or a function that belongs to them. -/
inductive Path.Respelled : Path → Path → Prop where
  | intro {p q called called' : Path} {function : Option String} (h : R p q)
      (hp : p.Calls function called) (hq : q.Calls function called') : Respelled called called'

mutual

/-- Declared types in which a path that stands for a whole type, also inside a wrapper, may be
another one. -/
inductive TypeExpr.Respelled : TypeExpr → TypeExpr → Prop where
  | path {p q : Path} (h : R p q) : TypeExpr.Respelled (.path p) (.path q)
  | arguments {rooted : Bool} {segments segments' : List Segment}
      (h : SegmentsRespelled segments segments') :
      TypeExpr.Respelled (.path (.mk rooted segments)) (.path (.mk rooted segments'))
  | reference {target target' : TypeExpr} (h : TypeExpr.Respelled target target') :
    TypeExpr.Respelled (.reference target) (.reference target')
  | paren {inside inside' : TypeExpr} (h : TypeExpr.Respelled inside inside') :
    TypeExpr.Respelled (.paren inside) (.paren inside')
  | other : TypeExpr.Respelled .other .other

inductive SegmentsRespelled : List Segment → List Segment → Prop where
  | nil : SegmentsRespelled [] []
  | cons {name : String} {arguments arguments' : Arguments} {rest rest' : List Segment}
    (harguments : ArgumentsRespelled arguments arguments') (hrest : SegmentsRespelled rest rest') :
    SegmentsRespelled (.mk name arguments :: rest) (.mk name arguments' :: rest')

inductive ArgumentsRespelled : Arguments → Arguments → Prop where
  | none : ArgumentsRespelled .none .none
  | parenthesized : ArgumentsRespelled .parenthesized .parenthesized
  | angled {args args' : List GenericArg} (h : GenericArgsRespelled args args') :
    ArgumentsRespelled (.angled args) (.angled args')

inductive GenericArgsRespelled : List GenericArg → List GenericArg → Prop where
  | nil : GenericArgsRespelled [] []
  | type {type type' : TypeExpr} {rest rest' : List GenericArg} (h : TypeExpr.Respelled type type')
      (hrest : GenericArgsRespelled rest rest') :
      GenericArgsRespelled (.type type :: rest) (.type type' :: rest')
  | other {rest rest' : List GenericArg} (hrest : GenericArgsRespelled rest rest') :
    GenericArgsRespelled (.other :: rest) (.other :: rest')

end

inductive Param.Respelled : Param → Param → Prop where
  | receiver : Respelled .receiver .receiver
  | typed {pattern : Pattern} {type type' : TypeExpr} (h : type.Respelled R type') :
    Respelled (.typed pattern type) (.typed pattern type')

mutual

/-- Expressions that differ in the paths of records and of calls of types. What macros are given is
the same, and so are the paths that stand for values. -/
inductive Expr.Respelled : Expr → Expr → Prop where
  | same (e : Expr) : Expr.Respelled e e
  | path {path : Path} {inner inner' : List Expr} (hinner : AllRespelled inner inner') :
    Expr.Respelled (.path path inner) (.path path inner')
  | paren {e e' : Expr} (h : Expr.Respelled e e') : Expr.Respelled (.paren e) (.paren e')
  | reference {e e' : Expr} (h : Expr.Respelled e e') :
      Expr.Respelled (.reference e) (.reference e')
  | negate {e e' : Expr} (h : Expr.Respelled e e') : Expr.Respelled (.negate e) (.negate e')
  | tuple {es es' : List Expr} (h : AllRespelled es es') : Expr.Respelled (.tuple es) (.tuple es')
  | array {es es' : List Expr} (h : AllRespelled es es') : Expr.Respelled (.array es) (.array es')
  | record {p q : Path} {inner inner' : List Expr} {fields fields' : List FieldInit}
      {rest rest' : Option Expr} (hpath : p = q ∨ R p q) (hinner : AllRespelled inner inner')
      (hfields : FieldsRespelled fields fields') (hrest : OptionRespelled rest rest') :
      Expr.Respelled (.record p inner fields rest) (.record q inner' fields' rest')
  | call {callee callee' : Expr} {args args' : List Expr} (hcallee : Expr.Respelled callee callee')
    (hargs : AllRespelled args args') : Expr.Respelled (.call callee args) (.call callee' args')
  /-- The call of a type, or of a function of a type, that is spelled in another way. -/
  | called {path path' : Path} {inner inner' args args' : List Expr}
      (hpath : path.Respelled R path') (hinner : AllRespelled inner inner')
      (hargs : AllRespelled args args') :
      Expr.Respelled (.call (.path path inner) args) (.call (.path path' inner') args')
  | method {receiver receiver' : Expr} {name : String} {inner inner' args args' : List Expr}
      (hreceiver : Expr.Respelled receiver receiver') (hinner : AllRespelled inner inner')
      (hargs : AllRespelled args args') :
      Expr.Respelled (.method receiver name inner args) (.method receiver' name inner' args')
  | field {base base' : Expr} (h : Expr.Respelled base base') :
      Expr.Respelled (.field base) (.field base')
  | index {base base' position position' : Expr} (hbase : Expr.Respelled base base')
      (hposition : Expr.Respelled position position') :
      Expr.Respelled (.index base position) (.index base' position')
  | await {e e' : Expr} (h : Expr.Respelled e e') : Expr.Respelled (.await e) (.await e')
  | attempt {e e' : Expr} (h : Expr.Respelled e e') : Expr.Respelled (.attempt e) (.attempt e')
  | assign {left left' right right' : Expr} (hleft : Expr.Respelled left left')
      (hright : Expr.Respelled right right') :
      Expr.Respelled (.assign left right) (.assign left' right')
  | ret {value value' : Option Expr} (h : OptionRespelled value value') :
      Expr.Respelled (.ret value) (.ret value')
  | closure {parts parts' : List Expr} (h : AllRespelled parts parts') :
    Expr.Respelled (.closure parts) (.closure parts')
  | async {body body' : List Stmt} (h : StmtsRespelled body body') :
      Expr.Respelled (.async body) (.async body')
  | branch {condition condition' : Expr} {body body' : List Stmt}
      {otherwise otherwise' : Option Expr} (hcondition : Expr.Respelled condition condition')
      (hbody : StmtsRespelled body body') (hotherwise : OptionRespelled otherwise otherwise') :
      Expr.Respelled (.branch condition body otherwise) (.branch condition' body' otherwise')
  | cases {subject subject' : Expr} {arms arms' : List Arm}
      (hsubject : Expr.Respelled subject subject') (harms : ArmsRespelled arms arms') :
      Expr.Respelled (.cases subject arms) (.cases subject' arms')
  | block {body body' : List Stmt} (h : StmtsRespelled body body') :
      Expr.Respelled (.block body) (.block body')
  | unchecked {body body' : List Stmt} (h : StmtsRespelled body body') :
    Expr.Respelled (.unchecked body) (.unchecked body')
  | compound {parts parts' : List Expr} (h : AllRespelled parts parts') :
    Expr.Respelled (.compound parts) (.compound parts')

inductive AllRespelled : List Expr → List Expr → Prop where
  | nil : AllRespelled [] []
  | cons {e e' : Expr} {rest rest' : List Expr} (h : Expr.Respelled e e')
      (hrest : AllRespelled rest rest') : AllRespelled (e :: rest) (e' :: rest')

inductive OptionRespelled : Option Expr → Option Expr → Prop where
  | none : OptionRespelled none none
  | some {e e' : Expr} (h : Expr.Respelled e e') : OptionRespelled (some e) (some e')

inductive FieldsRespelled : List FieldInit → List FieldInit → Prop where
  | nil : FieldsRespelled [] []
  | cons {name : Option String} {value value' : Expr} {rest rest' : List FieldInit}
      (h : Expr.Respelled value value') (hrest : FieldsRespelled rest rest') :
      FieldsRespelled (.mk name value :: rest) (.mk name value' :: rest')

inductive ArmsRespelled : List Arm → List Arm → Prop where
  | nil : ArmsRespelled [] []
  | cons {inner inner' : List Expr} {guard guard' : Option Expr} {body body' : Expr}
      {rest rest' : List Arm} (hinner : AllRespelled inner inner')
      (hguard : OptionRespelled guard guard') (hbody : Expr.Respelled body body')
      (hrest : ArmsRespelled rest rest') :
      ArmsRespelled (.mk inner guard body :: rest) (.mk inner' guard' body' :: rest')

inductive StmtsRespelled : List Stmt → List Stmt → Prop where
  | nil : StmtsRespelled [] []
  | bind {pattern : Pattern} {inner inner' : List Expr}
      {value value' otherwise otherwise' : Option Expr} {rest rest' : List Stmt}
      (hinner : AllRespelled inner inner') (hvalue : OptionRespelled value value')
      (hotherwise : OptionRespelled otherwise otherwise') (hrest : StmtsRespelled rest rest') :
      StmtsRespelled (.bind pattern inner value otherwise :: rest)
        (.bind pattern inner' value' otherwise' :: rest')
  | item {item item' : Item} {rest rest' : List Stmt} (h : Item.Respelled item item')
    (hrest : StmtsRespelled rest rest') : StmtsRespelled (.item item :: rest) (.item item' :: rest')
  | expr {e e' : Expr} {closed : Bool} {rest rest' : List Stmt} (h : Expr.Respelled e e')
      (hrest : StmtsRespelled rest rest') :
      StmtsRespelled (.expr e closed :: rest) (.expr e' closed :: rest')
  | expansion {e : Expr} {closed : Bool} {rest rest' : List Stmt}
      (hrest : StmtsRespelled rest rest') :
      StmtsRespelled (.expansion e closed :: rest) (.expansion e closed :: rest')

inductive Function.Respelled : Function → Function → Prop where
  | mk {attributes : List Attribute} {name : String} {params params' : List Param}
      {inner inner' : List Expr} {body body' : List Stmt}
      (hparams : List.Forall₂ (Param.Respelled R) params params')
      (hinner : AllRespelled inner inner') (hbody : StmtsRespelled body body') : Function.Respelled
      (.mk attributes name params inner body) (.mk attributes name params' inner' body')

inductive MembersRespelled : List Member → List Member → Prop where
  | nil : MembersRespelled [] []
  | function {f f' : Function} {rest rest' : List Member} (h : Function.Respelled f f')
      (hrest : MembersRespelled rest rest') :
      MembersRespelled (.function f :: rest) (.function f' :: rest')
  | other {inner inner' : List Expr} {rest rest' : List Member} (hinner : AllRespelled inner inner')
      (hrest : MembersRespelled rest rest') :
      MembersRespelled (.other inner :: rest) (.other inner' :: rest')

inductive Item.Respelled : Item → Item → Prop where
  | function {f f' : Function} (h : Function.Respelled f f') :
      Item.Respelled (.function f) (.function f')
  | struct {attributes : List Attribute} {name : String} {fields : Fields}
      {inner inner' : List Expr} (hinner : AllRespelled inner inner') :
      Item.Respelled (.struct attributes name fields inner) (.struct attributes name fields inner')
  | enum {attributes : List Attribute} {name : String} {inner inner' : List Expr}
      (hinner : AllRespelled inner inner') :
      Item.Respelled (.enum attributes name inner) (.enum attributes name inner')
  | declaration {name : String} {inner inner' : List Expr} (hinner : AllRespelled inner inner') :
    Item.Respelled (.declaration name inner) (.declaration name inner')
  | implementation {trait : Option Path} {type : TypeExpr} {inner inner' : List Expr}
      {members members' : List Member} (hinner : AllRespelled inner inner')
      (hmembers : MembersRespelled members members') : Item.Respelled
      (.implementation trait type inner members) (.implementation trait type inner' members')
  | imports {tree : UseTree} : Item.Respelled (.imports tree) (.imports tree)
  | declaredModule {name : String} : Item.Respelled (.module name none) (.module name none)
  | module {name : String} {items items' : List Item} (h : ItemsRespelled items items') :
    Item.Respelled (.module name (some items)) (.module name (some items'))
  | other {inner inner' : List Expr} (hinner : AllRespelled inner inner') :
    Item.Respelled (.other inner) (.other inner')

inductive ItemsRespelled : List Item → List Item → Prop where
  | nil : ItemsRespelled [] []
  | cons {item item' : Item} {rest rest' : List Item} (h : Item.Respelled item item')
    (hrest : ItemsRespelled rest rest') : ItemsRespelled (item :: rest) (item' :: rest')

end

/-- What a traversal meets: respelled expressions, and the paths that they call. -/
inductive Expr.Alike : Expr → Expr → Prop where
  | respelled {e e' : Expr} (h : e.Respelled R e') : Alike e e'
  | path {path path' : Path} {inner inner' : List Expr} :
      Alike (.path path inner) (.path path' inner')

/-- A traversal that enters alike expressions alike. -/
def Uniform (into : Expr → Bool) : Prop := ∀ ⦃e e' : Expr⦄, Expr.Alike R e e' → into e = into e'

section

variable {R} {into : Expr → Bool}

theorem alike_enter (hinto : Uniform R into) {e e' : Expr} (h : Expr.Alike R e e')
    {inside inside' : List Expr} (hinside : List.Forall₂ (Expr.Alike R) inside inside') :
    List.Forall₂ (Expr.Alike R) (Expr.enter into e inside) (Expr.enter into e' inside') := by
  refine .cons h ?_
  rw [hinto h]
  split
  · exact hinside
  · exact .nil

theorem forall₂_alike_refl (es : List Expr) : List.Forall₂ (Expr.Alike R) es es :=
  List.forall₂_same.mpr fun e _ => .respelled (.same e)

mutual

theorem Expr.Respelled.nodes {e e' : Expr} (h : e.Respelled R e') (hinto : Uniform R into) :
    List.Forall₂ (Expr.Alike R) (e.nodes into) (e'.nodes into) := by
  match h with
  | .same e => exact forall₂_alike_refl _
  | .path hinner => exact alike_enter hinto (.respelled (.path hinner)) (hinner.nodes hinto)
  | .paren h => exact alike_enter hinto (.respelled (.paren h)) (h.nodes hinto)
  | .reference h => exact alike_enter hinto (.respelled (.reference h)) (h.nodes hinto)
  | .negate h => exact alike_enter hinto (.respelled (.negate h)) (h.nodes hinto)
  | .tuple h => exact alike_enter hinto (.respelled (.tuple h)) (h.nodes hinto)
  | .array h => exact alike_enter hinto (.respelled (.array h)) (h.nodes hinto)
  | .record hpath hinner hfields hrest =>
    exact alike_enter hinto (.respelled (.record hpath hinner hfields hrest)) (List.rel_append
      (List.rel_append (hinner.nodes hinto) (hfields.nodes hinto)) (hrest.nodes hinto))
  | .call hcallee hargs =>
    exact alike_enter hinto (.respelled (.call hcallee hargs))
      (List.rel_append (hcallee.nodes hinto) (hargs.nodes hinto))
  | .called hpath hinner hargs =>
    exact alike_enter hinto (.respelled (.called hpath hinner hargs))
      (List.rel_append (alike_enter hinto .path (hinner.nodes hinto)) (hargs.nodes hinto))
  | .method hreceiver hinner hargs =>
    exact alike_enter hinto (.respelled (.method hreceiver hinner hargs)) (List.rel_append
      (List.rel_append (hreceiver.nodes hinto) (hinner.nodes hinto)) (hargs.nodes hinto))
  | .field h => exact alike_enter hinto (.respelled (.field h)) (h.nodes hinto)
  | .index hbase hposition =>
    exact alike_enter hinto (.respelled (.index hbase hposition))
      (List.rel_append (hbase.nodes hinto) (hposition.nodes hinto))
  | .await h => exact alike_enter hinto (.respelled (.await h)) (h.nodes hinto)
  | .attempt h => exact alike_enter hinto (.respelled (.attempt h)) (h.nodes hinto)
  | .assign hleft hright =>
    exact alike_enter hinto (.respelled (.assign hleft hright))
      (List.rel_append (hleft.nodes hinto) (hright.nodes hinto))
  | .ret h => exact alike_enter hinto (.respelled (.ret h)) (h.nodes hinto)
  | .closure h => exact alike_enter hinto (.respelled (.closure h)) (h.nodes hinto)
  | .async h => exact alike_enter hinto (.respelled (.async h)) (h.nodes hinto)
  | .branch hcondition hbody hotherwise =>
    exact alike_enter hinto (.respelled (.branch hcondition hbody hotherwise)) (List.rel_append
      (List.rel_append (hcondition.nodes hinto) (hbody.nodes hinto)) (hotherwise.nodes hinto))
  | .cases hsubject harms =>
    exact alike_enter hinto (.respelled (.cases hsubject harms))
      (List.rel_append (hsubject.nodes hinto) (harms.nodes hinto))
  | .block h => exact alike_enter hinto (.respelled (.block h)) (h.nodes hinto)
  | .unchecked h => exact alike_enter hinto (.respelled (.unchecked h)) (h.nodes hinto)
  | .compound h => exact alike_enter hinto (.respelled (.compound h)) (h.nodes hinto)

theorem AllRespelled.nodes {es es' : List Expr} (h : AllRespelled R es es')
    (hinto : Uniform R into) :
    List.Forall₂ (Expr.Alike R) (nodesOfAll into es) (nodesOfAll into es') := by
  match h with
  | .nil => exact .nil
  | .cons h hrest => exact List.rel_append (h.nodes hinto) (hrest.nodes hinto)

theorem OptionRespelled.nodes {o o' : Option Expr} (h : OptionRespelled R o o')
    (hinto : Uniform R into) :
    List.Forall₂ (Expr.Alike R) (nodesOfOption into o) (nodesOfOption into o') := by
  match h with
  | .none => exact .nil
  | .some h => exact h.nodes hinto

theorem FieldsRespelled.nodes {fs fs' : List FieldInit} (h : FieldsRespelled R fs fs')
    (hinto : Uniform R into) :
    List.Forall₂ (Expr.Alike R) (nodesOfFields into fs) (nodesOfFields into fs') := by
  match h with
  | .nil => exact .nil
  | .cons h hrest => exact List.rel_append (h.nodes hinto) (hrest.nodes hinto)

theorem ArmsRespelled.nodes {as as' : List Arm} (h : ArmsRespelled R as as')
    (hinto : Uniform R into) :
    List.Forall₂ (Expr.Alike R) (nodesOfArms into as) (nodesOfArms into as') := by
  match h with
  | .nil => exact .nil
  | .cons hinner hguard hbody hrest =>
    exact List.rel_append
      (List.rel_append (List.rel_append (hinner.nodes hinto) (hguard.nodes hinto))
        (hbody.nodes hinto)) (hrest.nodes hinto)

theorem StmtsRespelled.nodes {ss ss' : List Stmt} (h : StmtsRespelled R ss ss')
    (hinto : Uniform R into) :
    List.Forall₂ (Expr.Alike R) (nodesOfStmts into ss) (nodesOfStmts into ss') := by
  match h with
  | .nil => exact .nil
  | .bind hinner hvalue hotherwise hrest =>
    exact List.rel_append
      (List.rel_append (List.rel_append (hinner.nodes hinto) (hvalue.nodes hinto))
        (hotherwise.nodes hinto)) (hrest.nodes hinto)
  | .item h hrest => exact List.rel_append (h.nodes hinto) (hrest.nodes hinto)
  | .expr h hrest => exact List.rel_append (h.nodes hinto) (hrest.nodes hinto)
  | .expansion hrest => exact hrest.nodes hinto

theorem Function.Respelled.nodes {f f' : Function} (h : f.Respelled R f') (hinto : Uniform R into) :
    List.Forall₂ (Expr.Alike R) (nodesOfFunction into f) (nodesOfFunction into f') := by
  match h with
  | .mk _ hinner hbody => exact List.rel_append (hinner.nodes hinto) (hbody.nodes hinto)

theorem MembersRespelled.nodes {ms ms' : List Member} (h : MembersRespelled R ms ms')
    (hinto : Uniform R into) :
    List.Forall₂ (Expr.Alike R) (nodesOfMembers into ms) (nodesOfMembers into ms') := by
  match h with
  | .nil => exact .nil
  | .function h hrest => exact List.rel_append (h.nodes hinto) (hrest.nodes hinto)
  | .other hinner hrest => exact List.rel_append (hinner.nodes hinto) (hrest.nodes hinto)

theorem Item.Respelled.nodes {item item' : Item} (h : item.Respelled R item')
    (hinto : Uniform R into) :
    List.Forall₂ (Expr.Alike R) (nodesOfItem into item) (nodesOfItem into item') := by
  match h with
  | .function h => exact h.nodes hinto
  | .struct hinner | .enum hinner | .declaration hinner | .other hinner => exact hinner.nodes hinto
  | .implementation hinner hmembers =>
    exact List.rel_append (hinner.nodes hinto) (hmembers.nodes hinto)
  | .imports | .declaredModule => exact .nil
  | .module h => exact h.nodes hinto

theorem ItemsRespelled.nodes {items items' : List Item} (h : ItemsRespelled R items items')
    (hinto : Uniform R into) :
    List.Forall₂ (Expr.Alike R) (nodesOfItems into items) (nodesOfItems into items') := by
  match h with
  | .nil => exact .nil
  | .cons h hrest => exact List.rel_append (h.nodes hinto) (hrest.nodes hinto)

end

theorem AllRespelled.length_eq {es es' : List Expr} (h : AllRespelled R es es') :
    es.length = es'.length := by
  match h with
  | .nil => rfl
  | .cons _ hrest => rw [List.length_cons, List.length_cons, hrest.length_eq]

end

end Source

end ApiContract
