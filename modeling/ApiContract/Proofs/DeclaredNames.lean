import ApiContract.Proofs.Lexing
import ApiContract.Source.File

namespace ApiContract.Source

open Reading Reader Token

/-- Items are declared under identifiers. Of the keywords only one may stand for a name. -/
def IsDeclarable (name : String) : Prop :=
  isIdentifier name = true ∧ (name ∉ keywords ∨ name = "try")

namespace Segment

def Named (segment : Segment) : Prop := isIdentifier segment.name = true

end Segment

namespace Path

def Named (path : Path) : Prop := ∀ segment ∈ path.segments, segment.Named

end Path

namespace TypeExpr

def Named : TypeExpr → Prop
  | .path p => p.Named
  | _ => True

end TypeExpr

inductive UseTree.Named : UseTree → Prop where
  | path {ident : String} {tree : UseTree} (hi : isIdentifier ident = true) (ht : Named tree) :
    Named (.path ident tree)
  | name {ident : String} (hi : isIdentifier ident = true) : Named (.name ident)
  | rename {ident name : String} (hi : isIdentifier ident = true) (hn : isIdentifier name = true) :
    Named (.rename ident name)
  | glob : Named .glob
  | group {trees : List UseTree} (ht : ∀ tree ∈ trees, Named tree) : Named (.group trees)

/-- Whatever an item declares, at any depth of modules, has a name that can be declared. -/
inductive Item.Named : Item → Prop where
  | function {f : Function} (hf : IsDeclarable f.name) : Named (.function f)
  | struct {attributes : List Attribute} {name : String} {fields : Fields} {inner : List Expr}
    (hn : IsDeclarable name) : Named (.struct attributes name fields inner)
  | enum {attributes : List Attribute} {name : String} {inner : List Expr}
      (hn : IsDeclarable name) : Named (.enum attributes name inner)
  | declaration {name : String} {inner : List Expr} (hn : IsDeclarable name) :
      Named (.declaration name inner)
  | implementation {trait : Option Path} {type : TypeExpr} {inner : List Expr}
      {members : List Member} (ht : type.Named) : Named (.implementation trait type inner members)
  | imports {tree : UseTree} (ht : tree.Named) : Named (.imports tree)
  | module {name : String} {content : Option (List Item)} (hn : IsDeclarable name)
    (hc : ∀ items ∈ content, ∀ item ∈ items, Named item) : Named (.module name content)
  | other {inner : List Expr} : Named (.other inner)

namespace Grammar

variable {g : Grammar}

/-- What the recursion over the depth of trees carries on. -/
structure Sound (g : Grammar) : Prop where
  type : ∀ plus, (g.type plus).Yields fun found => found.type.Named
  item : (g .item : Reader Item).Yields Item.Named

theorem declarable_yields : ident.Yields IsDeclarable :=
  ident_yields.mono fun _ h => ⟨h.1, Or.inl h.2⟩

theorem newName_yields : newName.Yields fun name => isIdentifier name = true :=
  Yields.step fun _ => Yields.ite (fun _ => anyIdent_yields) fun _ => Yields.failure

theorem useTree_yields (roots : Bool) (fuel : Nat) :
    (useTree roots fuel).Yields fun found => ∀ tree ∈ found, tree.Named := by
  induction fuel generalizing roots with
  | zero => exact Yields.failure
  | succ fuel ih =>
    unfold useTree
    refine Yields.step fun ts => Yields.ite (fun _ => ?word) fun _ =>
      Yields.ite (fun _ => ?star) fun _ => Yields.ite (fun _ => ?group) fun _ => Yields.failure
    case word =>
      refine anyIdent_yields.bind fun name hname =>
        Yields.step fun _ => Yields.ite (fun _ => ?_) fun _ => ?_
      · refine (ih false).bind fun found hfound => Yields.pure ?_
        rintro tree hm
        obtain ⟨inner, hinner, rfl⟩ := Option.map_eq_some_iff.mp hm
        exact .path hname (hfound inner hinner)
      · refine Yields.step fun _ => Yields.ite (fun _ => ?_) fun _ => Yields.pure ?_
        · refine newName_yields.bind fun other hother => Yields.pure ?_
          rintro tree ⟨⟩
          exact .rename hname hother
        · rintro tree ⟨⟩
          exact .name hname
    case star =>
      refine Yields.step fun _ => Yields.pure ?_
      rintro tree ⟨⟩
      exact .glob
    case group =>
      -- a part that starts with a double colon is not kept
      have hpart : ∀ rooted : Bool, (useTree (roots && !rooted) fuel >>= fun tree =>
          (pure (if rooted then none else tree) : Reader (Option UseTree))).Yields
            fun found => ∀ tree ∈ found, tree.Named := by
        intro rooted
        refine (ih _).bind fun found hfound => Yields.pure ?_
        cases rooted with
        | false => exact hfound
        | true => rintro tree ⟨⟩
      refine (inside_yields (commas_yields (Yields.oneOf hpart))).bind fun trees htrees =>
        Yields.pure ?_
      intro tree hm
      split at hm
      next =>
        cases hm
        refine .group fun tree hm => ?_
        obtain ⟨found, hfound, rfl⟩ := List.mem_filterMap.mp hm
        exact htrees _ hfound tree rfl
      next => cases hm

theorem importItem_yields : importItem.Yields Item.Named := by
  unfold importItem
  refine Yields.step fun _ => Yields.step fun _ => Yields.step fun _ => Yields.step fun _ => ?_
  refine (useTree_yields _ _).bind fun found hfound => Yields.step fun _ => ?_
  cases found with
  | none => exact Yields.pure .other
  | some tree => exact Yields.pure (.imports (hfound tree rfl))

theorem segment_yields (inExpr : Bool) : (g.segment inExpr).Yields fun found => found.1.Named := by
  unfold segment
  refine Yields.step fun _ => Yields.ite (fun _ => ?_) fun _ => Yields.step fun _ => ?_
  · exact anyIdent_yields.bind fun _ hname => Yields.pure hname
  · refine Yields.either anyIdent_yields (ident_yields.mono fun _ h => h.1) fun name hname => ?_
    refine Yields.step fun _ =>
      Yields.ite (fun _ => Yields.step fun _ => Yields.step fun args => ?_) fun _ => ?_
    · exact Yields.pure hname
    · exact Yields.pure hname

theorem moreSegments_yields (inExpr : Bool) :
    (g.moreSegments inExpr).Yields fun found => ∀ part ∈ found, part.1.Named :=
  manyWhile_yields (Yields.step fun _ => segment_yields inExpr)

theorem forall_named_fst {found : List (Segment × List Expr)} (h : ∀ part ∈ found, part.1.Named) :
    ∀ segment ∈ found.map Prod.fst, segment.Named := by
  intro segment hm
  obtain ⟨part, hp, rfl⟩ := List.mem_map.mp hm
  exact h part hp

theorem path_yields (inExpr : Bool) : (g.path inExpr).Yields fun found => found.path.Named := by
  unfold path
  refine Yields.step fun _ => (segment_yields inExpr).bind fun first hfirst => ?_
  refine (moreSegments_yields inExpr).bind fun rest hrest => Yields.pure ?_
  exact forall_named_fst (List.forall_mem_cons.mpr ⟨hfirst, hrest⟩)

theorem qualifiedPath_yields (inExpr : Bool) :
    (g.qualifiedPath inExpr).Yields fun found => found.path.Named := by
  unfold qualifiedPath
  refine Yields.step fun _ => Yields.ite (fun _ => ?_) fun _ => path_yields inExpr
  refine Yields.step fun this => Yields.step fun _ => ?_
  have htrait : (some <$> g.path false).Yields fun found => ∀ trait ∈ found, trait.path.Named :=
    (path_yields false).map (by simp)
  refine Yields.either htrait (Yields.pure (by simp)) fun trait ht => ?_
  refine Yields.step fun _ =>
    Yields.step fun _ => (segment_yields inExpr).bind fun first hfirst => ?_
  refine (manyWhile_yields (Yields.step fun _ => segment_yields inExpr)).bind fun rest hrest => ?_
  have hparts : ∀ segment ∈ (first :: rest).map Prod.fst, segment.Named :=
    forall_named_fst (List.forall_mem_cons.mpr ⟨hfirst, hrest⟩)
  cases trait with
  | none => exact Yields.pure hparts
  | some t => exact Yields.pure (List.forall_mem_append.mpr ⟨ht t rfl, hparts⟩)

theorem named_closeLast {p : Path} (h : p.Named) : (closeLast p).Named := by
  obtain ⟨rooted, segments⟩ := p
  refine List.forall_mem_append.mpr ⟨fun segment hm => h segment (segments.dropLast_subset hm), ?_⟩
  intro segment hm
  obtain ⟨last, hlast, rfl⟩ :
      ∃ last, segments.getLast? = some last ∧ Segment.mk last.name .parenthesized = segment := by
    simpa using hm
  exact h last (List.mem_of_getLast? hlast)

theorem typePath_yields : g.typePath.Yields fun found => found.path.Named := by
  have hgo : ∀ (fuel : Nat) (found : PathRead), found.path.Named →
      (typePath.go g found fuel).Yields fun found => found.path.Named := by
    intro fuel
    induction fuel with
    | zero => exact fun _ _ => Yields.failure
    | succ fuel ih =>
      intro found hfound
      have hclosed := named_closeLast hfound
      -- brackets are put behind the last segment, and more segments behind them
      have hlonger : ∀ (inner : List Expr), (g.moreSegments false >>= fun rest => typePath.go g
          { found with path := .mk (closeLast found.path).rooted ((closeLast found.path).segments ++
            rest.map Prod.fst),
                       inner := inner ++ (rest.map Prod.snd).flatten } fuel).Yields fun found =>
                         found.path.Named := by
        intro inner
        refine (moreSegments_yields false).bind fun rest hrest => ih _ ?_
        exact List.forall_mem_append.mpr ⟨hclosed, forall_named_fst hrest⟩
      unfold typePath.go
      refine Yields.step fun _ => Yields.ite (fun _ => ?_) fun _ => Yields.pure hfound
      refine Yields.step fun _ =>
        Yields.step fun inputs => Yields.step fun _ => Yields.ite (fun _ => ?_) fun _ => hlonger _
      refine Yields.step fun output => ?_
      split
      · exact hlonger _
      · exact Yields.pure hclosed
  exact (qualifiedPath_yields false).bind fun found hfound =>
    Yields.step fun _ => hgo _ found hfound

theorem namedType_yields (plus : Bool) (binder : Option (List Expr)) :
    (g.namedType plus binder).Yields fun found => found.type.Named := by
  unfold namedType
  refine typePath_yields.bind fun found hfound =>
    Yields.ite (fun _ => Yields.pure hfound) fun _ => ?_
  refine Yields.step fun _ => Yields.ite (fun _ => ?_) fun _ => Yields.step fun _ => ?_
  · exact Yields.step fun _ => Yields.step fun _ => Yields.pure trivial
  · refine Yields.ite (fun _ => Yields.ite (fun _ => ?_) fun _ => Yields.pure trivial) fun _ =>
      Yields.pure hfound
    exact Yields.step fun _ => Yields.pure trivial

/-- What stands in round brackets is no path, even if it is a type in brackets that is one. -/
theorem roundType_yields (plus : Bool) :
    (g.roundType plus).Yields fun found => found.type.Named := by
  unfold roundType
  refine Yields.step fun ts => ?_
  split
  · exact Yields.step fun _ => Yields.pure trivial
  · refine Yields.ite (fun _ => Yields.step fun _ => Yields.pure trivial) fun _ => ?_
    refine Yields.ite (fun _ => Yields.step fun _ => Yields.step fun _ => Yields.pure trivial)
      fun _ => ?_
    refine Yields.step fun found => ?_
    split
    split
    · refine Yields.step fun _ => Yields.ite (fun _ => ?_) fun _ => Yields.pure trivial
      split
      · exact Yields.step fun _ => Yields.pure trivial
      · exact Yields.pure trivial
    · exact Yields.pure trivial
  · exact Yields.failure
  · exact Yields.failure

theorem readType_yields (plus : Bool) : (g.readType plus).Yields fun found => found.type.Named := by
  have hother :
      ∀ inner, (pure ⟨.other, inner⟩ : Reader Typed).Yields fun found => found.type.Named :=
    fun _ => Yields.pure trivial
  unfold readType
  refine Yields.step fun binder =>
    Yields.step fun ts => Yields.ite (fun _ => Yields.failure_step) fun _ => ?_
  refine Yields.ite (fun _ => roundType_yields plus) fun _ => ?_
  refine Yields.ite (fun _ => Yields.step fun _ => hother _) fun _ => ?_
  refine Yields.ite (fun _ => namedType_yields plus binder) fun _ => ?_
  refine Yields.ite
    (fun _ => Yields.step fun _ => Yields.step fun _ => Yields.step fun _ => hother _) fun _ => ?_
  refine Yields.ite (fun _ => Yields.step fun _ => hother _) fun _ => ?_
  refine Yields.ite (fun _ => Yields.step fun _ => Yields.step fun _ =>
    Yields.perhaps fun _ => Yields.step fun _ => hother _) fun _ => ?_
  refine Yields.ite (fun _ => Yields.step fun _ => Yields.step fun _ =>
    Yields.perhaps fun _ => Yields.step fun _ => Yields.step fun _ => Yields.pure ?_) fun _ => ?_
  · exact trivial
  refine Yields.ite (fun _ => Yields.step fun _ => hother _) fun _ => ?_
  refine Yields.ite (fun _ => Yields.step fun _ => Yields.step fun _ => hother _) fun _ => ?_
  exact Yields.ite (fun _ => Yields.step fun _ => hother _) fun _ => Yields.failure

theorem signature_yields (safe : Bool) :
    (g.signature safe).Yields fun s => IsDeclarable s.name := by
  unfold signature
  refine Yields.step fun _ => Yields.step fun _ => declarable_yields.bind fun name hname => ?_
  refine Yields.step fun _ => Yields.step fun _ => Yields.step fun _ => Yields.step fun _ => ?_
  exact Yields.pure hname

theorem functionBody_yields (attributes : List Attribute) {s : Signature}
    (h : IsDeclarable s.name) : (g.functionBody attributes s).Yields fun f => IsDeclarable f.name :=
  Yields.step fun _ => Yields.pure h

theorem structItem_yields (attributes : List Attribute) :
    (g.structItem attributes).Yields Item.Named := by
  unfold structItem
  refine Yields.step fun _ => Yields.step fun _ => declarable_yields.bind fun name hname => ?_
  refine Yields.step fun _ => Yields.step fun _ => Yields.step fun _ => Yields.step fun _ => ?_
  refine Yields.ite (fun _ => ?_) fun _ => Yields.step fun _ => Yields.ite (fun _ => ?_) fun _ => ?_
  · exact Yields.step fun _ => Yields.step fun _ => Yields.step fun _ => Yields.pure (.struct hname)
  · exact Yields.step fun _ => Yields.pure (.struct hname)
  · exact Yields.step fun _ => Yields.pure (.struct hname)

theorem enumItem_yields (attributes : List Attribute) :
    (g.enumItem attributes).Yields Item.Named := by
  unfold enumItem
  refine Yields.step fun _ => Yields.step fun _ => declarable_yields.bind fun name hname => ?_
  exact Yields.step fun _ => Yields.step fun _ => Yields.step fun _ => Yields.pure (.enum hname)

theorem unionItem_yields : g.unionItem.Yields Item.Named := by
  unfold unionItem
  refine Yields.step fun _ => Yields.step fun _ => declarable_yields.bind fun name hname => ?_
  exact Yields.step fun _ =>
    Yields.step fun _ => Yields.step fun _ => Yields.pure (.declaration hname)

theorem aliasRest_yields (clauseFirst clauseLast : Bool) :
    (g.aliasRest clauseFirst clauseLast).Yields fun a => IsDeclarable a.name := by
  unfold aliasRest
  refine Yields.step fun _ => declarable_yields.bind fun name hname => ?_
  refine Yields.step fun _ => Yields.step fun _ => Yields.step fun _ => Yields.step fun _ => ?_
  refine Yields.oneOf fun before => Yields.step fun _ => Yields.oneOf fun definition => ?_
  exact Yields.oneOf fun after => Yields.step fun _ => Yields.pure hname

theorem traitBody_yields (generics : List Expr) {name : String} (h : IsDeclarable name) :
    (g.traitBody generics name).Yields Item.Named :=
  Yields.step fun _ => Yields.step fun _ => Yields.step fun _ => Yields.pure (.declaration h)

theorem traitItem_yields : g.traitItem.Yields Item.Named := by
  unfold traitItem
  refine Yields.step fun _ => Yields.step fun _ => Yields.step fun _ => Yields.step fun _ => ?_
  refine declarable_yields.bind fun name hname =>
    Yields.step fun generics => Yields.step fun _ => ?_
  refine Yields.ite (fun _ => ?_) fun _ => traitBody_yields generics hname
  exact Yields.step fun _ => Yields.step fun _ => Yields.step fun _ => Yields.pure .other

theorem implItem_yields (h : g.Sound) : g.implItem.Yields Item.Named := by
  unfold implItem
  refine Yields.step fun _ =>
    Yields.step fun _ => Yields.step fun _ => Yields.step fun _ => Yields.step fun _ => ?_
  refine Yields.oneOf fun generics =>
    Yields.step fun _ => Yields.step fun _ => Yields.step fun _ => ?_
  refine (h.type true).bind fun first hfirst =>
    Yields.step fun _ => Yields.ite (fun _ => Yields.failure_step) fun _ => ?_
  have hsecond : (some <$> g.type).Yields fun second => ∀ target ∈ second, target.type.Named :=
    (h.type true).map (by simp)
  refine Yields.either hsecond (Yields.pure (by simp)) fun second hsecond => ?_
  refine Yields.step fun _ =>
    Yields.step fun _ => Yields.ite (fun _ => Yields.pure .other) fun _ => Yields.pure ?_
  cases second with
  | none => exact .implementation hfirst
  | some target => exact .implementation (hsecond target rfl)

theorem moduleName_yields : moduleName.Yields IsDeclarable := by
  intro tokens name rest ht hr
  change (if isWord "try" tokens = true then anyIdent else Reading.ident).run tokens =
    some (name, rest) at hr
  split at hr
  next htry =>
    refine ⟨anyIdent_yields tokens name rest ht hr, Or.inr ?_⟩
    unfold isWord at htry
    split at htry
    next =>
      cases hr
      exact eq_of_beq htry
    next => cases htry
  next => exact declarable_yields tokens name rest ht hr

theorem moduleItem_yields (h : g.Sound) : g.moduleItem.Yields Item.Named := by
  have hitems : (manyWhile (do return !(← atEnd)) (g .item : Reader Item)).Yields
      fun items => ∀ item ∈ items, item.Named := manyWhile_yields h.item
  unfold moduleItem
  refine Yields.step fun _ =>
    Yields.step fun _ => Yields.step fun _ => moduleName_yields.bind fun name hname => ?_
  refine Yields.step fun _ =>
    Yields.ite (fun _ => Yields.pure (.module hname (by simp))) fun _ => ?_
  refine (inside_yields (Yields.step fun _ => hitems)).bind fun items hitems =>
    Yields.pure (.module hname ?_)
  rintro _ ⟨⟩
  exact hitems

theorem externItem_yields : externItem.Yields Item.Named := by
  have hend : (takeOp ";" >>= fun _ => pure (.other []) : Reader Item).Yields Item.Named :=
    Yields.step fun _ => Yields.pure .other
  unfold externItem
  refine Yields.step fun _ => Yields.step fun _ => Yields.step fun _ => Yields.step fun _ => ?_
  exact Yields.oneOf fun _ =>
    Yields.step fun _ => Yields.ite (fun _ => Yields.step fun _ => hend) fun _ => hend

theorem staticItem_yields : g.staticItem.Yields Item.Named := by
  unfold staticItem
  refine Yields.step fun _ =>
    Yields.step fun _ => Yields.step fun _ => Yields.step fun _ => Yields.step fun _ => ?_
  refine Yields.ite (fun _ => Yields.step fun _ => Yields.step fun _ => Yields.pure .other) fun _ =>
    ?_
  refine Yields.step fun _ => Yields.step fun _ => Yields.step fun _ => ?_
  refine Yields.ite (fun _ => Yields.pure .other) fun _ => ?_
  exact Yields.step fun _ => Yields.step fun _ => Yields.step fun _ => Yields.pure .other

theorem foreignItem_yields : g.foreignItem.Yields Item.Named := by
  unfold foreignItem
  refine Yields.step fun _ =>
    Yields.step fun _ => Yields.ite (fun _ => Yields.failure_step) fun _ => ?_
  exact Yields.step fun _ => Yields.pure .other

theorem itemRest_yields (h : g.Sound) (attributes : List Attribute) :
    (g.itemRest attributes).Yields Item.Named := by
  unfold itemRest
  refine Yields.step fun start => ?_
  refine Yields.ite (fun _ => ?function) fun _ => ?_
  case function =>
    refine Yields.step fun _ => (signature_yields false).bind fun s hs => Yields.step fun _ => ?_
    refine Yields.ite (fun _ => Yields.pure .other) fun _ => ?_
    exact (functionBody_yields attributes hs).bind fun f hf => Yields.pure (.function hf)
  refine Yields.ite (fun _ => ?foreign) fun _ => ?_
  case foreign =>
    refine Yields.ite (fun _ => externItem_yields) fun _ =>
      Yields.ite (fun _ => ?_) fun _ => Yields.failure
    exact Yields.ite (fun _ => Yields.failure) fun _ => foreignItem_yields
  refine Yields.ite (fun _ => importItem_yields) fun _ => ?_
  refine Yields.ite (fun _ => staticItem_yields) fun _ => ?_
  refine Yields.ite (fun _ =>
    Yields.step fun _ => Yields.step fun _ => Yields.step fun _ => Yields.pure .other) fun _ => ?_
  refine Yields.ite (fun _ => ?unchecked) fun _ => ?_
  case unchecked =>
    refine Yields.ite (fun _ => traitItem_yields) fun _ =>
      Yields.ite (fun _ => implItem_yields h) fun _ => ?_
    refine Yields.ite (fun _ => Yields.ite (fun _ => Yields.failure) fun _ => foreignItem_yields)
      fun _ => ?_
    exact Yields.ite (fun _ => moduleItem_yields h) fun _ => Yields.failure
  refine Yields.ite (fun _ => moduleItem_yields h) fun _ => ?_
  refine Yields.ite (fun _ => ?type) fun _ => ?_
  case type =>
    refine Yields.step fun _ => (aliasRest_yields true false).bind fun a ha => Yields.pure ?_
    split
    · exact .declaration ha
    · exact .other
  refine Yields.ite (fun _ => structItem_yields attributes) fun _ => ?_
  refine Yields.ite (fun _ => enumItem_yields attributes) fun _ => ?_
  refine Yields.ite (fun _ => unionItem_yields) fun _ => ?_
  refine Yields.ite (fun _ => traitItem_yields) fun _ => ?_
  refine Yields.ite (fun _ => implItem_yields h) fun _ => ?_
  refine Yields.ite (fun _ => ?rules) fun _ => ?_
  case rules =>
    refine Yields.step fun _ => Yields.step fun _ => Yields.step fun _ => Yields.step fun _ => ?_
    refine Yields.perhaps fun _ => Yields.step fun _ => ?_
    exact Yields.ite (fun _ => Yields.step fun _ => Yields.pure .other) fun _ => Yields.failure_step
  refine Yields.ite (fun _ => Yields.step fun _ => Yields.pure .other) fun _ => Yields.failure

theorem readItem_yields (h : g.Sound) : g.readItem.Yields Item.Named :=
  Yields.step fun attributes => itemRest_yields h attributes

theorem sound_toDepth (depth : Nat) : (toDepth depth).Sound := by
  induction depth with
  | zero => exact ⟨fun _ => Yields.failure, Yields.failure⟩
  | succ depth ih => exact ⟨fun plus => readType_yields plus, readItem_yields ih⟩

end Grammar

/-- The items of a text declare names, and refer to names, that are identifiers. -/
theorem File.named_of_parse? {text : String} {file : File} (h : File.parse? text = some file) :
    ∀ item ∈ file.items, item.Named := by
  unfold File.parse? at h
  simp only [Option.bind_eq_bind, Option.bind_eq_some_iff] at h
  obtain ⟨tokens, htokens, items, hitems, hfile⟩ := h
  cases hfile
  have hsound : (Grammar.forTokens tokens).Sound := Grammar.sound_toDepth _
  have hread :
      (manyWhile (do return !(← atEnd)) (Grammar.forTokens tokens .item : Reader Item)).Yields
        fun items => ∀ item ∈ items, item.Named := manyWhile_yields hsound.item
  exact all_yields (Yields.step fun _ => hread) (Lexer.spelled_tokens? htokens) hitems

end ApiContract.Source
