import ApiContract.Proofs.ExchangedRoutines
import ApiContract.Proofs.RelativePaths
import ApiContract.Proofs.RepeatedAnalyses

namespace ApiContract

open Source

namespace Name

theorem eq_of_append_eq {before other last name : String} (hlast : IsPart last)
    (hname : IsPart name) (h : before ++ "::" ++ last = other ++ "::" ++ name) : last = name := by
  rw [← short_append before hlast, h, short_append other hname]

theorem getLast?_of_below {names : List String} (hparts : ∀ name ∈ names, IsPart name)
    (hne : names ≠ []) {start before last : String} (hlast : IsPart last)
    (h : start ++ "::" ++ join names = before ++ "::" ++ last) : names.getLast? = some last := by
  obtain ⟨name, hend⟩ := Option.ne_none_iff_exists'.mp (mt List.getLast?_eq_none_iff.mp hne)
  obtain ⟨front, rfl⟩ := List.getLast?_eq_some_iff.mp hend
  have hname : IsPart name := hparts name (List.mem_append_right _ List.mem_cons_self)
  rw [hend]
  by_cases hfront : front = []
  · subst hfront
    rw [List.nil_append, join_singleton] at h
    exact congrArg some (eq_of_append_eq hname hlast h)
  · rw [join_concat _ hfront, ← String.append_assoc, ← String.append_assoc] at h
    exact congrArg some (eq_of_append_eq hname hlast h)

theorem getLast?_of_join {names : List String} (hparts : ∀ name ∈ names, IsPart name)
    {before last : String} (hlast : IsPart last) (h : join names = before ++ "::" ++ last) :
    names.getLast? = some last := by
  have hqualified : isQualified (join names) = true := by rw [h, isQualified_append]
  match names with
  | [] => exact absurd hqualified (by decide)
  | [name] =>
    rw [join_singleton, isQualified_part (hparts name List.mem_cons_self)] at hqualified
    cases hqualified
  | name :: next :: names =>
    rw [join_cons _ (List.cons_ne_nil _ _)] at h
    rw [List.getLast?_cons_cons]
    exact getLast?_of_below (List.forall_mem_cons.mp hparts).2 (List.cons_ne_nil _ _) hlast h

theorem length_join_le {names more : List String} (h : names <+: more) :
    (join names).length ≤ (join more).length := by
  obtain ⟨rest, rfl⟩ := h
  by_cases hnames : names = []
  · rw [hnames]
    exact Nat.zero_le _
  by_cases hrest : rest = []
  · exact Nat.le_of_eq (by rw [hrest, List.append_nil])
  · rw [join, join, String.intercalate_append_of_ne_nil hnames hrest, String.length_append,
      String.length_append]
    omega

end Name

namespace Imports

/-- A path that starts from its module leads to a part of the module, and from there as it is
written. -/
theorem exists_upward {module : List String} (names : List String) (h : module ≠ []) :
    ∃ front rest, absolute.upward module names = front ++ rest ∧ front <+: module ∧ rest <:+ names ∧
      front ≠ [] := by
  induction names generalizing module with
  | nil => exact ⟨module, [], rfl, List.prefix_refl _, List.suffix_refl _, h⟩
  | cons first rest ih =>
    by_cases hsuper : first = "super"
    · subst hsuper
      have hparent : absolute.parent module <+: module ∧ absolute.parent module ≠ [] := by
        rw [absolute.parent]
        split
        next hinside =>
          exact ⟨List.dropLast_prefix _,
            List.ne_nil_of_length_pos (by rw [List.length_dropLast]; omega)⟩
        next => exact ⟨List.prefix_refl _, h⟩
      obtain ⟨front, last, heq, hfront, hlast, hne⟩ := ih hparent.2
      rw [absolute.upward]
      exact ⟨front, last, heq, hfront.trans hparent.1, hlast.trans (List.suffix_cons _ _), hne⟩
    · refine ⟨module, first :: rest, ?_, List.prefix_refl _, List.suffix_refl _, h⟩
      rw [absolute.upward]
      rintro _ ⟨⟩
      exact hsuper rfl

theorem getLast?_of_target {module names : List String} {first : String}
    (hparts : ∀ name ∈ first :: names, Name.IsPart name) (hfirst : first = "self" ∨ first = "super")
    (hmodule : module ≠ []) {type : String} (htype : Name.IsPart type)
    (h : target module (first :: names) = Name.join module ++ "::" ++ type) :
    (first :: names).getLast? = some type := by
  obtain ⟨front, rest, heq, hfront, hrest, hne⟩ :
      ∃ front rest, absolute module (first :: names) = front ++ rest ∧ front <+: module ∧
        rest <:+ first :: names ∧ front ≠ [] := by
    obtain rfl | rfl := hfirst
    · exact ⟨module, names, rfl, List.prefix_refl _, List.suffix_cons _ _, hmodule⟩
    · exact exists_upward ("super" :: names) hmodule
  rw [target, heq] at h
  by_cases hend : rest = []
  · -- a module above is not longer than this one
    rw [hend, List.append_nil] at h
    have hlength := congrArg String.length h
    simp only [String.length_append] at hlength
    have hle := Name.length_join_le hfront
    have hcolons : "::".length = 2 := rfl
    omega
  · obtain ⟨before, hbefore⟩ := hrest
    have hwritten : ∀ name ∈ rest, Name.IsPart name := by
      intro name hname
      exact hparts name (hbefore ▸ List.mem_append_right _ hname)
    rw [Name.join, String.intercalate_append_of_ne_nil hne hend] at h
    rw [← hbefore, List.getLast?_append_of_ne_nil _ hend]
    exact Name.getLast?_of_below hwritten hend htype h

end Imports

namespace Scope

variable {scope : Scope} {type canonical : String}

theorem foldl_below (start : String) {names : List String} (hne : names ≠ []) :
    names.foldl (fun text segment => text ++ "::" ++ segment) start =
      start ++ "::" ++ Name.join names := by
  induction names generalizing start with
  | nil => exact absurd rfl hne
  | cons name names ih =>
    cases names with
    | nil => rw [Name.join_singleton, List.foldl_cons, List.foldl_nil]
    | cons next names =>
      rw [List.foldl_cons, ih _ (List.cons_ne_nil _ _), Name.join_cons name (List.cons_ne_nil _ _)]
      simp only [String.append_assoc]

theorem getLast?_of_resolve (hmodule : scope.module ≠ []) {names : List String}
    (hparts : ∀ name ∈ names, Name.IsPart name) (htype : Name.IsPart type)
    (h : scope.resolve (Name.join names) = scope.moduleName ++ "::" ++ type) :
    names.getLast? = some type ∨
      ∃ other, names = [other] ∧ scope.alias? other = some (scope.moduleName ++ "::" ++ type) := by
  cases names with
  | nil =>
    have hempty : scope.resolve (Name.join []) = "" := rfl
    have hqualified := Name.isQualified_append scope.moduleName type
    rw [← h, hempty] at hqualified
    exact absurd hqualified (by decide)
  | cons first rest =>
    by_cases hcrate : first = "crate"
    · subst hcrate
      rw [resolve_root scope (List.forall_mem_cons.mp hparts).2] at h
      exact .inl (Name.getLast?_of_join hparts htype h)
    by_cases hrelative : first = "self" ∨ first = "super"
    · rw [resolve, Name.segments_join hparts] at h
      simp only [if_neg hcrate, if_pos hrelative] at h
      exact .inl (Imports.getLast?_of_target hparts hrelative hmodule htype h)
    have hstart : first ∉ starts := by simpa [starts, hcrate] using hrelative
    rw [resolve_of_segments scope (Name.segments_join hparts) hstart] at h
    cases halias : scope.alias? first with
    | some meaning =>
      rw [halias] at h
      cases rest with
      | nil => exact .inr ⟨first, rfl, by rw [halias]; exact congrArg some h⟩
      | cons next rest =>
        dsimp only at h
        rw [foldl_below meaning (List.cons_ne_nil _ _)] at h
        rw [List.getLast?_cons_cons]
        exact .inl
          (Name.getLast?_of_below (List.forall_mem_cons.mp hparts).2 (List.cons_ne_nil _ _) htype h)
    | none =>
      rw [halias] at h
      dsimp only at h
      left
      split at h
      · -- a name of the language is no member of a module
        have hqualified := Name.isQualified_append scope.moduleName type
        rw [← h, Name.isQualified_part (hparts first List.mem_cons_self)] at hqualified
        cases hqualified
      split at h
      · exact Name.getLast?_of_below hparts (List.cons_ne_nil _ _) htype h
      · exact Name.getLast?_of_join hparts htype h

/-- The paths of the types that blocks of methods are written for. -/
def blockPaths (scope : Scope) : List Path :=
  scope.items.filterMap fun
    | .implementation _ (.path path) _ _ => some path
    | _ => none

def methodsOf (scope : Scope) (isOf : Path → Bool) : List Function :=
  scope.items.flatMap fun
    | .implementation _ (.path path) _ members =>
      if isOf path then Analyzer.functionsOf members else []
    | _ => []

def Declares (scope : Scope) (name : String) : Prop :=
  ∃ item ∈ scope.items, match item with
    | .struct _ n _ _ | .enum _ n _ | .declaration n _ => n = name
    | _ => False

/-- Whether a path ends with the name of a type. -/
def endsWith (type : String) (path : Path) : Bool := path.names.getLast? = some type

/-- Whether a path that stands in the scope means a type. -/
def means (scope : Scope) (canonical : String) (path : Path) : Bool :=
  scope.resolve path.text = canonical

/-- The blocks for a type are told from others by how their paths end: its own name means it,
no import gives it another one, and no longer path that ends with its name means another type. -/
structure Told (scope : Scope) (type canonical : String) : Prop where
  own : scope.resolve type = canonical
  alone : ∀ other, scope.alias? other = some canonical → other = type
  longer : ∀ path ∈ scope.blockPaths, 1 < path.names.length → endsWith type path = true →
    scope.means canonical path = true

instance (scope : Scope) (type canonical : String) : Decidable (scope.Told type canonical) :=
  decidable_of_iff (scope.resolve type = canonical ∧
    (∀ entry ∈ scope.imports, scope.alias? entry.1 = some canonical → entry.1 = type) ∧
    ∀ path ∈ scope.blockPaths,
      1 < path.names.length → endsWith type path = true → scope.means canonical path = true)
    ⟨fun ⟨own, alone, longer⟩ =>
      ⟨own, fun other h => alone (other, canonical) (Table.mem_of_get? h) h, longer⟩, fun h =>
        ⟨h.own, fun entry _ => h.alone entry.1, h.longer⟩⟩

theorem ownerName?_eq_some_iff {path : Path} :
    ownerName? (.path path) = some type ↔ endsWith type path = true := by
  rw [ownerName?, Path.last?, endsWith, Path.names, List.getLast?_map, decide_eq_true_iff]

theorem mem_blockPaths {path : Path} : path ∈ scope.blockPaths ↔
    ∃ trait inner members, .implementation trait (.path path) inner members ∈ scope.items := by
  rw [blockPaths, List.mem_filterMap]
  constructor
  · rintro ⟨item, hitem, hpath⟩
    split at hpath
    next trait path inner members =>
      cases hpath
      exact ⟨trait, inner, members, hitem⟩
    next => cases hpath
  · rintro ⟨trait, inner, members, hitem⟩
    exact ⟨_, hitem, rfl⟩

theorem named_of_mem_blockPaths (hnamed : ∀ item ∈ scope.items, item.Named) {path : Path}
    (h : path ∈ scope.blockPaths) : ∀ name ∈ path.names, Name.IsPart name := by
  obtain ⟨trait, inner, members, hitem⟩ := mem_blockPaths.mp h
  intro name hname
  obtain ⟨segment, hsegment, rfl⟩ := List.mem_map.mp hname
  cases hnamed _ hitem with
  | implementation htype => exact Name.isPart_of_isIdentifier (htype segment hsegment)

theorem defines_iff : scope.defines type = true ↔
    scope.Declares type ∨ ∃ path ∈ scope.blockPaths, endsWith type path = true := by
  rw [defines, List.any_eq_true]
  constructor
  · rintro ⟨item, hitem, hdefines⟩
    split at hdefines
    next => exact .inl ⟨_, hitem, eq_of_beq hdefines⟩
    next => exact .inl ⟨_, hitem, eq_of_beq hdefines⟩
    next => exact .inl ⟨_, hitem, eq_of_beq hdefines⟩
    next self _ _ =>
      cases self with
      | path path =>
        exact .inr ⟨path, mem_blockPaths.mpr ⟨_, _, _, hitem⟩,
          ownerName?_eq_some_iff.mp (eq_of_beq hdefines)⟩
      | _ => cases hdefines
    next => cases hdefines
  · rintro (⟨item, hitem, hname⟩ | ⟨path, hpath, hends⟩)
    · refine ⟨item, hitem, ?_⟩
      split at hname
      next => exact beq_iff_eq.mpr hname
      next => exact beq_iff_eq.mpr hname
      next => exact beq_iff_eq.mpr hname
      next => cases hname
    · obtain ⟨trait, inner, members, hitem⟩ := mem_blockPaths.mp hpath
      exact ⟨_, hitem, beq_iff_eq.mpr (ownerName?_eq_some_iff.mpr hends)⟩

theorem methodsOf_congr {isOf isOf' : Path → Bool}
    (h : ∀ path ∈ scope.blockPaths, isOf path = isOf' path) :
    scope.methodsOf isOf = scope.methodsOf isOf' := by
  refine List.flatMap_congr fun item hitem => ?_
  split
  next => rw [h _ (mem_blockPaths.mpr ⟨_, _, _, hitem⟩)]
  next => rfl

/-- Where the blocks for a type can be told, those that end with its name are those that mean it. -/
theorem Told.endsWith_eq (h : scope.Told type (scope.moduleName ++ "::" ++ type))
    (hmodule : scope.module ≠ []) (hnamed : ∀ item ∈ scope.items, item.Named)
    (htype : Name.IsPart type) {path : Path} (hpath : path ∈ scope.blockPaths) :
    endsWith type path = scope.means (scope.moduleName ++ "::" ++ type) path := by
  have hparts := named_of_mem_blockPaths hnamed hpath
  rw [Bool.eq_iff_iff]
  constructor
  · intro hends
    by_cases hlonger : 1 < path.names.length
    · exact h.longer path hpath hlonger hends
    · obtain ⟨front, hnames⟩ := List.getLast?_eq_some_iff.mp (of_decide_eq_true hends)
      obtain rfl : front = [] := by
        rw [hnames, List.length_append, List.length_singleton] at hlonger
        exact List.eq_nil_of_length_eq_zero (by omega)
      have htext : path.text = type := by
        rw [Path.text, hnames, List.nil_append, String.intercalate_singleton]
      exact decide_eq_true (htext ▸ h.own)
  · intro hmeans
    obtain hlast | ⟨other, hnames, halias⟩ :=
      getLast?_of_resolve hmodule hparts htype (of_decide_eq_true hmeans)
    · exact decide_eq_true hlast
    · rw [endsWith, hnames, h.alone other halias]
      exact decide_eq_true rfl

theorem Told.defines_iff (h : scope.Told type (scope.moduleName ++ "::" ++ type))
    (hmodule : scope.module ≠ []) (hnamed : ∀ item ∈ scope.items, item.Named)
    (htype : Name.IsPart type) : scope.defines type = true ↔ scope.Declares type ∨
      ∃ path ∈ scope.blockPaths, scope.means (scope.moduleName ++ "::" ++ type) path = true := by
  rw [Scope.defines_iff]
  refine or_congr Iff.rfl (exists_congr fun path => and_congr_right fun hpath => ?_)
  rw [h.endsWith_eq hmodule hnamed htype hpath]

end Scope

namespace SourceTree

theorem locateWithin_ok {tree : SourceTree} {name : String} {imports : Nat} {found : Located}
    (h : tree.locateWithin name imports = .ok found) {type : String}
    (htype : found.target = .type type) :
    (∃ asked modules, tree.scopeOf asked modules = .ok found.scope) ∧
      found.scope.defines type = true ∧
      found.canonical = found.scope.moduleName ++ "::" ++ type := by
  have hmodule : ∀ asked modules, tree.locateModule asked modules ≠ .ok found := by
    intro asked modules hlocated
    obtain ⟨scope, -, hscope⟩ := Analyzer.exists_of_bind_ok hlocated
    cases hscope
    cases htype
  induction imports generalizing name with
  | zero => cases h
  | succ imports ih =>
    rw [locateWithin_succ] at h
    split at h
    next => exact absurd h (hmodule _ _)
    next last hlast =>
      split at h
      next => exact absurd h (hmodule _ _)
      next =>
        obtain ⟨scope, hscope, h⟩ := Analyzer.exists_of_bind_ok h
        split at h
        next hdefines =>
          cases h
          cases htype
          exact ⟨⟨_, _, hscope⟩, hdefines, rfl⟩
        next =>
          -- what is found behind an import is found as if it had been asked for
          dsimp only at h
          split at h
          next =>
            split at h
            next => cases h
            next => exact ih h
          next => cases h

end SourceTree

namespace Analyzer

theorem methods_eq_methodsOf (scope : Scope) (type : String) :
    methods scope type = (scope.methodsOf (Scope.endsWith type)).foldl keepFirst [] := by
  rw [methods_eq, Scope.methodsOf]
  congr 2
  funext item
  cases item with
  | implementation trait self inner members =>
    cases self with
    | path path =>
      rw [declared]
      simp only [Scope.ownerName?_eq_some_iff]
    | _ => rfl
  | _ => rfl

/-- Of functions of one name the first is kept. -/
theorem foldl_keepFirst {fs : List Function} {name : String} (h : ∀ f ∈ fs, f.name = name) :
    fs.foldl keepFirst [] = fs.head?.toList := by
  cases fs with
  | nil => rfl
  | cons f fs =>
    obtain ⟨hf, hfs⟩ := List.forall_mem_cons.mp h
    have hkept :
        ∀ rest : List Function, (∀ g ∈ rest, g.name = name) → rest.foldl keepFirst [f] = [f] := by
      intro rest hrest
      induction rest with
      | nil => rfl
      | cons g rest ih =>
        obtain ⟨hg, hrest⟩ := List.forall_mem_cons.mp hrest
        have hkeep : keepFirst [f] g = [f] := if_pos (by simp [hf, hg])
        rw [List.foldl_cons, hkeep, ih hrest]
    exact hkept fs hfs

theorem get?_handlersOf_type (a : Analyzer) {found : Located} {type : String}
    (htype : found.target = .type type) (name : String) :
    (a.handlersOf found).get? name = ((found.scope.methodsOf (Scope.endsWith type)).find? fun f =>
        f.name = name).map (Handler.ofFunction (a.contextOf found)) := by
  have hroutines :
      routines found = (found.scope.methodsOf (Scope.endsWith type)).foldl keepFirst [] := by
    rw [routines, htype]
    exact methods_eq_methodsOf found.scope type
  have hnames : ∀ f ∈ (found.scope.methodsOf (Scope.endsWith type)).filter (fun f => f.name = name),
      f.name = name := fun f hf => by simpa using List.of_mem_filter hf
  rw [get?_handlersOf, hroutines, filter_foldl_keepFirst, List.filter_nil, foldl_keepFirst hnames,
    List.head?_filter]
  cases (found.scope.methodsOf (Scope.endsWith type)).find? fun f => f.name = name <;> rfl

/-- An analysis of a type has the methods of the blocks whose paths end with its name, in the scope
that it is found in. Where the blocks for the type can be told by that, these are the blocks for it,
and the scope declares it or has one of them. -/
theorem handlers_of_blocks {a : Analyzer} {requested : List String} {cache : AnalysisCache}
    (hcache : AnalysisCache.After a requested cache) {name : String} {analysis : Analysis}
    (h : (cache.get a name).1 = .ok analysis) :
    ∃ found, a.tree.locate name = .ok found ∧ analysis.type = found.canonical ∧
      ∀ type, found.target = .type type →
        found.canonical = found.scope.moduleName ++ "::" ++ type ∧
        (∀ method, analysis.handlers.get? method =
          ((found.scope.methodsOf (Scope.endsWith type)).find? fun f => f.name = method).map
            (Handler.ofFunction (a.contextOf found))) ∧
        (found.scope.Told type found.canonical →
          (∀ method, (∃ handler, analysis.handlers.get? method = some handler) ↔
            ∃ f ∈ found.scope.methodsOf (found.scope.means found.canonical), f.name = method) ∧
          (found.scope.Declares type ∨
            ∃ path ∈ found.scope.blockPaths, found.scope.means found.canonical path = true)) := by
  rw [(hcache.get name).1] at h
  obtain ⟨found, hlocate, rfl⟩ := handlers_of_analyze h
  refine ⟨found, hlocate, rfl, fun type htype => ?_⟩
  obtain ⟨⟨asked, modules, hscope⟩, hdefines, hcanonical⟩ :=
    SourceTree.locateWithin_ok hlocate htype
  have hnamed := SourceTree.named_of_scopeOf hscope
  have hmodule : found.scope.module ≠ [] := by
    rw [(SourceTree.scopeOf_ok hscope).2]
    exact List.cons_ne_nil _ _
  have hpart : Name.IsPart type :=
    Name.isPart_of_isIdentifier (Scope.isIdentifier_of_defines hnamed hdefines)
  refine ⟨hcanonical, a.get?_handlersOf_type htype, fun htold => ?_⟩
  rw [hcanonical] at htold ⊢
  have hsame : found.scope.methodsOf (Scope.endsWith type) =
      found.scope.methodsOf (found.scope.means (found.scope.moduleName ++ "::" ++ type)) :=
    Scope.methodsOf_congr fun _ hpath => htold.endsWith_eq hmodule hnamed hpart hpath
  refine ⟨fun method => ?_, (htold.defines_iff hmodule hnamed hpart).mp hdefines⟩
  rw [a.get?_handlersOf_type htype, hsame, ← Option.isSome_iff_exists, Option.isSome_map,
    List.find?_isSome]
  simp only [decide_eq_true_iff]

def ofRoot (text : String) : Analyzer where
  tree := ⟨.directory [("src", .directory [("lib.rs", .file (some text))])], "src"⟩
  capabilities := ⟨fun _ _ => false⟩
  conventions := {}

def twoBlocks : Analyzer :=
  ofRoot "struct User; impl User \x7b\x7d impl T for crate::User \x7b fn make() \x7b\x7d \x7d"

theorem handlers_of_blocks_user :
    ∃ analysis found, (({} : AnalysisCache).get twoBlocks "crate::User").1 = .ok analysis ∧
      twoBlocks.tree.locate "crate::User" = .ok found ∧ found.target = .type "User" ∧
      found.scope.Told "User" found.canonical ∧
      ∃ handler, analysis.handlers.get? "make" = some handler := by
  have hanalyzed :
      (({} : AnalysisCache).get twoBlocks "crate::User").1.toOption.any (fun _ => true) = true := by
    decide +kernel
  have hread : (twoBlocks.tree.locate "crate::User").toOption.any (fun found =>
        found.target = .type "User" ∧ found.scope.Told "User" found.canonical ∧
          ∃ f ∈ found.scope.methodsOf (found.scope.means found.canonical), f.name = "make") =
      true := by
    decide +kernel
  obtain ⟨analysis, hanalysis, -⟩ := SourceTree.exists_ok_of_any hanalyzed
  obtain ⟨found, hfound, hread⟩ := SourceTree.exists_ok_of_any hread
  obtain ⟨htype, htold, hmake⟩ := of_decide_eq_true hread
  obtain ⟨located, hlocated, -, hblocks⟩ := handlers_of_blocks AnalysisCache.After.fresh hanalysis
  obtain rfl : found = located := Except.ok.inj (hfound.symm.trans hlocated)
  exact ⟨analysis, found, hanalysis, hfound, htype, htold,
    (((hblocks "User" htype).2.2 htold).1 "make").mpr hmake⟩

def mixedBlocks : Analyzer :=
  ofRoot "mod admin; struct User; impl admin::User \x7b fn secret() \x7b\x7d \x7d"

/-- A block for another type counts if its path ends like the type. -/
theorem not_handlers_of_blocks :
    ¬ ∀ (a : Analyzer) (name type : String) (analysis : Analysis) (found : Located),
      (({} : AnalysisCache).get a name).1 = .ok analysis → a.tree.locate name = .ok found →
        found.target = .type type →
        ∀ method, (∃ handler, analysis.handlers.get? method = some handler) ↔
          ∃ f ∈ found.scope.methodsOf (found.scope.means found.canonical), f.name = method := by
  intro hall
  have hanalyzed : (({} : AnalysisCache).get mixedBlocks "crate::User").1.toOption.any
      (fun analysis => (analysis.handlers.get? "secret").isSome) = true := by decide +kernel
  have hread : (mixedBlocks.tree.locate "crate::User").toOption.any (fun found =>
        found.target = .type "User" ∧
          ¬ ∃ f ∈ found.scope.methodsOf (found.scope.means found.canonical), f.name = "secret") =
      true := by
    decide +kernel
  obtain ⟨analysis, hanalysis, hsecret⟩ := SourceTree.exists_ok_of_any hanalyzed
  obtain ⟨found, hfound, hread⟩ := SourceTree.exists_ok_of_any hread
  obtain ⟨htype, hnone⟩ := of_decide_eq_true hread
  exact hnone ((hall mixedBlocks "crate::User" "User" analysis found hanalysis hfound htype
    "secret").mp (Option.isSome_iff_exists.mp hsecret))

end Analyzer

end ApiContract
