import ApiContract.Proofs.Imports
import Mathlib.Data.List.Basic

namespace ApiContract

open Source

namespace Source.UseTree

def under (path : List String) (tree : UseTree) : UseTree := path.foldr .path tree

mutual

/-- The imports of single names that a tree is written for. A `self` in it stands for the path
before it. -/
def singles (start : List String) : UseTree → List UseTree
  | .path ident tree => singles (start ++ [ident]) tree
  | .name "self" => start.getLast?.toList.map fun last => under start.dropLast (.name last)
  | .name ident => [under start (.name ident)]
  | .rename "self" other =>
    start.getLast?.toList.map fun last => under start.dropLast (.rename last other)
  | .rename ident other => [under start (.rename ident other)]
  | .glob => []
  | .group trees => singlesOfAll start trees

def singlesOfAll (start : List String) : List UseTree → List UseTree
  | [] => []
  | tree :: trees => singles start tree ++ singlesOfAll start trees

end

/-- An import of one name, which is not `self`. -/
inductive IsSingle : UseTree → Prop where
  | name {ident : String} (h : ident ≠ "self") : IsSingle (.name ident)
  | rename {ident other : String} (h : ident ≠ "self") : IsSingle (.rename ident other)
  | path {ident : String} {tree : UseTree} (h : IsSingle tree) : IsSingle (.path ident tree)

mutual

/-- Every `self` at an end of a tree stands behind a word, which is not `self` again. -/
def placesSelf (last : Option String) : UseTree → Bool
  | .path ident tree => placesSelf (some ident) tree
  | .name ident => ident ≠ "self" || last.any (· ≠ "self")
  | .rename ident _ => ident ≠ "self" || last.any (· ≠ "self")
  | .glob => true
  | .group trees => placesSelfInAll last trees

def placesSelfInAll (last : Option String) : List UseTree → Bool
  | [] => true
  | tree :: trees => placesSelf last tree && placesSelfInAll last trees

end

theorem exists_concat_of_placesSelf {start : List String}
    (h : start.getLast?.any (· ≠ "self") = true) :
    ∃ before last, start = before ++ [last] ∧ last ≠ "self" := by
  obtain ⟨last, hlast, hne⟩ := (Option.any_eq_true _ _).mp h
  obtain ⟨before, rfl⟩ := List.getLast?_eq_some_iff.mp hlast
  exact ⟨before, last, rfl, of_decide_eq_true hne⟩

theorem singles_name (start : List String) {ident : String} (h : ident ≠ "self") :
    singles start (.name ident) = [under start (.name ident)] := by
  rw [singles]
  exact h

theorem singles_rename (start : List String) {ident : String} (other : String)
    (h : ident ≠ "self") :
    singles start (.rename ident other) = [under start (.rename ident other)] := by
  rw [singles]
  exact h

theorem bindings_under (start path : List String) (tree : UseTree) :
    bindings start (under path tree) = bindings (start ++ path) tree := by
  induction path generalizing start with
  | nil => rw [List.append_nil]; rfl
  | cons ident path ih =>
    calc
      bindings start (under (ident :: path) tree) =
        bindings (start ++ [ident]) (under path tree) := by
        rw [under, List.foldr_cons, bindings]
        rfl
      _ = bindings (start ++ ident :: path) tree := by
        rw [ih, List.append_assoc, List.singleton_append]

theorem isSingle_under {tree : UseTree} (h : IsSingle tree) (path : List String) :
    IsSingle (under path tree) := by
  induction path with
  | nil => exact h
  | cons ident path ih => exact .path ih

mutual

/-- The single imports bind what the tree binds. -/
theorem bindings_singles {start : List String} {tree : UseTree}
    (h : placesSelf start.getLast? tree = true) :
    (singles start tree).flatMap (bindings []) = bindings start tree ∧
      ∀ single ∈ singles start tree, IsSingle single := by
  match tree with
  | .path ident tree =>
    rw [singles, bindings]
    exact bindings_singles (by rwa [List.getLast?_concat])
  | .name ident =>
    by_cases hself : ident = "self"
    · subst hself
      obtain ⟨before, last, rfl, hlast⟩ :=
        exists_concat_of_placesSelf (by simpa [placesSelf] using h)
      simp [singles, bindings, bindings_under, bindings_name _ hlast, isSingle_under (.name hlast)]
    · simp [singles_name start hself, bindings_under, isSingle_under (.name hself)]
  | .rename ident other =>
    by_cases hself : ident = "self"
    · subst hself
      obtain ⟨before, last, rfl, hlast⟩ :=
        exists_concat_of_placesSelf (by simpa [placesSelf] using h)
      simp [singles, bindings, bindings_under, bindings_rename _ other hlast,
        isSingle_under (.rename hlast)]
    · simp [singles_rename start other hself, bindings_under, isSingle_under (.rename hself)]
  | .glob => simp [singles, bindings]
  | .group trees =>
    rw [singles, bindings]
    exact bindings_singlesOfAll h

theorem bindings_singlesOfAll {start : List String} {trees : List UseTree}
    (h : placesSelfInAll start.getLast? trees = true) :
    (singlesOfAll start trees).flatMap (bindings []) = bindingsOfAll start trees ∧
      ∀ single ∈ singlesOfAll start trees, IsSingle single := by
  match trees with
  | [] => simp [singlesOfAll, bindingsOfAll]
  | tree :: trees =>
    rw [placesSelfInAll, Bool.and_eq_true] at h
    obtain ⟨htree, hsingle⟩ := bindings_singles h.1
    obtain ⟨htrees, hsingles⟩ := bindings_singlesOfAll h.2
    rw [singlesOfAll, bindingsOfAll, List.flatMap_append, htree, htrees]
    exact ⟨rfl, List.forall_mem_append.mpr ⟨hsingle, hsingles⟩⟩

end

end Source.UseTree

namespace Source.Item

/-- An item, or the imports of single names that it is written for. -/
def ungrouped : Item → List Item
  | .imports tree => (tree.singles []).map .imports
  | item => [item]

def placesSelf : Item → Bool
  | .imports tree => tree.placesSelf none
  | _ => true

theorem bindings_flatMap (f : Item → List Item) (items : List Item) :
    bindings (items.flatMap f) = items.flatMap fun item => bindings (f item) :=
  List.flatMap_assoc

theorem bindings_eq_flatMap (items : List Item) :
    bindings items = items.flatMap fun item => bindings [item] := by
  simp [bindings]

theorem bindings_ungrouped {item : Item} (h : item.placesSelf = true) :
    bindings (ungrouped item) = bindings [item] := by
  cases item with
  | imports tree =>
    have hself : UseTree.placesSelf ([] : List String).getLast? tree = true := h
    calc
      bindings (ungrouped (.imports tree)) = (tree.singles []).flatMap (UseTree.bindings []) :=
        List.flatMap_map _ _ _
      _ = tree.bindings [] := (UseTree.bindings_singles hself).1
      _ = bindings [.imports tree] := (List.flatMap_singleton _ _).symm
  | _ => rfl

theorem isSingle_of_mem_ungrouped {item : Item} (h : item.placesSelf = true) :
    ∀ tree, .imports tree ∈ ungrouped item → tree.IsSingle := by
  intro tree hm
  cases item with
  | imports whole =>
    have hself : UseTree.placesSelf ([] : List String).getLast? whole = true := h
    obtain ⟨_, hsingle, ⟨⟩⟩ := List.mem_map.mp hm
    exact (UseTree.bindings_singles hself).2 tree hsingle
  | _ => cases List.mem_singleton.mp hm

end Source.Item

namespace Imports

open Source.Item

theorem get?_ofItems_findSome (module : List String) (items : List Item) (name : String) :
    (ofItems module items).get? name =
      items.reverse.findSome? fun item => (ofItems module [item]).get? name := by
  rw [ofItems, Table.get?_ofList_flatMap]
  simp [ofItems]

/-- Imports in groups bind what the same imports bind when they are written one by one; of several
that bind one name the last one counts. -/
theorem ofItems_ungrouped (module : List String) {items : List Item}
    (h : ∀ item ∈ items, item.placesSelf = true) :
    ofItems module (items.flatMap ungrouped) = ofItems module items ∧
      (∀ tree, .imports tree ∈ items.flatMap ungrouped → tree.IsSingle) ∧
      ∀ name, (ofItems module items).get? name = (items.flatMap ungrouped).reverse.findSome?
          fun item => (ofItems module [item]).get? name := by
  have hbindings : bindings (items.flatMap ungrouped) = bindings items := by
    rw [bindings_flatMap, bindings_eq_flatMap items]
    exact List.flatMap_congr fun item hm => bindings_ungrouped (h item hm)
  have hsame : ofItems module (items.flatMap ungrouped) = ofItems module items := by
    rw [ofItems_eq, ofItems_eq, hbindings]
  refine ⟨hsame, fun tree hm => ?_, fun name => ?_⟩
  · obtain ⟨item, hitem, htree⟩ := List.mem_flatMap.mp hm
    exact isSingle_of_mem_ungrouped (h item hitem) tree htree
  · rw [← hsame]
    exact get?_ofItems_findSome module (items.flatMap ungrouped) name

def groupedText : String :=
  "use crate::models::{self, User, Post as Article}; " ++
    "use super::resources::{deep::{self as inner, *}, User};"

/-- Both groups bind `User`, and the second one counts. -/
theorem ofItems_grouped : ∃ file, File.parse? groupedText = some file ∧
    ofItems ["crate", "http"] (file.items.flatMap ungrouped) =
      [("Article", "crate::models::Post"), ("User", "crate::resources::User"),
        ("inner", "crate::resources::deep"), ("models", "crate::models")] := by
  have hread : ((File.parse? groupedText).any fun file =>
      (∀ item ∈ file.items, item.placesSelf = true) ∧ ofItems ["crate", "http"] file.items =
        [("Article", "crate::models::Post"), ("User", "crate::resources::User"),
          ("inner", "crate::resources::deep"),
          ("models", "crate::models")]) = true := by decide +kernel
  obtain ⟨file, hfile, hread⟩ := (Option.any_eq_true _ _).mp hread
  obtain ⟨hself, htable⟩ := of_decide_eq_true hread
  exact ⟨file, hfile, (ofItems_ungrouped ["crate", "http"] hself).1.trans htable⟩

/-- Behind a `self` inside of a path another `self` is bound as it is written. Without it the path
itself ends in `self`, which stands for the word before. -/
theorem not_ofItems_ungrouped : ∃ file, File.parse? "use a::self::{self};" = some file ∧
    ofItems ["crate"] file.items = [("self", "a::self")] ∧
    ofItems ["crate"] (file.items.flatMap ungrouped) = [("a", "a")] := by
  have hread : ((File.parse? "use a::self::{self};").any fun file =>
      ofItems ["crate"] file.items = [("self", "a::self")] ∧
        ofItems ["crate"] (file.items.flatMap ungrouped) = [("a", "a")]) = true := by decide +kernel
  obtain ⟨file, hfile, hread⟩ := (Option.any_eq_true _ _).mp hread
  exact ⟨file, hfile, of_decide_eq_true hread⟩

end Imports

end ApiContract
