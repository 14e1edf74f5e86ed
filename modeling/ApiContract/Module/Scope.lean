import ApiContract.Name
import ApiContract.Project.Scan
import ApiContract.Table

namespace ApiContract

open Source

namespace Imports

/-- A path that starts with `self` or `super` starts from the module it stands in. Every leading
`super` takes the module one step up, and never beyond the root. -/
def absolute (module : List String) : List String → List String
  | "self" :: rest => module ++ rest
  | "super" :: rest => upward module ("super" :: rest)
  | path => path
where
  parent (module : List String) : List String :=
    if 1 < module.length then module.dropLast else module
  upward (module : List String) : List String → List String
    | "super" :: rest => upward (parent module) rest
    | rest => module ++ rest

def target (module path : List String) : String := Name.join (absolute module path)

mutual

def leaves (module start : List String) : UseTree → List (String × String)
  | .path ident tree => leaves module (start ++ [ident]) tree
  | .name "self" =>
    match start.getLast? with
    | some last => [(last, target module start)]
    | none => []
  | .name ident => [(ident, target module (start ++ [ident]))]
  | .rename "self" name => [(name, target module start)]
  | .rename ident name => [(name, target module (start ++ [ident]))]
  | .glob => []
  | .group trees => leavesOfAll module start trees

def leavesOfAll (module start : List String) : List UseTree → List (String × String)
  | [] => []
  | tree :: trees => leaves module start tree ++ leavesOfAll module start trees

end

/-- The imports of a module. Of two imports of one name the later one counts. -/
def ofItems (module : List String) (items : List Item) : Table String :=
  Table.ofList (items.flatMap fun
    | .imports tree => leaves module [] tree
    | _ => [])

end Imports

structure Scope where
  path : String
  module : List String
  items : List Item
  imports : Table String
  /-- Modules that are declared here. -/
  modules : List String

namespace Scope

def ofItems (path : String) (module : List String) (items : List Item) : Scope :=
  { path, module, items
    imports := Imports.ofItems module items
    modules := items.filterMap fun
      | .module name _ => some name
      | _ => none }

def moduleName (scope : Scope) : String := Name.join scope.module

/-- Scopes of the modules that are written out among some items: later ones come first, and each
comes before those inside it. -/
def nested (path : String) (module : List String) : List Item → List Scope
  | [] => []
  | item :: rest =>
    match item with
    | .module name (some items) =>
      nested path module rest ++
        ofItems path (module ++ [name]) items :: nested path (module ++ [name]) items
    | _ => nested path module rest

def ofFile (file : ParsedFile) : List Scope :=
  ofItems file.path file.module file.items :: nested file.path file.module file.items

/-- Canonical form of a name: a root or relative path is made absolute, an import is replaced by
what it stands for, and a local name is put below the module. Names of other crates stay. -/
def resolve (scope : Scope) (name : String) : String :=
  match Name.segments name with
  | [] => name
  | first :: rest =>
    if first = "crate" then Name.join (first :: rest)
    else if first = "self" ∨ first = "super" then Imports.target scope.module (first :: rest)
    else
      match scope.imports.get? first with
      | some meaning => rest.foldl (fun text segment => text ++ "::" ++ segment) meaning
      | none =>
        if rest.isEmpty && Name.isPrelude first then first
        else if rest.isEmpty || scope.modules.contains first then
          scope.moduleName ++ "::" ++ Name.join (first :: rest)
        else Name.join (first :: rest)

def alias? (scope : Scope) (name : String) : Option String := scope.imports.get? name

def ownerName? : TypeExpr → Option String
  | .path path => path.last?.map Segment.name
  | _ => none

/-- Whether a type of this name is declared here, or methods are written for one. -/
def defines (scope : Scope) (name : String) : Bool :=
  scope.items.any fun
    | .struct _ n _ _ => n == name
    | .enum _ n _ => n == name
    | .declaration n _ => n == name
    | .implementation _ type _ _ => ownerName? type == some name
    | _ => false

def inner? (scope : Scope) (name : String) : Option Scope :=
  scope.items.findSome? fun
    | .module n (some items) =>
      if n = name then some (ofItems scope.path (scope.module ++ [name]) items) else none
    | _ => none

end Scope

end ApiContract
