import ApiContract.Failure
import ApiContract.Module.Scope
import ApiContract.Text.Lowercase

namespace ApiContract

structure SourceTree where
  files : FileTree
  root : String

inductive Target where
  | type (name : String)
  | module
deriving DecidableEq, Repr

structure Located where
  scope : Scope
  target : Target
  /-- The name under which the target is declared. -/
  canonical : String

namespace SourceTree

/-- The file of a module. The root has one of two names, and a module is a file or the main file of
a directory. -/
def moduleFile? (tree : SourceTree) (modules : List String) : Option String :=
  let candidates :=
    match modules with
    | [] => [FilePath.join tree.root "lib.rs", FilePath.join tree.root "main.rs"]
    | _ =>
      let place := modules.foldl FilePath.join tree.root
      [FilePath.withExtension place "rs", FilePath.join place "mod.rs"]
  candidates.find? tree.files.isFile

def descend (name : String) (scope : Scope) : List String → Except Failure Scope
  | [] => .ok scope
  | step :: rest =>
    match scope.inner? step with
    | some inner => descend name inner rest
    | none => .error (.sourceUnavailable name ("module " ++ Failure.marked step ++ " not found"))

def scopeInFile? (tree : SourceTree) (name : String) (modules : List String) (count : Nat) :
    Option (Except Failure Scope) :=
  (tree.moduleFile? (modules.take count)).map fun path =>
    match ParsedFile.read tree.files path tree.root with
    | .error e => .error (.sourceUnavailable name e.message)
    | .ok parsed =>
      descend name (.ofItems path (Module.root :: modules.take count) parsed.items)
        (modules.drop count)

/-- The scope of a module in the file of its longest part that has one, from a length down. -/
def scopeFrom (tree : SourceTree) (name : String) (modules : List String) :
    Nat → Except Failure Scope
  | 0 =>
    (tree.scopeInFile? name modules 0).getD
      (.error (.sourceUnavailable name "no source file for module"))
  | count + 1 =>
    (tree.scopeInFile? name modules (count + 1)).getD (scopeFrom tree name modules count)

def scopeOf (tree : SourceTree) (name : String) (modules : List String) : Except Failure Scope :=
  tree.scopeFrom name modules modules.length

def locateModule (tree : SourceTree) (name : String) (modules : List String) :
    Except Failure Located := do
  let scope ← tree.scopeOf name modules
  return ⟨scope, .module, scope.moduleName⟩

def namesModule (name : String) : Bool :=
  match name.toList with
  | c :: _ => Text.isLowercase c
  | [] => false

/-- Locates a name. A type that its module only imports is looked for where the import leads, over
at most so many imports. -/
def locateWithin (tree : SourceTree) (name : String) : Nat → Except Failure Located
  | 0 => .error (.sourceUnavailable name "too many re-exports")
  | imports + 1 => do
    let segments :=
      match Name.segments name with
      | "crate" :: rest => rest
      | other => other
    match segments.getLast? with
    | none => tree.locateModule name []
    | some last =>
      if namesModule last then tree.locateModule name segments
      else
        let scope ← tree.scopeOf name segments.dropLast
        if scope.defines last then return ⟨scope, .type last, scope.moduleName ++ "::" ++ last⟩
        else
          let missing := Failure.sourceUnavailable name
            (Failure.marked last ++ " is not defined in " ++ scope.path)
          match scope.alias? last with
          | some meaning =>
            if meaning = name then throw missing else locateWithin tree meaning imports
          | none => throw missing

def importLimit : Nat := 8

def locate (tree : SourceTree) (name : String) : Except Failure Located :=
  tree.locateWithin name (importLimit + 1)

end SourceTree

end ApiContract
