import ApiContract.Project.FilePath
import ApiContract.Table

namespace ApiContract

inductive FileTree where
  | file (text : Option String)
  | directory (entries : List (String × FileTree))

namespace FileTree

instance : Inhabited FileTree := ⟨.directory []⟩

def empty : FileTree := directory []

/-- Steps to a place in the tree. A step upward takes back the one before it. The root is the
directory that paths start from; what lies above it stands below two dots, and what rooted paths
lead to stands below a slash. -/
def steps (path : String) : List String := go [] (FilePath.parts path)
where
  go (soFar : List String) : List String → List String
    | [] => soFar.reverse
    | "." :: rest => go soFar rest
    | ".." :: rest =>
      match soFar with
      | [] => go [".."] rest
      | ".." :: before => go (".." :: ".." :: before) rest
      | ["/"] => go ["/"] rest
      | _ :: before => go before rest
    | name :: rest => go (name :: soFar) rest

def find? : FileTree → List String → Option FileTree
  | tree, [] => some tree
  | directory entries, name :: rest =>
    match List.lookup name entries with
    | some sub => find? sub rest
    | none => none
  | file _, _ :: _ => none

def leadsThrough (tree : FileTree) (path : String) : Bool :=
  let parts := FilePath.parts path
  (List.range parts.length).all fun n =>
    if parts[n]? = some ".." then
      match tree.find? (steps.go [] (parts.take n)) with
      | some (directory _) => true
      | _ => false
    else true

/-- What stands at a path. Every directory that the path goes through has to be there. -/
def get? (tree : FileTree) (path : String) : Option FileTree :=
  if tree.leadsThrough path then
    match tree.find? (steps path) with
    | some (file text) => if FilePath.asksDirectory path then none else some (file text)
    | found => found
  else none

def isFile (tree : FileTree) (path : String) : Bool :=
  match tree.get? path with
  | some (file _) => true
  | _ => false

def read? (tree : FileTree) (path : String) : Option String :=
  match tree.get? path with
  | some (file text) => text
  | _ => none

/-- Puts a node at a place, with the directories on the way to it. Where a file is in the way, or a
directory in the place of a file, nothing is put. -/
def put? (tree : FileTree) (node : FileTree) : List String → Option FileTree
  | [] =>
    match tree, node with
    | directory _, directory _ => some tree
    | file _, file _ => some node
    | _, _ => none
  | name :: rest =>
    match tree with
    | file _ => none
    | directory entries =>
      match List.lookup name entries with
      | some sub => (put? sub node rest).map fun sub => directory (Table.insert entries name sub)
      | none => (fresh rest).map fun sub => directory (Table.insert entries name sub)
where
  fresh : List String → Option FileTree
    | [] => some node
    | name :: rest => (fresh rest).map fun sub => directory [(name, sub)]

/-- Puts a directory at one place after the other, up to the first place where none can be. Comes
with whether there was no such place. -/
def makeAll (tree : FileTree) : List (List String) → FileTree × Bool
  | [] => (tree, true)
  | place :: places =>
    match tree.put? empty place with
    | some made => makeAll made places
    | none => (tree, false)

def makeDirectories (tree : FileTree) (path : String) : FileTree × Bool :=
  let parts := FilePath.parts path
  tree.makeAll ((List.range parts.length).map fun n => steps.go [] (parts.take (n + 1)))

def write? (tree : FileTree) (path : String) (text : String) : Option FileTree :=
  let place := steps path
  if (FilePath.fileName? path).isNone || FilePath.asksDirectory path ||
      !tree.leadsThrough path then
    none
  else
    match tree.find? place.dropLast with
    | some (directory _) => tree.put? (file (some text)) place
    | _ => none

mutual

def files (path : String) : FileTree → List (String × Option String)
  | file text => [(path, text)]
  | directory entries => filesIn path entries

def filesIn (path : String) : List (String × FileTree) → List (String × Option String)
  | [] => []
  | (name, sub) :: rest => files (FilePath.join path name) sub ++ filesIn path rest

end

end FileTree

/-- What changes the files of a tree. A disk can refuse: directories may be made in part, a text is
written as a whole or not at all. -/
structure Disk where
  makeDirectories : FileTree → String → FileTree × Bool
  write? : FileTree → String → String → Option FileTree

def Disk.plain : Disk := ⟨FileTree.makeDirectories, FileTree.write?⟩

end ApiContract
