import ApiContract.Fault
import ApiContract.Module.Path
import ApiContract.Project.FileTree
import ApiContract.Source.File

namespace ApiContract

structure ParsedFile where
  path : String
  module : List String
  items : List Source.Item

inductive FileError where
  | unreadable (path : String)
  | malformed (path : String)

def FileError.message : FileError → String
  | unreadable path => "Failed to read file: " ++ path
  | malformed path => "Failed to parse Rust syntax in file: " ++ path

namespace ParsedFile

def read (tree : FileTree) (path sourceDir : String) : Except FileError ParsedFile :=
  match tree.read? path with
  | none => .error (.unreadable path)
  | some text =>
    match Source.File.parse? text with
    | none => .error (.malformed path)
    | some file => .ok ⟨path, Module.ofFile path sourceDir, file.items⟩

end ParsedFile

namespace Scan

/-- Hidden entries and build output are not searched. -/
def isSkipped (name : String) : Bool := name.toList.head? = some '.' || name = "target"

def isSource (name : String) : Bool := (FilePath.splitExtension name).2 = some "rs"

mutual

def atPlace (place name : String) : FileTree → List String
  | .file _ => if isSource name then [place] else []
  | .directory entries => belowEach place entries

def belowEach (path : String) : List (String × FileTree) → List String
  | [] => []
  | (name, node) :: rest =>
    let here := if isSkipped name then [] else atPlace (FilePath.join path name) name node
    here ++ belowEach path rest

end

structure Entry where
  path : String
  name : String
  isFile : Bool

structure Found where
  files : List String := []
  warnings : List String := []

mutual

/-- A walk comes upon what stands at a place, and then upon what stands below it. A directory may
refuse to be read. -/
def walk (refused : String → Option String) (place name : String) :
    FileTree → List (Except String Entry)
  | .file _ => [.ok ⟨place, name, true⟩]
  | .directory entries =>
    .ok ⟨place, name, false⟩ ::
      match refused place with
      | some reason => [.error reason]
      | none => walkEach refused place entries

def walkEach (refused : String → Option String) (path : String) :
    List (String × FileTree) → List (Except String Entry)
  | [] => []
  | (name, node) :: rest =>
    let here := if isSkipped name then [] else walk refused (FilePath.join path name) name node
    here ++ walkEach refused path rest

end

def Found.take (found : Found) : Except String Entry → Found
  | .ok entry =>
    if entry.isFile && isSource entry.name then { found with files := found.files ++ [entry.path] }
    else found
  | .error reason =>
    { found with warnings := found.warnings ++ ["Failed to access path: " ++ reason] }

/-- The source files that a walk from a directory comes upon, whatever the directory itself is
called; an error if it is not there. -/
def search (refused : String → Option String) (tree : FileTree) (sourceDir : String) :
    Except Fault Found :=
  match tree.get? sourceDir with
  | some (.directory entries) =>
    .ok ((walk refused sourceDir sourceDir (.directory entries)).foldl Found.take {})
  | _ => .error (.missingSources sourceDir)

def files (tree : FileTree) (sourceDir : String) : Except Fault (List String) :=
  match tree.get? sourceDir with
  | some (.directory entries) => .ok (belowEach sourceDir entries)
  | _ => .error (.missingSources sourceDir)

/-- All source files that can be read; the others are left out. -/
def sources (tree : FileTree) (sourceDir : String) : Except Fault (List ParsedFile) :=
  (files tree sourceDir).map fun paths =>
    paths.filterMap fun path => (ParsedFile.read tree path sourceDir).toOption

end Scan

end ApiContract
