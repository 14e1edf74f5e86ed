import ApiContract.Project.FilePath

namespace ApiContract.Module

def root : String := "crate"

/-- The ending of source files; it counts as one however often it is repeated. -/
def ending : List Char := ".rs".toList

def dropEndings (name : List Char) : Nat → List Char
  | 0 => name
  | fuel + 1 =>
    match Text.suffix? ending name with
    | some stem => dropEndings stem fuel
    | none => name

def stem (name : String) : String := String.ofList (dropEndings name.toList name.length)

/-- Module of a file by its place below the source directory: directories are modules, `mod` stands
for its directory, and `lib` and `main` at the top are the root. -/
def ofParts : List String → List String
  | [] => [root]
  | parts =>
    let file := stem (parts.getLastD "")
    let isRoot := parts.length = 1 && (file = "lib" || file = "main")
    root :: parts.dropLast ++ (if file = "mod" || isRoot then [] else [file])

def ofFile (path sourceDir : String) : List String :=
  match FilePath.relativeParts? path sourceDir with
  | some parts => ofParts parts
  | none => [root]

end ApiContract.Module
