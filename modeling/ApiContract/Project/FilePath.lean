import ApiContract.Text.Pieces

namespace ApiContract.FilePath

/-- The parts of a path. Blank parts and single dots between parts do not count; a leading slash or
a leading dot is a part. -/
def parts (path : String) : List String :=
  let pieces := Text.split '/' path
  let rest := fun (ps : List String) => ps.filter fun p => p ≠ "" && p ≠ "."
  match pieces with
  | "" :: more => if more.isEmpty then [] else "/" :: rest more
  | "." :: more => "." :: rest more
  | all => rest all

/-- A path below another one; a rooted path stands for itself. -/
def join (base path : String) : String :=
  if path.toList.head? = some '/' || base.isEmpty then path
  else if base.toList.getLast? = some '/' then base ++ path
  else base ++ "/" ++ path

def asksDirectory (path : String) : Bool :=
  match (Text.split '/' path).reverse with
  | last :: _ :: _ => last = "" || last = "."
  | _ => false

def dropIdle : List String → List String
  | [] => []
  | [piece] => [piece]
  | piece :: pieces => if piece = "" || piece = "." then dropIdle pieces else piece :: pieces

def parent? (path : String) : Option String :=
  match dropIdle (Text.split '/' path).reverse with
  | [] | [""] => none
  | _ :: before =>
    match dropIdle before with
    | [] => some ""
    | [""] => some "/"
    | pieces => some (String.intercalate "/" pieces.reverse)

/-- Name of the file, unless the path ends with a step upward. -/
def fileName? (path : String) : Option String :=
  match (parts path).getLast? with
  | some name => if name = ".." || name = "." || name = "/" then none else some name
  | none => none

/-- Name without and with what follows its last point. A point at the start does not count. -/
def splitExtension (name : String) : String × Option String :=
  match Text.splitLast? '.' name.toList with
  | some (stem, ext) =>
    if stem.isEmpty then (name, none) else (String.ofList stem, some (String.ofList ext))
  | none => (name, none)

def extension? (path : String) : Option String :=
  (fileName? path).bind fun name => (splitExtension name).2

def withExtension (path ext : String) : String :=
  match fileName? path with
  | none => path
  | some name =>
    let trimmed := Text.dropEnd (· = '/') path.toList
    let base := trimmed.take (trimmed.length - name.length)
    String.ofList base ++ (splitExtension name).1 ++ "." ++ ext

def relativeParts? (path base : String) : Option (List String) :=
  let b := parts base
  let p := parts path
  if b.isPrefixOf p then some (p.drop b.length) else none

end ApiContract.FilePath
