import ApiContract.Command.Run

namespace ApiContract.Command

def usage : String :=
  "Usage: api-contract [-c FILE] [-r FILE] [-f yaml|json] [-o FILE] [-v] [--] PROJECT_PATH"

def versionText : String := "api-contract 0.1.0"

def fileText (path : String) : IO (Option String) := do
  try
    return String.fromUTF8? (← IO.FS.readBinFile path)
  catch _ => return none

/-- What stands at a path of the file system. What the search for sources skips is left out, and
links are not followed to directories. -/
partial def load (path : String) : IO (Option FileTree) := do
  try
    let mut entries : Table FileTree := []
    for entry in ← (← IO.FS.realPath path).readDir do
      let name := entry.fileName
      if !Scan.isSkipped name then
        let place := FilePath.join path name
        let node ← match (← entry.path.symlinkMetadata).type with
          | .symlink => do pure ((← fileText place).map fun text => FileTree.file (some text))
          | _ => load place
        match node with
        | some node => entries := entries.insert name node
        | none => pure ()
    return some (.directory entries)
  catch _ =>
    try
      let _ ← IO.FS.realPath path
      return some (.file (← fileText path))
    catch _ => return none

def withPath (tree : FileTree) (path : String) : IO FileTree := do
  match ← load path with
  | some node => return (tree.put? node (FileTree.steps path)).getD tree
  | none => return tree

def perform : Action → IO (Option Fault)
  | .print text => do
    IO.print text
    return none
  | .write path text => do
    let parent := (FilePath.parent? path).filter fun p => !p.isEmpty
    try
      for directory in parent do IO.FS.createDirAll directory
    catch _ => return some (.directoryNotCreated (parent.getD ""))
    try
      IO.FS.writeFile path text
      return none
    catch _ => return some (.fileNotWritten path)

def start (arguments : Arguments) : IO (Option Fault) := do
  let mut tree := FileTree.empty
  for path in arguments.project :: arguments.config.toList ++ arguments.manifest.toList do
    tree ← withPath tree path
  let version ← IO.getEnv "APP_VERSION"
  match checked tree arguments with
  | .error fault => return some fault
  | .ok arguments =>
    match action tree version arguments with
    | .error fault => return some fault
    | .ok action => perform action

end ApiContract.Command

open ApiContract.Command in
def main (arguments : List String) : IO UInt32 := do
  match Arguments.parse arguments with
  | .error .help => IO.println usage; return 0
  | .error .version => IO.println versionText; return 0
  | .error _ => IO.eprintln usage; return 2
  | .ok arguments =>
    match ← start arguments with
    | none => return 0
    | some fault => IO.eprintln ("Error: " ++ fault.message); return 1
