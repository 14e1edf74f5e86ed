import ApiContract.Command.Arguments
import ApiContract.Config.File
import ApiContract.Document.Encode
import ApiContract.Generation
import ApiContract.Yaml.Printer

namespace ApiContract

def Document.text (d : Document) : Command.Format → String
  | .yaml => Yaml.print d.toJson
  | .json => d.toJson.indented

namespace Command

inductive Action where
  | print (text : String)
  | write (path text : String)

def checked (tree : FileTree) (arguments : Arguments) : Except Fault Arguments :=
  match tree.get? arguments.project with
  | none => .error (.missingProject arguments.project)
  | some (.file _) => .error (.projectNotDirectory arguments.project)
  | some (.directory _) => .ok arguments

def configOf (tree : FileTree) (arguments : Arguments) : Except Fault Config :=
  match arguments.config with
  | some path => Config.load tree path
  | none => Config.discover tree arguments.project

def generation (tree : FileTree) (version : Option String) (arguments : Arguments) :
    Except Fault (Config × Generation) := do
  let config ← configOf tree arguments
  let project : Project := ⟨tree, arguments.project, version⟩
  let files ← project.sources config
  let source ← RouteSource.choose tree arguments.manifest config files
  return (config, ← project.generateFrom config files source)

/-- Where the document goes: to the path that the arguments name, or else to the configured one in
the project. -/
def outputOf (arguments : Arguments) (config : Config) : Option String :=
  arguments.output.or (config.output.map (FilePath.join arguments.project))

/-- The last step of a run, found without taking it. -/
def action (tree : FileTree) (version : Option String) (arguments : Arguments) :
    Except Fault Action := do
  let (config, generation) ← generation tree version arguments
  let text := generation.document.text arguments.format
  return match outputOf arguments config with
    | some path => .write path text
    | none => .print (text ++ "\n")

structure Outcome where
  fault : Option Fault := none
  tree : FileTree
  printed : String := ""

/-- Writes a text, after the directories on the way to it. -/
def write (tree : FileTree) (path text : String) (disk : Disk) : Outcome :=
  let parent := (FilePath.parent? path).filter fun p => !p.isEmpty
  match parent.elim (tree, true) (disk.makeDirectories tree) with
  | (ready, false) => { fault := some (.directoryNotCreated (parent.getD "")), tree := ready }
  | (ready, true) =>
    match disk.write? ready path text with
    | some written => { tree := written }
    | none => { fault := some (.fileNotWritten path), tree := ready }

def Action.perform (tree : FileTree) (disk : Disk) : Action → Outcome
  | print text => { tree, printed := text }
  | write path text => Command.write tree path text disk

def run (tree : FileTree) (version : Option String) (arguments : Arguments)
    (disk : Disk := .plain) : Outcome :=
  match action tree version arguments with
  | .ok action => action.perform tree disk
  | .error fault => { fault := some fault, tree }

end Command

end ApiContract
