import ApiContract.Config.Format
import ApiContract.Project.FileTree
import ApiContract.Yaml.Reader

namespace ApiContract.Config

/-- A blank text leaves everything at its default. -/
def ofYaml? (text : String) : Option Config :=
  if (Text.trim text).isEmpty then some {} else (Yaml.read? text).bind ofDatum?

def load (tree : FileTree) (path : String) : Except Fault Config :=
  match tree.read? path with
  | none => .error (.unreadableConfig path)
  | some text =>
    match ofYaml? text with
    | some config => .ok config
    | none => .error (.malformedConfig path)

def fileName : String := "openapi-generator.yaml"

/-- The configuration of a project; one without the file has the defaults. -/
def discover (tree : FileTree) (directory : String) : Except Fault Config :=
  let path := FilePath.join directory fileName
  if tree.isFile path then load tree path else .ok {}

end ApiContract.Config
