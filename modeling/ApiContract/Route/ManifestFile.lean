import ApiContract.Datum.OfJson
import ApiContract.Json.Reader
import ApiContract.Project.FileTree
import ApiContract.Route.Manifest
import ApiContract.Yaml.Reader

namespace ApiContract.Manifest

/-- The extension of a path tells the format. -/
def data? (path text : String) : Option Datum :=
  if FilePath.extension? path = some "json" then (Json.readWritten? text).map Datum.ofJson
  else Yaml.read? text

def load (tree : FileTree) (path : String) : Except Fault (List ManifestEntry) :=
  match tree.read? path with
  | none => .error (.unreadableManifest path)
  | some text =>
    match (data? path text).bind (Datum.listOf? ManifestEntry.ofDatum?) with
    | some entries => .ok entries
    | none => .error (.malformedManifest path)

end ApiContract.Manifest
