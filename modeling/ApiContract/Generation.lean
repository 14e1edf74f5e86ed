import ApiContract.Assembly
import ApiContract.Route.ManifestFile
import ApiContract.Route.Routers

namespace ApiContract

structure Project where
  tree : FileTree
  directory : String
  version : Option String := none

structure Generation where
  document : Document
  failures : List Failure
  routeCount : Nat

inductive RouteSource where
  | manifest (entries : List ManifestEntry)
  | routers (routers : Routers)

namespace RouteSource

def routes : RouteSource → Except Fault (List Route)
  | manifest entries => Manifest.routes entries
  | routers r => .ok r.routes

/-- The routes that a configuration lists, or else those of the routers in the sources. -/
def ofConfig (config : Config) (files : List ParsedFile) : RouteSource :=
  if config.routes.isEmpty then routers (.ofFiles files) else manifest config.routes

/-- A manifest file, where one is named, comes before all others. -/
def choose (tree : FileTree) (manifestPath : Option String) (config : Config)
    (files : List ParsedFile) : Except Fault RouteSource :=
  match manifestPath with
  | some path => (Manifest.load tree path).map manifest
  | none => .ok (ofConfig config files)

end RouteSource

namespace Project

def sourceDir (project : Project) (config : Config) : String :=
  FilePath.join project.directory config.sourceDir

def sources (project : Project) (config : Config) : Except Fault (List ParsedFile) :=
  Scan.sources project.tree (project.sourceDir config)

def assembler (project : Project) (config : Config) (files : List ParsedFile) : Assembler :=
  let structs := Structs.ofFiles files
  { config
    analyzer :=
      { tree := ⟨project.tree, project.sourceDir config⟩
        capabilities := CapabilityIndex.build files config.capabilities
        conventions := config.handlers }
    structs
    synthesizer :=
      { fixtures := ⟨config.fixtures, config.variant⟩
        transformers := ⟨structs, config.wrap⟩
        typeExamples := config.typeExamples
        transformerInputs := config.transformerInputs
        stored := config.stored }
    version := project.version }

def generateFrom (project : Project) (config : Config) (files : List ParsedFile)
    (source : RouteSource) : Except Fault Generation :=
  match source.routes with
  | .error cause => .error (.routeTable cause)
  | .ok routes =>
    let (document, failures) := (project.assembler config files).assemble routes
    .ok ⟨document, failures, routes.length⟩

def generate (project : Project) (config : Config) (source : RouteSource) :
    Except Fault Generation := do
  project.generateFrom config (← project.sources config) source

end Project

end ApiContract
