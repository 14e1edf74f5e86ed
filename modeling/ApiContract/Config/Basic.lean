import ApiContract.Config.Override
import ApiContract.Example.Fixtures
import ApiContract.Handler.Basic
import ApiContract.Route.Manifest

namespace ApiContract

structure Config where
  title : String := ""
  version : Option String := none
  description : String := ""
  /-- Where the sources of a project are, below its directory. -/
  sourceDir : String := "src"
  /-- Where the document goes, below the directory of the project. -/
  output : Option String := none
  /-- Whether examples are shown as stored instances. -/
  stored : Bool := false
  /-- The variant of a fixture that is taken where there is one. -/
  variant : String := "documentation"
  /-- The name under which envelopes hold their content. -/
  wrap : Option String := some "data"
  typeExamples : Table Json := []
  transformerInputs : Table Json := []
  /-- Overrides by the identity of endpoints. -/
  overrides : Table Override := []
  fixtures : Table Fixture := []
  capabilities : Capability.Conventions := {}
  handlers : Handler.Conventions := {}
  ignoredUris : List String := ["\x7bfallbackPlaceholder\x7d"]
  ignoredMethods : List String := ["HEAD", "OPTIONS"]
  /-- Routes that are listed here. -/
  routes : List ManifestEntry := []

namespace Config

/-- The configured version, or else that of the surroundings unless it is blank. -/
def infoVersion (c : Config) (surroundings : Option String) : String :=
  match c.version with
  | some version => version
  | none => (surroundings.filter fun version => !version.isEmpty).getD "1.0.0"

def ignoresUri (c : Config) (uri : String) : Bool := c.ignoredUris.contains uri

/-- Case does not matter for methods. -/
def ignoresMethod (c : Config) (method : String) : Bool :=
  c.ignoredMethods.any (Handler.Conventions.equalFolded method)

end Config

end ApiContract
