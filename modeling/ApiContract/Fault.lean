namespace ApiContract

inductive Fault where
  | missingSources (path : String)
  | unreadableConfig (path : String)
  | malformedConfig (path : String)
  | unreadableManifest (path : String)
  | malformedManifest (path : String)
  /-- A manifest entry that names neither a path nor a method, as it is shown. -/
  | vacantEntry (entry : String)
  /-- The table of routes has a fault. -/
  | routeTable (cause : Fault)
  | missingProject (path : String)
  | projectNotDirectory (path : String)
  | directoryNotCreated (path : String)
  | fileNotWritten (path : String)
deriving DecidableEq, Repr

namespace Fault

def message : Fault → String
  | missingSources path => "Source directory not found: " ++ path
  | unreadableConfig path => "Failed to read config file: " ++ path
  | malformedConfig path => "Failed to parse config file: " ++ path
  | unreadableManifest path => "Failed to read route manifest: " ++ path
  | malformedManifest path => "Failed to parse route manifest: " ++ path
  | vacantEntry entry => "Route manifest entry without uri or methods: " ++ entry
  | routeTable _ => "Failed to read the route table"
  | missingProject path => "Project path does not exist: " ++ path
  | projectNotDirectory path => "Project path is not a directory: " ++ path
  | directoryNotCreated path => "Failed to create directory: " ++ path
  | fileNotWritten path => "Failed to write to file: " ++ path

end Fault

end ApiContract
