import ApiContract.Config.Basic
import ApiContract.Route.Uri
import ApiContract.Route.Verb

namespace ApiContract

structure Endpoint where
  /-- Normal form of the path. -/
  uri : String
  verb : Verb
  identity : String
  id : Option HandlerId
  middleware : List String
  tags : List String
  handler : Handler
  override : Option Override

namespace Endpoint

def inline : String := "inline"

end Endpoint

namespace Route

/-- The name of a route, or else the text of its handler. -/
def identity (route : Route) : String :=
  (route.name.or (route.handler.map HandlerId.text)).getD Endpoint.inline

def trimmed (uri : String) : String := Text.stripped Uri.isSlash uri

/-- Whether the configuration leaves the route out, with or without the slashes at its ends. -/
def isIgnored (config : Config) (route : Route) : Bool :=
  config.ignoresUri route.uri || config.ignoresUri (trimmed route.uri)

def tags (route : Route) : List String :=
  (route.tag.map trimmed).toList.filter fun tag => !tag.isEmpty

/-- The verbs that a route is registered for. Methods that are no verbs are left out. -/
def verbs (config : Config) (route : Route) : List Verb :=
  (route.methods.filter fun method => !config.ignoresMethod method).filterMap Verb.parse?

def endpoints (config : Config) (route : Route) (handler : Handler) : List Endpoint :=
  (route.verbs config).map fun verb =>
    { uri := Uri.normalize route.uri
      verb
      identity := route.identity
      id := route.handler
      middleware := route.middleware
      tags := route.tags
      handler
      override := config.overrides.get? route.identity }

end Route

end ApiContract
