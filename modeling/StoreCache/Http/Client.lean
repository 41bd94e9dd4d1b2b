import StoreCache.Http.Router
import StoreCache.Http.ThinClient
import StoreCache.Settings
import StoreCache.Source

/-!
# Clients

A client knows where the metadata service is and which of the two ways to ask it. With a service it
becomes a `Source`; `Client.urls` lists the requests that an answer takes.
-/

namespace StoreCache.Http

/-- The ways to ask for metadata. -/
inductive Strategy
  | thinClient
  | router
  deriving DecidableEq, Repr

/-- How a strategy is called. -/
def Strategy.name : Strategy → String
  | .thinClient => "thin-client"
  | .router => "request-based"

/-- An endpoint that is no address of a service. -/
structure BadEndpoint where
  /-- The endpoint as it was given. -/
  endpoint : String
  fault : Url.Fault
  deriving DecidableEq, Repr

/-- The text of the error. -/
def BadEndpoint.message (e : BadEndpoint) : String :=
  "invalid endpoint " ++ e.endpoint ++ ": " ++ e.fault.message

/-- A way to ask, and where. -/
structure Client where
  strategy : Strategy
  base : Url
  deriving DecidableEq, Repr

namespace Client

/-- The client that settings call for. -/
def ofSettings? (cache : CacheSettings) (service : ServiceSettings) : Except BadEndpoint Client :=
  match Url.parse? service.baseUrl with
  | .ok base => .ok ⟨if cache.viaRouter then .router else .thinClient, base⟩
  | .error fault => .error ⟨service.endpoint, fault⟩

/-- Ask for the placement of a store. -/
def placement (c : Client) (service : Service) (store : String) : Inquiry (Option Placement) :=
  match c.strategy with
  | .thinClient => ThinClient.placement service c.base store
  | .router => Router.placement service c.base store

/-- Ask for the record of a store on a cluster. -/
def record (c : Client) (service : Service) (store cluster : String) : Inquiry Store :=
  match c.strategy with
  | .thinClient => ThinClient.record service c.base store cluster
  | .router => Router.record service c.base store

/-- Ask for the schemas of a store. -/
def schemas (c : Client) (service : Service) (store : String) : Inquiry SchemaSet :=
  match c.strategy with
  | .thinClient => ThinClient.schemas service c.base store
  | .router => Router.schemas service c.base store

/-- What a client can tell as long as a service stays as it is. -/
def source (c : Client) (service : Service) : Source where
  placement store := (c.placement service store).result
  record store cluster := (c.record service store cluster).result
  schemas store := (c.schemas service store).result

/-- The URLs that a client asks a service for to answer a question. -/
def urls (c : Client) (service : Service) : Question → List Url
  | .placement store => (c.placement service store).urls
  | .record store cluster => (c.record service store cluster).urls
  | .schemas store => (c.schemas service store).urls

end Client

end StoreCache.Http
