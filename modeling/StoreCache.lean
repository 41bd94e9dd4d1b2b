import StoreCache.Cache
import StoreCache.Cache.Update
import StoreCache.CacheError
import StoreCache.Catalog
import StoreCache.Catalog.Desk
import StoreCache.Dict
import StoreCache.Digits
import StoreCache.FetchError
import StoreCache.Freshness
import StoreCache.Http.Client
import StoreCache.Http.Exchange
import StoreCache.Http.Router
import StoreCache.Http.ThinClient
import StoreCache.Journal
import StoreCache.Json.Binary64
import StoreCache.Json.Number
import StoreCache.Json.Record
import StoreCache.Json.Token
import StoreCache.Json.Tree
import StoreCache.Json.Value
import StoreCache.Listener
import StoreCache.Listener.Rule
import StoreCache.Main
import StoreCache.Phase
import StoreCache.Placement
import StoreCache.Refresh
import StoreCache.SchemaQuery
import StoreCache.SchemaSet
import StoreCache.Session
import StoreCache.Settings
import StoreCache.Source
import StoreCache.Store
import StoreCache.Sweep
import StoreCache.SystemStore
import StoreCache.Toml.Document
import StoreCache.Toml.Scalar
import StoreCache.Toml.Table
import StoreCache.Toml.Text
import StoreCache.Url
import StoreCache.Url.Address
import StoreCache.Url.Domain
import StoreCache.Url.Fault
import StoreCache.Url.Host
import StoreCache.Url.Path
import StoreCache.Url.Percent
import StoreCache.Url.Punycode
import StoreCache.Utf8
import StoreCache.Watch
import StoreCache.Watch.Arguments
import StoreCache.Watch.Configuration
import StoreCache.Watch.Log
import StoreCache.World
import StoreCache.Proofs.Cascade
import StoreCache.Proofs.Depth
import StoreCache.Proofs.Shelf
import StoreCache.Proofs.Event
import StoreCache.Proofs.Run
import StoreCache.Proofs.Shape
import StoreCache.Proofs.Quota
import StoreCache.Proofs.Telling
import StoreCache.Proofs.Tracking
import StoreCache.Proofs.Clear
import StoreCache.Proofs.Passive
import StoreCache.Proofs.Hearing
import StoreCache.Proofs.Standing
import StoreCache.Proofs.Subscribe
import StoreCache.Proofs.Course
import StoreCache.Proofs.Refusal
import StoreCache.Proofs.Alone
import StoreCache.Proofs.Sweeping
import StoreCache.Proofs.Isolation
import StoreCache.Proofs.Failure
import StoreCache.Proofs.Agreement
import StoreCache.Proofs.Departure
import StoreCache.Proofs.Overtaking
import StoreCache.Proofs.Chronicle
import StoreCache.Proofs.Mirror
import StoreCache.Proofs.Drift
import StoreCache.Proofs.Interference
import StoreCache.Proofs.Absence
import StoreCache.Proofs.Success
import StoreCache.Proofs.Settling
import StoreCache.Proofs.Overlap
import StoreCache.Proofs.Question
import StoreCache.Proofs.Timeline
import StoreCache.Proofs.Schedule
import StoreCache.Proofs.Running
import StoreCache.Proofs.Turns
import StoreCache.Proofs.Passing
import StoreCache.Proofs.Forward
import StoreCache.Proofs.Unwinding
import StoreCache.Proofs.Indifference
import StoreCache.Proofs.ReadThrough
import StoreCache.Proofs.Coherence
import StoreCache.Proofs.Dating
import StoreCache.Proofs.Resolving
import StoreCache.Proofs.Naming
import StoreCache.Proofs.Asking
import StoreCache.Proofs.Fetching
import StoreCache.Proofs.Lockstep
import StoreCache.Proofs.Reading
import StoreCache.Proofs.Interchange
import StoreCache.Proofs.Lifecycle
import StoreCache.Proofs.Lookup
import StoreCache.Proofs.Addressing
import StoreCache.Proofs.Rhythm
import StoreCache.Proofs.Pacing
import StoreCache.Proofs.Periodic
import StoreCache.Proofs.Writing
import StoreCache.Proofs.Roster
