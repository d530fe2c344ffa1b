import Lifecycle.Alias
import Lifecycle.Alias.Table
import Lifecycle.Creation.Cache
import Lifecycle.Creation.Request
import Lifecycle.Creation.Tracker
import Lifecycle.Demo
import Lifecycle.Disposals
import Lifecycle.Document
import Lifecycle.Document.Reader
import Lifecycle.Fault
import Lifecycle.Graph
import Lifecycle.Instance
import Lifecycle.Log.Hub
import Lifecycle.Log.Level
import Lifecycle.Log.Plan
import Lifecycle.Log.Record
import Lifecycle.Log.Router
import Lifecycle.Main
import Lifecycle.NameMap
import Lifecycle.Pool
import Lifecycle.Proofs.Alias.Chain
import Lifecycle.Proofs.Alias.Listing
import Lifecycle.Proofs.Alias.Redirection
import Lifecycle.Proofs.Alias.Renaming
import Lifecycle.Proofs.Alias.Turns
import Lifecycle.Proofs.Alias.Walk
import Lifecycle.Proofs.Alias.WellFormed
import Lifecycle.Proofs.Creation.Discard
import Lifecycle.Proofs.Creation.Exclusions
import Lifecycle.Proofs.Creation.Exposures
import Lifecycle.Proofs.Creation.Finalized
import Lifecycle.Proofs.Creation.HeldOnce
import Lifecycle.Proofs.Creation.InCreation
import Lifecycle.Proofs.Creation.Listed
import Lifecycle.Proofs.Creation.Recording
import Lifecycle.Proofs.Creation.Recursion
import Lifecycle.Proofs.Creation.Requests
import Lifecycle.Proofs.Creation.Response
import Lifecycle.Proofs.Creation.Stores
import Lifecycle.Proofs.Creation.Swallowed
import Lifecycle.Proofs.Document.Fields
import Lifecycle.Proofs.Graph.Descent
import Lifecycle.Proofs.Graph.Search
import Lifecycle.Proofs.Log.Initialized
import Lifecycle.Proofs.Log.Openings
import Lifecycle.Proofs.Pool.OneCreation
import Lifecycle.Proofs.Pool.Orderly
import Lifecycle.Proofs.Script.Silence
import Lifecycle.Proofs.Session.Change
import Lifecycle.Proofs.Session.Effect
import Lifecycle.Proofs.Session.Facade
import Lifecycle.Proofs.Session.Lookups
import Lifecycle.Proofs.Session.Names
import Lifecycle.Proofs.Settings.Reading
import Lifecycle.Proofs.Teardown.Accounts
import Lifecycle.Proofs.Teardown.Aftermath
import Lifecycle.Proofs.Teardown.Agreement
import Lifecycle.Proofs.Teardown.Closedown
import Lifecycle.Proofs.Teardown.Coverage
import Lifecycle.Proofs.Teardown.Edges
import Lifecycle.Proofs.Teardown.Leftovers
import Lifecycle.Proofs.Teardown.Order
import Lifecycle.Proofs.Teardown.Paired
import Lifecycle.Proofs.Teardown.Precedence
import Lifecycle.Proofs.Teardown.Registered
import Lifecycle.Proofs.Teardown.Registrations
import Lifecycle.Proofs.Teardown.Remains
import Lifecycle.Proofs.Teardown.Sweep
import Lifecycle.Proofs.Teardown.Thrown
import Lifecycle.Proofs.Teardown.Undisturbed
import Lifecycle.Registry
import Lifecycle.Registry.Call
import Lifecycle.Registry.Drive
import Lifecycle.Registry.Facade
import Lifecycle.Registry.Run
import Lifecycle.Registry.Session
import Lifecycle.Registry.Teardown
import Lifecycle.Script.Basic
import Lifecycle.Script.Play
import Lifecycle.Script.Scenario
import Lifecycle.Script.World
import Lifecycle.Settings
import Lifecycle.Status
import Lifecycle.Text
