import Archipelago.Config.Ron
import Archipelago.Expr.Codec
import Archipelago.Library.Folder
import Archipelago.Session.Advance
import Archipelago.Session.Cleanup
import Archipelago.Session.Hydrate
import Archipelago.Proofs.Dependency.Order
import Archipelago.Proofs.Action.Trace
import Archipelago.Proofs.Store.Frame
import Archipelago.Proofs.Store.Calls
import Archipelago.Proofs.Store.Fresh
import Archipelago.Proofs.Session.Calls
import Archipelago.Proofs.Page.Coverage
import Archipelago.Proofs.Session.InStep
import Archipelago.Proofs.Expr.References
import Archipelago.Proofs.Expr.Simulation
import Archipelago.Proofs.Expr.Limits
import Archipelago.Proofs.Expr.Paths
import Archipelago.Proofs.Compile.Checked
import Archipelago.Proofs.Compile.Ensures
import Archipelago.Proofs.Compile.Steps
import Archipelago.Proofs.Compile.Elements
import Archipelago.Proofs.Compile.Tree
import Archipelago.Proofs.Compile.Sound
import Archipelago.Proofs.Page.Reads
import Archipelago.Proofs.Session.Display
import Archipelago.Proofs.Scheduler
import Archipelago.Proofs.Session.Timers
import Archipelago.Proofs.Page.Visits
import Archipelago.Proofs.Session.Tasks
import Archipelago.Proofs.Session.States
import Archipelago.Proofs.Expr.Failures
import Archipelago.Proofs.Page.Scoped
import Archipelago.Proofs.Action.Failures
import Archipelago.Proofs.Session.Events
import Archipelago.Proofs.Hash
import Archipelago.Proofs.Value.Plain
import Archipelago.Proofs.Markup.Places
import Archipelago.Proofs.Text
import Archipelago.Proofs.Markup.Reading
import Archipelago.Proofs.Compile.Formed
import Archipelago.Proofs.Compile.Extract
import Archipelago.Proofs.Page.Islands
import Archipelago.Proofs.Page.Drawn
import Archipelago.Proofs.Document.Mount
import Archipelago.Proofs.Store.Builds
import Archipelago.Proofs.Session.Hydrates
import Archipelago.Proofs.Json.Numbers
import Archipelago.Proofs.Json.Reading
import Archipelago.Proofs.Json.Restoring
import Archipelago.Proofs.Value.Rereading
import Archipelago.Proofs.Template.Rereading
import Archipelago.Proofs.Compile.Publish
import Archipelago.Proofs.Action.Targets
import Archipelago.Proofs.Template.Reactive
import Archipelago.Proofs.Store.Agreement
import Archipelago.Proofs.Page.Static
import Archipelago.Proofs.Session.Static
import Archipelago.Store.InPlace
import Archipelago.Proofs.Store.Atomic
import Archipelago.Proofs.Store.Late
import Archipelago.Proofs.Action.Sequence
import Archipelago.Proofs.Scheduler.Due
import Archipelago.Proofs.Scheduler.Timely
import Archipelago.Proofs.Session.Jobs
import Archipelago.Proofs.Session.Advance
import Archipelago.Proofs.Session.Owners
import Archipelago.Proofs.Session.Spares
import Archipelago.Proofs.Document.Tree
import Archipelago.Proofs.Document.Forest
import Archipelago.Proofs.Document.Twin
import Archipelago.Proofs.Document.Written
import Archipelago.Proofs.Session.Isolation
import Archipelago.Proofs.Storage
import Archipelago.Proofs.Store.History
import Archipelago.Proofs.Store.Typed
import Archipelago.Proofs.Decimal.Parts
import Archipelago.Proofs.Decimal.Whole
import Archipelago.Proofs.Decimal.Shortest
import Archipelago.Proofs.Json.Floats
import Archipelago.Proofs.Store.Saved
import Archipelago.Proofs.Store.Rebuild
import Archipelago.Proofs.Store.Reload
import Archipelago.Proofs.Page.Rereading
import Archipelago.Proofs.Page.Skeletons
import Archipelago.Proofs.Page.Sanitised
import Archipelago.Proofs.Template.Inspected
import Archipelago.Proofs.Compile.Attributes
import Archipelago.Proofs.Page.Conditions
import Archipelago.Proofs.Session.Ticks
import Archipelago.Proofs.Store.Reports
import Archipelago.Proofs.Session.Mounts
import Archipelago.Proofs.Value.Numbers
import Archipelago.Proofs.Store.Reordered
import Archipelago.Proofs.Action.Spread
import Archipelago.Proofs.Action.Resumed
import Archipelago.Proofs.Action.Cycle
import Archipelago.Proofs.Action.Paths
import Archipelago.Proofs.Action.Sorted
import Archipelago.Proofs.Expr.Agreement
import Archipelago.Proofs.Expr.Source
import Archipelago.Proofs.Expr.Grammar
import Archipelago.Proofs.Dependency.Cycles
import Archipelago.Proofs.Scheduler.Drains
import Archipelago.Proofs.Store.Literals
import Archipelago.Proofs.Compile.Marks
import Archipelago.Proofs.Compile.Counts
import Archipelago.Proofs.Markup.Nesting
import Archipelago.Proofs.Page.Pointers
import Archipelago.Proofs.Session.Renders
