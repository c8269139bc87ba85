import Workflow.Calendar.Basic
import Workflow.Calendar.Timestamp
import Workflow.Command.Outcome
import Workflow.Command.Request
import Workflow.Command.Run
import Workflow.Disk.Basic
import Workflow.Disk.Path
import Workflow.Document
import Workflow.Fault
import Workflow.Graph.Ascending
import Workflow.Graph.Basic
import Workflow.Graph.Search
import Workflow.Json.Printer
import Workflow.Json.Reader
import Workflow.Json.Token
import Workflow.Lint
import Workflow.Main
import Workflow.Number.Binary64
import Workflow.Number.Decimal
import Workflow.Number.Power
import Workflow.Proofs.Command.Agreement
import Workflow.Proofs.Command.AllOrNothing
import Workflow.Proofs.Command.Ending
import Workflow.Proofs.Command.Outcome
import Workflow.Proofs.Command.Panels
import Workflow.Proofs.Command.Verify
import Workflow.Proofs.Disk.Files
import Workflow.Proofs.Disk.Store
import Workflow.Proofs.Graph.Ascending
import Workflow.Proofs.Graph.Closure
import Workflow.Proofs.Graph.Cycle
import Workflow.Proofs.Graph.CycleSearch
import Workflow.Proofs.Graph.Numbering
import Workflow.Proofs.Graph.Reachability
import Workflow.Proofs.Graph.Representation
import Workflow.Proofs.Graph.Stable
import Workflow.Proofs.Json.Consumption
import Workflow.Proofs.Json.Distinct
import Workflow.Proofs.Json.Injective
import Workflow.Proofs.Json.Number
import Workflow.Proofs.Json.Order
import Workflow.Proofs.Json.Reading
import Workflow.Proofs.Json.Text
import Workflow.Proofs.Json.Token
import Workflow.Proofs.Lint.Clean
import Workflow.Proofs.Lint.FirstFault
import Workflow.Proofs.Lint.Inventory
import Workflow.Proofs.Lint.Rearranged
import Workflow.Proofs.Lint.SameGraph
import Workflow.Proofs.Lint.Searches
import Workflow.Proofs.Lookup.Compilation
import Workflow.Proofs.Lookup.Graph
import Workflow.Proofs.Lookup.Recursion
import Workflow.Proofs.Lookup.Search
import Workflow.Proofs.Number.Characters
import Workflow.Proofs.Number.Digits
import Workflow.Proofs.Number.Rounding
import Workflow.Proofs.Number.Shortest
import Workflow.Proofs.Paired
import Workflow.Proofs.Service.AddedAgent
import Workflow.Proofs.Service.AddedEdge
import Workflow.Proofs.Service.Assembly
import Workflow.Proofs.Service.Canonical
import Workflow.Proofs.Service.Closed
import Workflow.Proofs.Service.Compilation
import Workflow.Proofs.Service.Consistency
import Workflow.Proofs.Service.Determinism
import Workflow.Proofs.Service.Disguised
import Workflow.Proofs.Service.Documented
import Workflow.Proofs.Service.Export
import Workflow.Proofs.Service.Influence
import Workflow.Proofs.Service.Mirror
import Workflow.Proofs.Service.Order
import Workflow.Proofs.Service.Rearranged
import Workflow.Proofs.Service.Reload
import Workflow.Proofs.Service.Representation
import Workflow.Proofs.Service.Reread
import Workflow.Proofs.Service.Revalidation
import Workflow.Proofs.Service.Run
import Workflow.Proofs.Service.SameWire
import Workflow.Proofs.Settings.Loading
import Workflow.Proofs.Settings.Nearest
import Workflow.Proofs.Spec.Disguise
import Workflow.Proofs.Spec.Lawful
import Workflow.Proofs.Spec.Locality
import Workflow.Proofs.Spec.Modelled
import Workflow.Proofs.Spec.Models
import Workflow.Proofs.Spec.Record
import Workflow.Proofs.Spec.Renaming
import Workflow.Proofs.Spec.Validated
import Workflow.Proofs.Spec.Violations
import Workflow.Proofs.Spec.Wire
import Workflow.Proofs.Success
import Workflow.Proofs.Text.Breaks
import Workflow.Proofs.Text.Markup
import Workflow.Proofs.Text.Styled
import Workflow.Proofs.Text.Utf8
import Workflow.Proofs.Toml.Distinct
import Workflow.Proofs.Toml.Document
import Workflow.Proofs.Toml.Draft
import Workflow.Proofs.Toml.Focus
import Workflow.Proofs.Toml.Number
import Workflow.Proofs.Toml.Obstacle
import Workflow.Proofs.Toml.Statement
import Workflow.Proofs.Toml.Text
import Workflow.Proofs.Toml.Value
import Workflow.Proofs.Value.KeyOrder
import Workflow.Proofs.Value.Matching
import Workflow.Proofs.Value.Plain
import Workflow.Proofs.Value.Readable
import Workflow.Proofs.Value.Same
import Workflow.Service.Basic
import Workflow.Service.Build
import Workflow.Service.Canonical
import Workflow.Service.Consistency
import Workflow.Service.Store
import Workflow.Settings
import Workflow.Spec.Agent
import Workflow.Spec.Evaluation
import Workflow.Spec.JsonSchema
import Workflow.Spec.Metadata
import Workflow.Spec.Orchestration
import Workflow.Spec.Project
import Workflow.Spec.Reading
import Workflow.Spec.Shape
import Workflow.Spec.Tool
import Workflow.Spec.Violation
import Workflow.Text.Markup
import Workflow.Text.Printable
import Workflow.Text.Quoted
import Workflow.Text.Sha256
import Workflow.Text.Utf8
import Workflow.Toml.Namespace
import Workflow.Toml.Obstacle
import Workflow.Toml.Printer
import Workflow.Toml.Reader
import Workflow.Toml.Scalar
import Workflow.Toml.Text
import Workflow.Value.Basic
import Workflow.Value.Digits
import Workflow.Value.Literal
import Workflow.Value.Same
