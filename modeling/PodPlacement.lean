import PodPlacement.Audit
import PodPlacement.Calendar
import PodPlacement.CommandLine.Options
import PodPlacement.CommandLine.Response
import PodPlacement.Comparison
import PodPlacement.Estimate
import PodPlacement.Heap
import PodPlacement.Ledger
import PodPlacement.Main
import PodPlacement.Manifest.Cluster
import PodPlacement.Manifest.Decode
import PodPlacement.Manifest.File
import PodPlacement.Manifest.ResourceList
import PodPlacement.Manifest.Workload
import PodPlacement.NodeQueue
import PodPlacement.Notice
import PodPlacement.Number.Binary64
import PodPlacement.Number.Capped
import PodPlacement.Number.Literal
import PodPlacement.Number.Rounding
import PodPlacement.Number.Shortest
import PodPlacement.Number.Style
import PodPlacement.Placement
import PodPlacement.Pod
import PodPlacement.Policy
import PodPlacement.Proofs.Arrangement
import PodPlacement.Proofs.Calendar
import PodPlacement.Proofs.Comparison
import PodPlacement.Proofs.Estimate
import PodPlacement.Proofs.Expansion
import PodPlacement.Proofs.HeapOrder
import PodPlacement.Proofs.Ledger.Admission
import PodPlacement.Proofs.Ledger.Advance
import PodPlacement.Proofs.Ledger.Balance
import PodPlacement.Proofs.Ledger.Drift
import PodPlacement.Proofs.Ledger.History
import PodPlacement.Proofs.Ledger.Operations
import PodPlacement.Proofs.Ledger.Precision
import PodPlacement.Proofs.Ledger.Refused
import PodPlacement.Proofs.Ledger.Regular
import PodPlacement.Proofs.Ledger.Room
import PodPlacement.Proofs.Ledger.Solvent
import PodPlacement.Proofs.Manifest.UnknownKeys
import PodPlacement.Proofs.Metrics
import PodPlacement.Proofs.NodeQueue
import PodPlacement.Proofs.Number.Error
import PodPlacement.Proofs.Number.Exact
import PodPlacement.Proofs.Number.Literal
import PodPlacement.Proofs.Number.Monotone
import PodPlacement.Proofs.Number.Nearest
import PodPlacement.Proofs.Number.Order
import PodPlacement.Proofs.Number.Written
import PodPlacement.Proofs.Placement.Choice
import PodPlacement.Proofs.Placement.Renaming
import PodPlacement.Proofs.Placement.Selection
import PodPlacement.Proofs.Placement.Trial
import PodPlacement.Proofs.PodNames
import PodPlacement.Proofs.Policy
import PodPlacement.Proofs.Quantity
import PodPlacement.Proofs.Report.Amount
import PodPlacement.Proofs.Report.Clock
import PodPlacement.Proofs.Report.Grid
import PodPlacement.Proofs.Report.Table
import PodPlacement.Proofs.Simulation.Abort
import PodPlacement.Proofs.Simulation.Accounting
import PodPlacement.Proofs.Simulation.Audit
import PodPlacement.Proofs.Simulation.AuditInstants
import PodPlacement.Proofs.Simulation.Capacity
import PodPlacement.Proofs.Simulation.EarliestStart
import PodPlacement.Proofs.Simulation.Events
import PodPlacement.Proofs.Simulation.Fairness
import PodPlacement.Proofs.Simulation.Feasible
import PodPlacement.Proofs.Simulation.Foresight
import PodPlacement.Proofs.Simulation.InputOrder
import PodPlacement.Proofs.Simulation.Log
import PodPlacement.Proofs.Simulation.NoContention
import PodPlacement.Proofs.Simulation.NodeList
import PodPlacement.Proofs.Simulation.Passes
import PodPlacement.Proofs.Simulation.Runs
import PodPlacement.Proofs.Simulation.Search
import PodPlacement.Proofs.Simulation.Serial
import PodPlacement.Proofs.Simulation.Termination
import PodPlacement.Proofs.Simulation.Timeline
import PodPlacement.Proofs.Simulation.TryOrder
import PodPlacement.Proofs.Simulation.WorkConserving
import PodPlacement.Proofs.Sorting
import PodPlacement.Proofs.Text
import PodPlacement.Quantity
import PodPlacement.Refusal
import PodPlacement.Report.Alignment
import PodPlacement.Report.Amount
import PodPlacement.Report.Clock
import PodPlacement.Report.Comparison
import PodPlacement.Report.Document
import PodPlacement.Report.Grid
import PodPlacement.Report.Table
import PodPlacement.Resources
import PodPlacement.Schedule
import PodPlacement.Simulation
import PodPlacement.Sorting
import PodPlacement.Text.Blank
import PodPlacement.Text.Letter
import PodPlacement.Yaml.Character
import PodPlacement.Yaml.Cursor
import PodPlacement.Yaml.Node
import PodPlacement.Yaml.Property
import PodPlacement.Yaml.Reader
import PodPlacement.Yaml.ScalarText
import PodPlacement.Yaml.Token
import PodPlacement.Yaml.Value
import PodPlacement.Yaml.Writer
