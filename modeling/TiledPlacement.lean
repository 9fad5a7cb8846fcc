import TiledPlacement.Command
import TiledPlacement.Decimal
import TiledPlacement.Demo
import TiledPlacement.Graph.Basic
import TiledPlacement.Graph.Block
import TiledPlacement.Graph.Error
import TiledPlacement.Graph.Id
import TiledPlacement.Graph.Integrity
import TiledPlacement.Graph.Operation
import TiledPlacement.Graph.Shape
import TiledPlacement.Graph.Storage
import TiledPlacement.Grid
import TiledPlacement.Hardware.Basic
import TiledPlacement.Hardware.Coordinate
import TiledPlacement.Hardware.Document
import TiledPlacement.Hardware.Route
import TiledPlacement.Main
import TiledPlacement.MixedRadix
import TiledPlacement.Placement.Basic
import TiledPlacement.Placement.Command
import TiledPlacement.Placement.Evaluation
import TiledPlacement.Proofs.Action
import TiledPlacement.Proofs.Cycle
import TiledPlacement.Proofs.Demo.Layer
import TiledPlacement.Proofs.Demo.Placing
import TiledPlacement.Proofs.Demo.Run
import TiledPlacement.Proofs.Demo.Slots
import TiledPlacement.Proofs.Graph.Acyclic
import TiledPlacement.Proofs.Graph.Arithmetic
import TiledPlacement.Proofs.Graph.Awaited
import TiledPlacement.Proofs.Graph.Change
import TiledPlacement.Proofs.Graph.Cover
import TiledPlacement.Proofs.Graph.Downstream
import TiledPlacement.Proofs.Graph.Grouping
import TiledPlacement.Proofs.Graph.Linked
import TiledPlacement.Proofs.Graph.Neighbours
import TiledPlacement.Proofs.Graph.Operand
import TiledPlacement.Proofs.Graph.Port
import TiledPlacement.Proofs.Graph.Reachable
import TiledPlacement.Proofs.Graph.Removal
import TiledPlacement.Proofs.Graph.Run
import TiledPlacement.Proofs.Graph.Sorting
import TiledPlacement.Proofs.Graph.Topological
import TiledPlacement.Proofs.Graph.Valid
import TiledPlacement.Proofs.Graph.WellFormed
import TiledPlacement.Proofs.Grid.Address
import TiledPlacement.Proofs.Grid.Correspondence
import TiledPlacement.Proofs.Grid.Disabled
import TiledPlacement.Proofs.Grid.Filling
import TiledPlacement.Proofs.Grid.Listing
import TiledPlacement.Proofs.Grid.Occupancy
import TiledPlacement.Proofs.Grid.Reading
import TiledPlacement.Proofs.Grid.Refinement
import TiledPlacement.Proofs.Grid.Residence
import TiledPlacement.Proofs.Grid.Separation
import TiledPlacement.Proofs.Hardware.Column
import TiledPlacement.Proofs.Hardware.Document
import TiledPlacement.Proofs.Hardware.Format
import TiledPlacement.Proofs.Hardware.Numbering
import TiledPlacement.Proofs.Hardware.Order
import TiledPlacement.Proofs.Hardware.Path
import TiledPlacement.Proofs.Hardware.Routing
import TiledPlacement.Proofs.Hardware.Usable
import TiledPlacement.Proofs.Placement.Agreement
import TiledPlacement.Proofs.Placement.Arrangement
import TiledPlacement.Proofs.Placement.Clearing
import TiledPlacement.Proofs.Placement.Commands
import TiledPlacement.Proofs.Placement.Consistency
import TiledPlacement.Proofs.Placement.Determined
import TiledPlacement.Proofs.Placement.Footprint
import TiledPlacement.Proofs.Placement.Groups
import TiledPlacement.Proofs.Placement.Inheritance
import TiledPlacement.Proofs.Placement.Merging
import TiledPlacement.Proofs.Placement.Reachable
import TiledPlacement.Proofs.Placement.Refusal
import TiledPlacement.Proofs.Placement.Reports
import TiledPlacement.Proofs.Placement.Restoring
import TiledPlacement.Proofs.Placement.Routes
import TiledPlacement.Proofs.Placement.Routing
import TiledPlacement.Proofs.Placement.Seating
import TiledPlacement.Proofs.Placement.Splitting
import TiledPlacement.Proofs.Schedule.Attempts
import TiledPlacement.Proofs.Schedule.Delivery
import TiledPlacement.Proofs.Schedule.Pipeline
import TiledPlacement.Proofs.Schedule.Unobstructed
import TiledPlacement.Proofs.Split.Atomicity
import TiledPlacement.Proofs.Split.Commit
import TiledPlacement.Proofs.Split.Connection
import TiledPlacement.Proofs.Split.Creation
import TiledPlacement.Proofs.Split.Deliveries
import TiledPlacement.Proofs.Split.Division
import TiledPlacement.Proofs.Split.Extent
import TiledPlacement.Proofs.Split.Feeding
import TiledPlacement.Proofs.Split.Field
import TiledPlacement.Proofs.Split.Layout
import TiledPlacement.Proofs.Split.Numbering
import TiledPlacement.Proofs.Split.Outcome
import TiledPlacement.Proofs.Split.Partition
import TiledPlacement.Proofs.Split.Passing
import TiledPlacement.Proofs.Split.Placing
import TiledPlacement.Proofs.Split.Reading
import TiledPlacement.Proofs.Split.Run
import TiledPlacement.Proofs.Split.Success
import TiledPlacement.Proofs.Split.Summation
import TiledPlacement.Proofs.Split.Taps
import TiledPlacement.Proofs.Split.Validity
import TiledPlacement.Proofs.Split.Wiring
import TiledPlacement.Proofs.Toml.Document
import TiledPlacement.Proofs.Toml.Grammar
import TiledPlacement.Proofs.Toml.Number
import TiledPlacement.Proofs.Toml.Quotation
import TiledPlacement.Proofs.Toml.Reader
import TiledPlacement.Proofs.Toml.Reading
import TiledPlacement.Proofs.Transfer.Exact
import TiledPlacement.Proofs.Transfer.History
import TiledPlacement.Proofs.Transfer.Journey
import TiledPlacement.Proofs.Transfer.Legs
import TiledPlacement.Proofs.Transfer.Placed
import TiledPlacement.Proofs.Transfer.Plan
import TiledPlacement.Proofs.Transfer.Progress
import TiledPlacement.Proofs.Transfer.Requests
import TiledPlacement.Proofs.Transfer.Sharing
import TiledPlacement.Proofs.Transfer.Termination
import TiledPlacement.Proofs.Window.Carrying
import TiledPlacement.Proofs.Window.Region
import TiledPlacement.Proofs.Window.Tiling
import TiledPlacement.Proofs.Window.Translation
import TiledPlacement.Schedule
import TiledPlacement.Split.Part
import TiledPlacement.Split.Plan
import TiledPlacement.Toml.Document
import TiledPlacement.Toml.Reader
import TiledPlacement.Toml.Writer
import TiledPlacement.Transfer.Basic
import TiledPlacement.Transfer.Run
import TiledPlacement.Word
