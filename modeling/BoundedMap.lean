import BoundedMap.Bench.CommandLine
import BoundedMap.Bench.Report
import BoundedMap.Bench.Sample
import BoundedMap.Bench.Session
import BoundedMap.Bench.Workload
import BoundedMap.Binary64.Basic
import BoundedMap.Binary64.Fixed
import BoundedMap.Binary64.Shortest
import BoundedMap.Cursor.Basic
import BoundedMap.Cursor.Request
import BoundedMap.Failure
import BoundedMap.Handle
import BoundedMap.Json.Codec
import BoundedMap.Json.Number
import BoundedMap.Json.Reader
import BoundedMap.Json.Text
import BoundedMap.Json.Writer
import BoundedMap.Main
import BoundedMap.Map.Basic
import BoundedMap.Map.Check
import BoundedMap.Map.Display
import BoundedMap.Map.Json
import BoundedMap.Map.Request
import BoundedMap.Map.WellFormed
import BoundedMap.Model.SortedList
import BoundedMap.Order.Basic
import BoundedMap.Order.Integer
import BoundedMap.Order.Sequence
import BoundedMap.Order.Text
import BoundedMap.Pool.Basic
import BoundedMap.Pool.Check
import BoundedMap.Pool.Request
import BoundedMap.Side
import BoundedMap.Subtree.Rotation
import BoundedMap.Subtree.Search
import BoundedMap.Subtree.Update
import BoundedMap.Text.CodeRange
import BoundedMap.Text.Decimal
import BoundedMap.Text.Extender
import BoundedMap.Text.Layout
import BoundedMap.Text.Printable
import BoundedMap.Text.Quoted
import BoundedMap.Tree.Balance
import BoundedMap.Tree.Basic
import BoundedMap.Proofs.Tree.Avl
import BoundedMap.Proofs.Order.Classes
import BoundedMap.Proofs.Tree.Edits
import BoundedMap.Proofs.Pool.Frame
import BoundedMap.Proofs.Pool.Slots
import BoundedMap.Proofs.Pool.Check
import BoundedMap.Proofs.Pool.Stack
import BoundedMap.Proofs.Pool.Recycling
import BoundedMap.Proofs.Pool.Accesses
import BoundedMap.Proofs.Tree.Height
import BoundedMap.Proofs.Tree.Reflection
import BoundedMap.Proofs.Subtree.Spelling
import BoundedMap.Proofs.Subtree.Nodes
import BoundedMap.Proofs.Subtree.Rotation
import BoundedMap.Proofs.Subtree.Descent
import BoundedMap.Proofs.Subtree.Trail
import BoundedMap.Proofs.Subtree.Relinking
import BoundedMap.Proofs.Subtree.Insertion
import BoundedMap.Proofs.Subtree.Locality
import BoundedMap.Proofs.Chart.Basic
import BoundedMap.Proofs.Cursor.Walk
import BoundedMap.Proofs.Cursor.Ends
import BoundedMap.Proofs.Cursor.Stacks
import BoundedMap.Proofs.Subtree.Removal
import BoundedMap.Proofs.Chart.Follows
import BoundedMap.Proofs.Chart.Layout
import BoundedMap.Proofs.Chart.Reachable
import BoundedMap.Proofs.Model.SortedList
import BoundedMap.Proofs.Chart.Listing
import BoundedMap.Proofs.Model.Updates
import BoundedMap.Proofs.Model.Reflection
import BoundedMap.Proofs.Chart.Reflection
import BoundedMap.Proofs.Subtree.Accesses
import BoundedMap.Proofs.Map.Recycling
import BoundedMap.Proofs.Map.Survey
import BoundedMap.Proofs.Map.SelfCheck
import BoundedMap.Proofs.Map.Refinement
import BoundedMap.Proofs.Tree.Relabel
import BoundedMap.Proofs.Tree.Logarithm
import BoundedMap.Proofs.Map.Edits
import BoundedMap.Proofs.Map.Exhaustion
import BoundedMap.Proofs.Map.Height
import BoundedMap.Proofs.Map.Iteration
import BoundedMap.Proofs.Map.Structure
import BoundedMap.Proofs.Map.Safety
import BoundedMap.Proofs.Map.Stacks
import BoundedMap.Proofs.Chart.Erasure
import BoundedMap.Proofs.Map.Erasure
import BoundedMap.Proofs.Map.Placement
import BoundedMap.Proofs.Map.Equality
import BoundedMap.Proofs.Map.Commuting
import BoundedMap.Proofs.Map.Loading
import BoundedMap.Proofs.Json.Integer
import BoundedMap.Proofs.Json.Object
import BoundedMap.Proofs.Map.RoundTrip
import BoundedMap.Proofs.Map.Reflection
import BoundedMap.Proofs.Map.Overwriting
import BoundedMap.Proofs.Map.Locality
import BoundedMap.Proofs.Tree.Planting
import BoundedMap.Proofs.Tree.Combed
import BoundedMap.Proofs.Chart.Planting
import BoundedMap.Proofs.Map.Monotone
import BoundedMap.Proofs.Map.Clearing
import BoundedMap.Proofs.Model.Counting
import BoundedMap.Proofs.Map.Fitting
import BoundedMap.Proofs.Bench.Phases
import BoundedMap.Proofs.Bench.Agreement
import BoundedMap.Proofs.Bench.Drawing
import BoundedMap.Proofs.Bench.Sampling
import BoundedMap.Proofs.Subtree.Balancing
import BoundedMap.Proofs.Subtree.Outcomes
import BoundedMap.Proofs.Subtree.Calls
import BoundedMap.Proofs.Map.Subtrees
