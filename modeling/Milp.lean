import Milp.Action
import Milp.Call.Collection
import Milp.Call.Construct
import Milp.Call.Function
import Milp.Call.Method
import Milp.Constraint
import Milp.CutLoop
import Milp.CutLoop.Replay
import Milp.Demonstration
import Milp.Encoding.Columns
import Milp.Encoding.Columnwise
import Milp.Encoding.Incremental
import Milp.Encoding.Machine
import Milp.Encoding.Matrix
import Milp.Encoding.PseudoBoolean
import Milp.Encoding.Ranged
import Milp.Encoding.Rows
import Milp.Encoding.Symbolic
import Milp.Encoding.Whole
import Milp.Engine.CpSat
import Milp.Engine.Gurobi
import Milp.Engine.Highs
import Milp.Engine.Pyomo
import Milp.Engine.Scipy
import Milp.Engine.Session
import Milp.Exact.Engines
import Milp.Exact.Polyhedron
import Milp.Exact.Program
import Milp.Fault
import Milp.Grid.Basic
import Milp.Grid.Index
import Milp.Grid.Text
import Milp.Linear.Basic
import Milp.Linear.Evaluate
import Milp.Linear.Text
import Milp.Main
import Milp.Number.Binary
import Milp.Number.Extended
import Milp.Number.Layout
import Milp.Number.Numeric
import Milp.Number.Quantity
import Milp.Number.Reading
import Milp.Number.Shortest
import Milp.Phrase
import Milp.Problem.Basic
import Milp.Problem.Text
import Milp.Proofs.Action.Abreast
import Milp.Proofs.Action.Frame
import Milp.Proofs.Computation
import Milp.Proofs.CutLoop.Budget
import Milp.Proofs.CutLoop.Exchange
import Milp.Proofs.CutLoop.Frame
import Milp.Proofs.CutLoop.Optimality
import Milp.Proofs.CutLoop.Rounds
import Milp.Proofs.CutLoop.Termination
import Milp.Proofs.Encoding.Bounds
import Milp.Proofs.Encoding.Columns
import Milp.Proofs.Encoding.Columnwise
import Milp.Proofs.Encoding.Entries
import Milp.Proofs.Encoding.Incremental
import Milp.Proofs.Encoding.Inversion
import Milp.Proofs.Encoding.Matrix
import Milp.Proofs.Encoding.Multipliers
import Milp.Proofs.Encoding.Ranged
import Milp.Proofs.Encoding.Symbolic
import Milp.Proofs.Encoding.WholeSum
import Milp.Proofs.Engine.CpSat.Course
import Milp.Proofs.Engine.CpSat.Exactness
import Milp.Proofs.Engine.CpSat.Incumbents
import Milp.Proofs.Engine.CpSat.Points
import Milp.Proofs.Engine.CpSat.Refusal
import Milp.Proofs.Engine.CpSat.Status
import Milp.Proofs.Engine.CpSat.Validation
import Milp.Proofs.Engine.Duals
import Milp.Proofs.Engine.Failures
import Milp.Proofs.Engine.Forgetting
import Milp.Proofs.Engine.Gurobi.Building
import Milp.Proofs.Engine.Gurobi.Course
import Milp.Proofs.Engine.Gurobi.Duals
import Milp.Proofs.Engine.Gurobi.Status
import Milp.Proofs.Engine.Highs.Course
import Milp.Proofs.Engine.Highs.Duals
import Milp.Proofs.Engine.Highs.Status
import Milp.Proofs.Engine.HookStages
import Milp.Proofs.Engine.Hooks
import Milp.Proofs.Engine.Options
import Milp.Proofs.Engine.Precedence
import Milp.Proofs.Engine.Pyomo.Course
import Milp.Proofs.Engine.Pyomo.Status
import Milp.Proofs.Engine.Pyomo.Unseen
import Milp.Proofs.Engine.Scipy.Correctness
import Milp.Proofs.Engine.Scipy.Course
import Milp.Proofs.Engine.Scipy.DualTable
import Milp.Proofs.Engine.Scipy.Duals
import Milp.Proofs.Engine.Scipy.Mirror
import Milp.Proofs.Engine.Scipy.Relaxation
import Milp.Proofs.Engine.Scipy.Replied
import Milp.Proofs.Engine.Scipy.Reply
import Milp.Proofs.Engine.Scipy.Status
import Milp.Proofs.Engine.Scipy.Unattainable
import Milp.Proofs.Engine.Session
import Milp.Proofs.Engine.Status
import Milp.Proofs.Engine.Coherence
import Milp.Proofs.Engine.Writes
import Milp.Proofs.Extraction
import Milp.Proofs.Fault.Actions
import Milp.Proofs.Fault.Forms
import Milp.Proofs.Fault.Internal
import Milp.Proofs.Linear.Evaluate
import Milp.Proofs.Linear.Lines
import Milp.Proofs.Linear.Missing
import Milp.Proofs.Linear.Opposite
import Milp.Proofs.Number.Double.Arithmetic
import Milp.Proofs.Number.Double.Bits
import Milp.Proofs.Number.Double.Negation
import Milp.Proofs.Number.Double.Rounding
import Milp.Proofs.Number.Double.Whole
import Milp.Proofs.Number.Extended
import Milp.Proofs.Number.Held
import Milp.Proofs.Problem.Columnwise
import Milp.Proofs.Problem.Deeds
import Milp.Proofs.Problem.Denotation
import Milp.Proofs.Problem.DualTable
import Milp.Proofs.Problem.Duals
import Milp.Proofs.Problem.Listing
import Milp.Proofs.Problem.Mirror
import Milp.Proofs.Problem.Optimum
import Milp.Proofs.Problem.Ranged
import Milp.Proofs.Problem.Reals
import Milp.Proofs.Problem.Registration
import Milp.Proofs.Problem.Renumbering
import Milp.Proofs.Problem.RowByRow
import Milp.Proofs.Solution
import Milp.Proofs.Solver.Freezing
import Milp.Proofs.Solver.Settings
import Milp.Proofs.Store.IgnoresSolvers
import Milp.Proofs.Store.BrokenOff
import Milp.Proofs.Store.Built
import Milp.Proofs.Store.Calls
import Milp.Proofs.Store.Copies
import Milp.Proofs.Store.Deeds
import Milp.Proofs.Store.Dictionaries
import Milp.Proofs.Store.Enlarging
import Milp.Proofs.Store.History
import Milp.Proofs.Store.Hooks
import Milp.Proofs.Store.Independence
import Milp.Proofs.Store.Isolation
import Milp.Proofs.Store.KeepsSolvers
import Milp.Proofs.Store.Layout
import Milp.Proofs.Store.Listing
import Milp.Proofs.Store.Reordering
import Milp.Proofs.Store.Retaining
import Milp.Proofs.Store.Sharing
import Milp.Proofs.Store.Solving
import Milp.Proofs.Store.Sound
import Milp.Proofs.Store.Storing
import Milp.Proofs.Store.Walk
import Milp.Proofs.Store.Wording
import Milp.Proofs.Store.Writing
import Milp.Proofs.Table
import Milp.Proofs.Value.Reading
import Milp.Scalar
import Milp.Series
import Milp.Solution
import Milp.Solver.Adapter
import Milp.Solver.Discovery
import Milp.Solver.Settings
import Milp.Store.Basic
import Milp.Store.Conversion
import Milp.Store.Cuts
import Milp.Store.Encode
import Milp.Store.Equality
import Milp.Store.Evaluate
import Milp.Store.Linear
import Milp.Store.Member
import Milp.Store.Parameters
import Milp.Store.Parts
import Milp.Store.Problem
import Milp.Store.Result
import Milp.Store.Signature
import Milp.Store.Solve
import Milp.Store.Spread
import Milp.Store.Text
import Milp.Store.View
import Milp.Store.Walk
import Milp.Symbol
import Milp.Table
import Milp.Text.Case
import Milp.Text.Numeral
import Milp.Text.Printable
import Milp.Text.Quoted
import Milp.Text.Word
import Milp.Value.Arithmetic
import Milp.Value.Basic
import Milp.Value.Comparison
import Milp.Value.Key
import Milp.Value.Order
import Milp.Value.Reading
import Milp.Value.Text
