import LogicSim.Document.Service
import LogicSim.Circuit.Random
import LogicSim.Proofs.Graph.Exploration
import LogicSim.Proofs.Graph.Ordering
import LogicSim.Proofs.Graph.Components
import LogicSim.Proofs.Graph.Scheduling
import LogicSim.Proofs.Circuit.Validity
import LogicSim.Proofs.Netlist.Wiring
import LogicSim.Proofs.Netlist.Resolution
import LogicSim.Proofs.Netlist.Quiet
import LogicSim.Proofs.Netlist.Return
import LogicSim.Proofs.Netlist.Edge
import LogicSim.Proofs.Service.Cycle
import LogicSim.Proofs.Service.Returned
import LogicSim.Proofs.Netlist.Mapping
import LogicSim.Proofs.Netlist.Equations
import LogicSim.Proofs.Netlist.Loading
import LogicSim.Proofs.Inlining.Basic
import LogicSim.Proofs.Inlining.Paths
import LogicSim.Proofs.Inlining.Equivalence
import LogicSim.Proofs.Netlist.Signals
import LogicSim.Proofs.Evaluation.Reordering
import LogicSim.Proofs.Graph.Depth
import LogicSim.Proofs.Netlist.Settling
import LogicSim.Proofs.Netlist.Convergence
import LogicSim.Proofs.Service.Calls
import LogicSim.Proofs.Service.Convergence
import LogicSim.Proofs.Evaluation.Reseeding
import LogicSim.Proofs.Evaluation.Continuation
import LogicSim.Proofs.Evaluation.Cone
import LogicSim.Proofs.Service.Stepping
import LogicSim.Proofs.Netlist.Rest
import LogicSim.Proofs.Evaluation.Rest
import LogicSim.Proofs.Service.Outcome
import LogicSim.Proofs.Service.Settled
import LogicSim.Proofs.Nesting.Levels
import LogicSim.Proofs.Nesting.Supply
import LogicSim.Proofs.Nesting.Agreement
import LogicSim.Proofs.Service.Analysis
import LogicSim.Proofs.Service.Phases
import LogicSim.Proofs.Service.Changes
import LogicSim.Proofs.Netlist.Timeless
import LogicSim.Proofs.Nesting.Clocks
import LogicSim.Proofs.Service.Timeless
import LogicSim.Proofs.Netlist.Transcription
import LogicSim.Proofs.Service.Frame
import LogicSim.Proofs.Json.Drafting
import LogicSim.Proofs.Document.Restoring
import LogicSim.Proofs.Document.RoundTrip
import LogicSim.Proofs.Json.Lexing
import LogicSim.Proofs.Strict.Dependencies
import LogicSim.Proofs.Strict.Passes
import LogicSim.Proofs.Strict.CustomGates
import LogicSim.Proofs.Strict.Compilation
import LogicSim.Proofs.Strict.Calls
import LogicSim.Proofs.Graph.Feedback
import LogicSim.Proofs.Nesting.Tables
import LogicSim.Proofs.Service.Sessions
import LogicSim.Proofs.Journal.Working
import LogicSim.Proofs.Journal.Passes
import LogicSim.Proofs.Journal.Origins
import LogicSim.Proofs.Journal.Blame
import LogicSim.Proofs.Graph.Chains
import LogicSim.Proofs.Nesting.Limit
import LogicSim.Proofs.Service.Comparison
import LogicSim.Proofs.Netlist.Bindings
import LogicSim.Proofs.Nesting.Inputs
import LogicSim.Proofs.Netlist.History
import LogicSim.Proofs.Evaluation.Spread
import LogicSim.Proofs.Circuit.Wires
import LogicSim.Proofs.Circuit.Plans
import LogicSim.Proofs.Service.Oscillation
import LogicSim.Proofs.Service.Ring
import LogicSim.Proofs.Evaluation.Drawing
import LogicSim.Proofs.Circuit.Connecting
import LogicSim.Proofs.Graph.Loops
