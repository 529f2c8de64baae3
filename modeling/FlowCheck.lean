import FlowCheck.Main
import FlowCheck.Probe.Frames
import FlowCheck.Probe.Network
import FlowCheck.Probe.Query
import FlowCheck.Settings.Cell
import FlowCheck.Value.JsonReader
import FlowCheck.Proofs.TableQueries
import FlowCheck.Proofs.Boundaries
import FlowCheck.Proofs.Reach
import FlowCheck.Proofs.Ensures
import FlowCheck.Proofs.Frames
import FlowCheck.Proofs.Walk
import FlowCheck.Proofs.Justified
import FlowCheck.Proofs.Closed
import FlowCheck.Proofs.StepCount
import FlowCheck.Proofs.Decision
import FlowCheck.Proofs.SearchSteps
import FlowCheck.Proofs.Components
import FlowCheck.Proofs.Summaries
import FlowCheck.Proofs.Execution
import FlowCheck.Proofs.Contract
import FlowCheck.Proofs.Tracking
import FlowCheck.Proofs.TrackedSteps
import FlowCheck.Proofs.Runs
import FlowCheck.Proofs.Simulation
import FlowCheck.Proofs.Soundness
import FlowCheck.Proofs.Calls
import FlowCheck.Proofs.Moments
import FlowCheck.Proofs.Steady
import FlowCheck.Proofs.Iterations
import FlowCheck.Proofs.Control
import FlowCheck.Proofs.ExactResults
import FlowCheck.Proofs.Data
import FlowCheck.Proofs.Deployed
import FlowCheck.Proofs.RaisedLimits
import FlowCheck.Proofs.TableFormats
import FlowCheck.Proofs.Tiling
import FlowCheck.Proofs.Assembling
import FlowCheck.Proofs.Precedence
import FlowCheck.Proofs.LeastNeeds
import FlowCheck.Proofs.LongestChains
import FlowCheck.Proofs.HigherLimit
import FlowCheck.Proofs.FileWrites
import FlowCheck.Proofs.HexText
import FlowCheck.Proofs.CodeText
import FlowCheck.Proofs.NumeralText
import FlowCheck.Proofs.LineText
import FlowCheck.Proofs.SourceText
import FlowCheck.Proofs.CodeFiles
import FlowCheck.Proofs.ReachableSettings
import FlowCheck.Proofs.Located
import FlowCheck.Proofs.MemoryHistory
import FlowCheck.Proofs.TwosComplement
import FlowCheck.Proofs.Documents
import FlowCheck.Proofs.ByteOrder
