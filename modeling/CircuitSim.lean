import CircuitSim.Code.Listing
import CircuitSim.Proofs.Simulation
import CircuitSim.Proofs.Subcircuit
import CircuitSim.Session
import CircuitSim.Settings.Format
import CircuitSim.Proofs.Emission
import CircuitSim.Proofs.PackedMemory
import CircuitSim.Proofs.Capture
import CircuitSim.Proofs.Outcome
import CircuitSim.Proofs.Snapshot
import CircuitSim.Proofs.Relayout
import CircuitSim.Proofs.Tapping
import CircuitSim.Proofs.Transparency
import CircuitSim.Proofs.Acceptance
import CircuitSim.Proofs.Nesting
import CircuitSim.Proofs.History
import CircuitSim.Proofs.Symbols
import CircuitSim.Proofs.Workbench
import CircuitSim.Proofs.Binding
import CircuitSim.Proofs.Emitted
import CircuitSim.Proofs.Orderless
import CircuitSim.Proofs.Members
import CircuitSim.Proofs.Countdown
import CircuitSim.Proofs.Cone
import CircuitSim.Proofs.Loading
import CircuitSim.Proofs.Resolution
import CircuitSim.Proofs.Extent
import CircuitSim.Proofs.Staging
import CircuitSim.Proofs.Arithmetic
import CircuitSim.Proofs.Search
import CircuitSim.Proofs.Enumeration
import CircuitSim.Proofs.Lookup
import CircuitSim.Proofs.Recursion
import CircuitSim.Proofs.BitRuns
import CircuitSim.Proofs.Looping
import CircuitSim.Proofs.Listing
import CircuitSim.Proofs.Native
