import Coprocessor.BufferId
import Coprocessor.Fault
import Coprocessor.Options
import Coprocessor.Code
import Coprocessor.Adjust
import Coprocessor.Condition
import Coprocessor.Memory.Heap
import Coprocessor.Memory.Segment
import Coprocessor.Memory.Pool
import Coprocessor.Store.Table
import Coprocessor.Store.Buffer
import Coprocessor.Store.Basic
import Coprocessor.Store.Reader
import Coprocessor.Link.Source
import Coprocessor.Link.Sink
import Coprocessor.Link.Transport
import Coprocessor.Screen
import Coprocessor.Session.Frame
import Coprocessor.Session.Basic
import Coprocessor.Session.Buffered
import Coprocessor.Session.Adjust
import Coprocessor.Session.Conditional
import Coprocessor.Session.Decode
import Coprocessor.Session.Run
import Coprocessor.Proofs.Exec
import Coprocessor.Proofs.Store.Steps
import Coprocessor.Proofs.Store.Invariant
import Coprocessor.Proofs.Store.Capacity
import Coprocessor.Proofs.Session.Evolves
import Coprocessor.Proofs.Decode.Grammar
import Coprocessor.Proofs.Decode.Input
import Coprocessor.Proofs.Decode.Framing
import Coprocessor.Proofs.Session.Nesting
import Coprocessor.Proofs.Session.Host
import Coprocessor.Proofs.Session.Snapshot
import Coprocessor.Proofs.Store.Addressing
import Coprocessor.Proofs.Store.Streaming
import Coprocessor.Proofs.Store.Commute
import Coprocessor.Proofs.Session.Atomic
import Coprocessor.Proofs.Adjust.Reference
import Coprocessor.Proofs.Adjust.Simulation
import Coprocessor.Proofs.Adjust.Command
import Coprocessor.Proofs.Adjust.Carry
import Coprocessor.Proofs.Session.Guarded
import Coprocessor.Proofs.Session.Plain
import Coprocessor.Proofs.Session.Output
import Coprocessor.Proofs.Session.Resident
import Coprocessor.Proofs.Link.Channel
import Coprocessor.Proofs.Session.Termination
import Coprocessor.Proofs.Memory.Clones
