import Slope.Lib.Word
import Slope.Lib.Run
import Slope.Lib.Mixer
import Slope.Hypermedia.Http
import Slope.Hypermedia.Endpoint
import Slope.Hypermedia.Session
import Slope.Service.Curve
import Slope.Service.Calibrator
import Slope.Service.Controller
import Slope.Service.Steps
import Slope.Service.History
import Slope.Service.Settlement
import Slope.Service.Atomicity
import Slope.Service.Certificate
import Slope.Ipc.Refinement
import Slope.Ipc.Interleaving
import Slope.Env.Stack
import Slope.Env.Snapshot
import Slope.Lib.Bitmap
import Slope.Memory.Slab
import Slope.Memory.Page
import Slope.Memory.Class
import Slope.Memory.Heap
import Slope.Memory.Safety
import Slope.Crest.Records
import Slope.Hermes.Manifold
import Slope.Hermes.Gates
import Slope.Hypermedia.Origin
import Slope.Hypermedia.Lease
import Slope.Crest.Handoff
import Slope.Crest.Page
import Slope.Executor.Ouroboros
import Slope.Executor.Account
import Slope.Executor.Passes
import Slope.Sync.Participants
import Slope.Sync.Serialization
import Slope.Memory.Contention
import Slope.Bridge.Ring
import Slope.Bridge.Receive
import Slope.Bridge.Transmit
import Slope.Bridge.Handover
import Slope.Crest.Seal
import Slope.Capability.Handle
import Slope.Crest.Tamper
import Slope.Hypermedia.Location
import Slope.Kairos.Decode
import Slope.Kairos.Partition
import Slope.Fabric.Harvest
import Slope.Service.Staircase
import Slope.Service.Forgery
import Slope.Lib.Window
import Slope.Service.Coverage
import Slope.Service.Undo
import Slope.Service.Exits
import Slope.Storage.Record
import Slope.Fabric.Layout
import Slope.Display.Lease
import Slope.Resonance.Client
import Slope.Lib.Period
import Slope.Service.Clock
import Slope.Thermogenesis.Follow
import Slope.Fs.Ownership
import Slope.Kairos.Iterate
import Slope.Kairos.Boot
import Slope.Memory.Reserve
import Slope.Nexus.Client
import Slope.Memory.Shared
import Slope.Executor.Liveness
import Slope.Service.Envelope
import Slope.Lib.Server
import Slope.Service.Deadline
import Slope.Service.Loop
import Slope.Bridge.Threads
import Slope.Fabric.Join
import Slope.Nexus.Words
import Slope.Memory.Capacity
import Slope.Executor.Served
import Slope.Net.Socket
import Slope.Net.Receivers
