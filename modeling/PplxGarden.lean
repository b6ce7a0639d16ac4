import PplxGarden.Proofs.Signals
import PplxGarden.Proofs.NodeSync
import PplxGarden.Proofs.Sends
import PplxGarden.Proofs.Domains
import PplxGarden.Proofs.Leaks
import PplxGarden.Proofs.Refusals
import PplxGarden.Proofs.Handshakes
import PplxGarden.Proofs.ImmCallbacks
import PplxGarden.Proofs.EngineThreads
import PplxGarden.Proofs.Shards
import PplxGarden.Proofs.Panics
import PplxGarden.Proofs.CounterSteps
import PplxGarden.Proofs.VerbsPosting
import PplxGarden.Proofs.Registration
import PplxGarden.Proofs.EngineMemory
import PplxGarden.Proofs.Sizing
import PplxGarden.Proofs.VerbsBooks
import PplxGarden.Proofs.Totality
import PplxGarden.Proofs.SendPaths
import PplxGarden.Proofs.TokenRows
import PplxGarden.Proofs.Stages
import PplxGarden.Proofs.MainAddress
import PplxGarden.Proofs.CallbackRefs
import PplxGarden.Proofs.TransferEngine
import PplxGarden.Proofs.PeerGroups
import PplxGarden.Proofs.AddressText
import PplxGarden.Proofs.ObjectPool
import PplxGarden.Proofs.EvenRanges
import PplxGarden.Proofs.Gdr
import PplxGarden.Proofs.CuMem
import PplxGarden.Proofs.Rollback
import PplxGarden.Proofs.HostBuffer
import PplxGarden.Proofs.UvmWatcher
import PplxGarden.Proofs.Topology
