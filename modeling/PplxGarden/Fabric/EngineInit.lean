import PplxGarden.Fabric.DomainGroup
import PplxGarden.Library.SortedMap

/-! How an engine is made from a list of workers, one for each device. Opening a domain and
starting a thread may fail; `none` is a panic. -/

namespace PplxGarden.Fabric
open Library

structure OpenedDomain where
  addr : DomainAddress
  linkSpeed : Nat
deriving Repr, DecidableEq

inductive DomainInfo where
  | efa (opened : Except FabricLibError OpenedDomain)
  | verbs (opened : Except FabricLibError OpenedDomain)

namespace DomainInfo

def isEfa : DomainInfo → Bool
  | .efa _ => true
  | .verbs _ => false

def opened : DomainInfo → Except FabricLibError OpenedDomain
  | .efa opened => opened
  | .verbs opened => opened

end DomainInfo

/-- What starting its threads gives, pinning the first of them, and setting up the second,
which watches UVM memory. -/
structure Worker where
  domainList : List DomainInfo
  started : Except FabricLibError Unit
  pinned : Except FabricLibError Unit
  watching : Except FabricLibError Unit

structure WorkerHandle where
  addressList : List DomainAddress
  aggregatedLinkSpeed : Nat
deriving Repr, DecidableEq

namespace Worker

variable (worker : Worker)

def checkDomains : Except FabricLibError Unit :=
  let totalDomains := worker.domainList.length
  if worker.domainList.countP DomainInfo.isEfa = totalDomains then
    if totalDomains = 1 ∨ totalDomains = 2 ∨ totalDomains = 4 then .ok () else .error (.custom "Only support 1, 2, or 4 domains per GPU for EFA")
  else if worker.domainList.countP (!·.isEfa) = totalDomains then
    if totalDomains = 1 ∨ totalDomains = 2 then .ok () else .error (.custom "Only support 1 or 2 domains per GPU for Verbs")
  else .error (.custom "Cannot mix EFA and Verbs domains")

def spawn : Except FabricLibError Worker := do
  worker.checkDomains
  worker.started
  return worker

/-- The domains are opened in the order of the list, up to the first that fails. -/
def waitInit : Except FabricLibError WorkerHandle := do
  worker.pinned
  let domains ← worker.domainList.mapM DomainInfo.opened
  worker.watching
  return { addressList := domains.map OpenedDomain.addr, aggregatedLinkSpeed := (domains.map OpenedDomain.linkSpeed).sum % 2 ^ 64 }

end Worker

structure StartedEngine where
  workers : SortedMap Nat WorkerHandle
  mainAddress : DomainAddress
  numGroups : Nat
  numDomains : Nat
  aggregatedLinkSpeed : Nat
  netsPerGpu : Nat

namespace StartedEngine

/-- All workers are spawned before the first is waited for. -/
def initializedWorkers (workers : List (Nat × Worker)) : Except FabricLibError (List (Nat × WorkerHandle)) := do
  let spawnedWorkers ← workers.mapM fun (device, worker) => do return (device, ← worker.spawn)
  spawnedWorkers.mapM fun (device, worker) => do return (device, ← worker.waitInit)

/-- The main address is that of the first worker in the list, and the map is ordered by the
device. -/
def ofWorkers (initialized : List (Nat × WorkerHandle)) : Option StartedEngine := do
  let (_, mainWorker) ← initialized.head?
  let mainAddress ← mainWorker.addressList.head?
  return {
    workers := .ofList initialized
    mainAddress
    numGroups := initialized.length
    numDomains := (initialized.map fun worker => worker.2.addressList.length).sum
    aggregatedLinkSpeed := (initialized.map fun worker => worker.2.aggregatedLinkSpeed).sum % 2 ^ 64
    netsPerGpu := mainWorker.addressList.length % 2 ^ 8 }

def new (workers : List (Nat × Worker)) : Option (Except FabricLibError StartedEngine) :=
  match initializedWorkers workers with
  | .error error => some (.error error)
  | .ok initialized => (ofWorkers initialized).map .ok

variable (engine : StartedEngine)

def getMainWorker : Option (Nat × WorkerHandle) := engine.workers.first?

def submitRecv : Option (Nat × WorkerHandle) := engine.getMainWorker

end StartedEngine

end PplxGarden.Fabric
