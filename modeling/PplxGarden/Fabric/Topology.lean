import Mathlib.Data.List.Lex
import Mathlib.Order.Nat
import PplxGarden.Fabric.DomainGroup
import PplxGarden.Library.Loop
import PplxGarden.Library.Numerals

/-! How a machine is cut into groups of a GPU, its network cards and its CPUs. The files of the
kernel are texts, and an index outside a vector is a panic. -/

namespace PplxGarden.Fabric
open Library

/-- `start..=last`, if both were read. -/
def expandRange : Option Nat → Option Nat → List Nat
  | some start, some last => List.range' start (last + 1 - start)
  | _, _ => []

/-- A number or a range. A part that is neither is skipped. -/
def parsePart (part : Text) : Option (List Nat) :=
  match part.find '-' with
  | some dashPos =>
    (part.cut dashPos).bind fun before => (part.cut (dashPos + 1)).map fun after =>
      expandRange (fromStrRadix 10 (2 ^ 16) before.1.trim) (fromStrRadix 10 (2 ^ 16) after.2.trim)
  | none => some (fromStrRadix 10 (2 ^ 16) part.trim).toList

def parseCommaDashIntList (s : Text) : Option (List Nat) := ((s.splitOn ',').mapM parsePart).map List.flatten

structure PciAddress where
  domain : Nat
  bus : Nat
  device : Nat
  function : Nat
deriving Repr, DecidableEq

def PciAddress.fields (address : PciAddress) : List Nat := [address.domain, address.bus, address.device, address.function]

structure PciDeviceId where
  vendor : Nat
  device : Nat
deriving Repr, DecidableEq

structure PciProp where
  pciAddr : PciAddress
  pciDeviceId : PciDeviceId
  numaNode : Nat
deriving Repr, DecidableEq

/-- An entry of `/sys/devices/system/node`, with its file `cpulist` if that can be read. -/
structure NodeEntry where
  isDir : Bool
  filename : Text
  cpulist : Option Text
deriving Repr, DecidableEq

/-- The CPUs of the nodes that have some, by node, and the largest node number. -/
abbrev NumaCpusMap := List (Nat × List Nat) × Nat

def readNodes : NumaCpusMap → List NodeEntry → Option (Except FabricLibError NumaCpusMap)
  | state, [] => some (.ok state)
  | state, entry :: rest =>
    if ¬ entry.isDir ∨ ¬ ['n', 'o', 'd', 'e'].isPrefixOf entry.filename then readNodes state rest
    else (entry.filename.cut 4).bind fun name =>
      match fromStrRadix 10 (2 ^ 64) name.2 with
      | none => some (.error (.custom "Failed to parse NUMA node index"))
      | some nodeId =>
        match entry.cpulist with
        | none => readNodes (state.1, max state.2 nodeId) rest
        | some cpulist => (parseCommaDashIntList cpulist).bind fun cpus =>
          readNodes (if cpus = [] then state.1 else (nodeId, cpus) :: state.1.filter (·.1 ≠ nodeId), max state.2 nodeId) rest

/-- The CPU of a line of `/proc/cpuinfo`. -/
def processorLine (line : Text) : Option (List Nat) :=
  if "processor".toList.isPrefixOf line then
    match line.find ':' with
    | some colonPos => (line.cut (colonPos + 1)).map fun halves => (fromStrRadix 10 (2 ^ 16) halves.2.trim).toList
    | none => some []
  else some []

def getFallbackCpus (cpuinfo : Option Text) : Option (Except FabricLibError (List (List Nat))) :=
  match cpuinfo with
  | none => some (.error (.custom "Failed to read /proc/cpuinfo"))
  | some cpuinfo => ((cpuinfo.splitOn '\n').mapM processorLine).map fun lines =>
    let cpus := (lines.flatten.mergeSort).dedup
    if cpus = [] then .error (.custom "Failed to detect any CPUs") else .ok [cpus]

def getNumaPhysicalCpus (entries : List NodeEntry) (cpuinfo : Option Text) : Option (Except FabricLibError (List (List Nat))) :=
  (readNodes ([], 0) entries).bind fun nodes =>
    match nodes with
    | .error error => some (.error error)
    | .ok (numaCpusMap, maxNode) =>
      let numaCpus := (List.range (maxNode + 1)).filterMap fun nodeId => numaCpusMap.lookup nodeId
      if numaCpus = [] then getFallbackCpus cpuinfo else some (.ok numaCpus)

structure PciTopoGroup where
  gpu : PciProp
  nics : List PciProp
  cpus : List Nat
deriving Repr, DecidableEq

structure PciSwitchGroup where
  gpus : List PciProp
  nics : List PciProp
deriving Repr, DecidableEq

/-- The order in which a hash map lists the nodes of the GPUs. -/
structure NodeOrder (gpus : List PciProp) where
  nodes : List Nat
  distinct : nodes.Nodup
  complete : ∀ node, node ∈ nodes ↔ ∃ gpu ∈ gpus, gpu.numaNode = node

def PciSwitchGroup.key (group : PciSwitchGroup) : List Nat := (group.gpus.head?.map fun gpu => gpu.pciAddr.fields).getD []

/-- The groups are sorted by the address of their first GPU. -/
def switchGroups (gpus nics : List PciProp) (nodes : List Nat) : List PciSwitchGroup :=
  (nodes.map fun node => ⟨gpus.filter (·.numaNode = node), nics.filter (·.numaNode = node)⟩).mergeSort fun first second =>
    first.key ≤ second.key

/-- `&vector[first..last]`. -/
def vecSlice {α : Type} (vector : List α) (first last : Nat) : Option (List α) :=
  if first ≤ last ∧ last ≤ vector.length then some ((vector.drop first).take (last - first)) else none

/-- `vector[index] += 1`. -/
def increment (vector : List Nat) (index : Nat) : Option (List Nat) := vector[index]?.bind fun count => vecSet vector index (count + 1)

def countGpus (gpus : List PciProp) (size : Nat) : Option (List Nat) :=
  gpus.foldlM (fun counts gpu => increment counts gpu.numaNode) (List.replicate size 0)

section
variable (numaCpus : List (List Nat)) (numaGpuCount : List Nat)

/-- The group of one GPU, with the number of GPUs that were served on each node. -/
def assignGpu (switch : PciSwitchGroup) (state : List Nat × List PciTopoGroup) (numbered : PciProp × Nat) : Option (List Nat × List PciTopoGroup) := do
  let nicsPerGpu := switch.nics.length / switch.gpus.length
  let nics ← vecSlice switch.nics (numbered.2 * nicsPerGpu) ((numbered.2 + 1) * nicsPerGpu)
  let numaGpuIndex ← state.1[numbered.1.numaNode]?
  let numaGpuIndices ← increment state.1 numbered.1.numaNode
  let nodeCpus ← numaCpus[numbered.1.numaNode]?
  let gpuCount ← numaGpuCount[numbered.1.numaNode]?
  let cpusPerGpu ← if gpuCount = 0 then none else some (nodeCpus.length / gpuCount)
  let cpus ← vecSlice nodeCpus (numaGpuIndex * cpusPerGpu) (numaGpuIndex * cpusPerGpu + cpusPerGpu)
  return (numaGpuIndices, state.2 ++ [⟨numbered.1, nics, cpus⟩])

def assignSwitch (state : List Nat × List PciTopoGroup) (switch : PciSwitchGroup) : Option (List Nat × List PciTopoGroup) :=
  switch.gpus.zipIdx.foldlM (assignGpu numaCpus numaGpuCount switch) state

end

def devicesOf (allPcis : List PciProp) (pciDeviceId : PciDeviceId) : List PciProp := allPcis.filter (·.pciDeviceId = pciDeviceId)

/-- `none` is a panic. -/
def detectSystemTopo (allPcis : List PciProp) (gpuPciDeviceId nicPciDeviceId : PciDeviceId) (order : NodeOrder (devicesOf allPcis gpuPciDeviceId))
    (entries : List NodeEntry) (cpuinfo : Option Text) : Option (Except FabricLibError (List PciTopoGroup)) :=
  let allGpus := devicesOf allPcis gpuPciDeviceId
  let allNics := devicesOf allPcis nicPciDeviceId
  (getNumaPhysicalCpus entries cpuinfo).bind fun found =>
    match found with
    | .error error => some (.error error)
    | .ok numaCpus =>
      (countGpus allGpus numaCpus.length).bind fun numaGpuCount =>
        ((switchGroups allGpus allNics order.nodes).foldlM (assignSwitch numaCpus numaGpuCount) (List.replicate numaCpus.length 0, [])).map fun final =>
          .ok final.2

end PplxGarden.Fabric
