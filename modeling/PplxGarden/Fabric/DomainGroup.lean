import PplxGarden.Fabric.Api

/-! A group of domains and the way it turns a transfer request into operations of
single domains. Submitting either succeeds, returns an error with the bookkeeping
done so far kept, or panics, which is `none`. -/

namespace PplxGarden.Fabric

inductive FabricLibError where
  | custom (message : String)
  | completionError (message : String)
  | domain (message : String)
  | verbs (message : String)
  | verbsCompletionError (message : String)
deriving Repr, DecidableEq

abbrev LocalDescriptor := Nat

structure SingleWriteOp where
  srcPtr : MemoryPtr
  srcDesc : LocalDescriptor
  srcOffset : Nat
  length : Nat
  immData : Option Nat
  dstPtr : Nat
  dstRkey : RemoteKey
  dstOffset : Nat
deriving Repr, DecidableEq

structure ImmWriteOp where
  immData : Nat
  dstPtr : Nat
  dstRkey : RemoteKey
deriving Repr, DecidableEq

structure PagedWriteOp where
  srcPageIndices : List Nat
  dstPageIndices : List Nat
  pageIndicesBeg : Nat
  pageIndicesEnd : Nat
  length : Nat
  srcPtr : MemoryPtr
  srcDesc : LocalDescriptor
  srcStride : Nat
  srcOffset : Nat
  dstPtr : Nat
  dstRkey : RemoteKey
  dstStride : Nat
  dstOffset : Nat
  immData : Option Nat
deriving Repr, DecidableEq

inductive WriteOp where
  | single (op : SingleWriteOp)
  | imm (op : ImmWriteOp)
  | paged (op : PagedWriteOp)
deriving Repr, DecidableEq

/-- The targets `dstBeg..dstEnd` are written; each takes one shard of its bytes. -/
structure ScatterGroupWriteOp where
  domainIdx : Nat
  srcPtr : MemoryPtr
  srcDesc : LocalDescriptor
  immData : Option Nat
  dsts : List (ScatterTarget MemoryRegionDescriptor)
  dstBeg : Nat
  dstEnd : Nat
  byteShards : Nat
  byteShardIdx : Nat
deriving Repr, DecidableEq

/-- What `submit_write` and `submit_group_write` hand to a domain. -/
inductive DomainOp where
  | write (dstAddr : DomainAddress) (op : WriteOp)
  | groupWrite (handle : Option PeerGroupHandle) (op : ScatterGroupWriteOp)
deriving Repr, DecidableEq

/-- The part of a domain that a submission reads: its registered local regions, and its peer
groups, connecting or connected, by the addresses they were made for. -/
structure Domain where
  localMrMap : MemoryPtr → Option LocalDescriptor
  peerGroups : PeerGroupHandle → Option (List DomainAddress)

def Domain.ofRegions (localMrMap : MemoryPtr → Option LocalDescriptor) : Domain := ⟨localMrMap, fun _ => none⟩

def Domain.getMemDesc (domain : Domain) (ptr : MemoryPtr) : Except FabricLibError LocalDescriptor :=
  match domain.localMrMap ptr with
  | some desc => .ok desc
  | none => .error (.custom "Local MR not found")

structure WriteOpContext where
  numUsedDomains : Nat
  cntDomainCompletion : Nat
  txCounter : Bool
deriving Repr, DecidableEq

structure Posted (N : Nat) where
  domain : Fin N
  transferId : TransferId
  op : DomainOp
deriving Repr, DecidableEq

/-- `posted` records every operation handed to a domain. A peer group lists, for each peer, one
address for each domain. -/
structure DomainGroup (N : Nat) where
  domains : Fin N → Domain
  writeOps : TransferId → Option WriteOpContext
  rrNext : Fin N
  peerGroups : PeerGroupHandle → Option (List (List DomainAddress))
  posted : List (Posted N)

namespace DomainGroup

def new {N : Nat} (positive : 0 < N) (domains : Fin N → Domain) : DomainGroup N where
  domains := domains
  writeOps _ := none
  rrNext := ⟨0, positive⟩
  peerGroups _ := none
  posted := []

variable {N : Nat} (group : DomainGroup N)

/-- `(self.rr_next + count) % self.domains.len()`. -/
def advance (count : Nat) : DomainGroup N :=
  { group with rrNext := ⟨(group.rrNext + count) % N, Nat.mod_lt _ (Nat.zero_lt_of_lt group.rrNext.isLt)⟩ }

def insert (transferId : TransferId) (numUsedDomains : Nat) (txCounter : Bool) : DomainGroup N :=
  { group with writeOps := fun id => if id = transferId then some ⟨numUsedDomains, 0, txCounter⟩ else group.writeOps id }

def post (domain : Fin N) (transferId : TransferId) (op : DomainOp) : DomainGroup N :=
  { group with posted := group.posted ++ [⟨domain, transferId, op⟩] }

end DomainGroup

/-- The outcome of a submission that did not panic, with the group after it. -/
abbrev Submitted (N : Nat) := Except FabricLibError Unit × DomainGroup N

def divCeil (n k : Nat) : Nat := (n + k - 1) / k

/-- Ranges of equal size, the last one shorter, none of them empty. -/
def divideEvenly (n k : Nat) : List (Nat × Nat) :=
  go k 0 n
where
  go : Nat → Nat → Nat → List (Nat × Nat)
    | 0, _, _ => []
    | rounds + 1, beg, remainder =>
      let chunk := min remainder (divCeil n k)
      if chunk = 0 then [] else (beg, beg + chunk) :: go rounds (beg + chunk) (remainder - chunk)

/-- The same loop in a debug build, with its result so far. It asserts at the end that nothing
remains, and a division by zero panics. -/
def divideEvenlyDebug (n k : Nat) : Option (List (Nat × Nat)) :=
  if k = 0 then none else go k 0 n []
where
  go : Nat → Nat → Nat → List (Nat × Nat) → Option (List (Nat × Nat))
    | 0, _, remainder, result => if remainder = 0 then some result else none
    | rounds + 1, beg, remainder, result =>
      let chunk := min remainder (divCeil n k)
      if chunk = 0 then if remainder = 0 then some result else none
      else go rounds (beg + chunk) (remainder - chunk) (result ++ [(beg, beg + chunk)])

def roundUp (value multiple : Nat) : Nat := divCeil value multiple * multiple

/-- Byte ranges of a single transfer; a range without bytes starts at zero. -/
def shardSingleTransfer (totalSize numShards : Nat) : List (Nat × Nat) :=
  go numShards 0
where
  go : Nat → Nat → List (Nat × Nat)
    | 0, _ => []
    | rounds + 1, offset =>
      let len := min (roundUp (totalSize / numShards) 8192) (totalSize - offset)
      if 0 < len then (offset, len) :: go rounds (offset + len) else (0, 0) :: go rounds offset

section
variable {N : Nat}

/-- Post the immediates of consecutive chunks to consecutive domains. A chunk size
of zero panics. -/
def postImms (transferId : TransferId) (immData firstDomain immPerDomain : Nat) (dstMrs : List MemoryRegionDescriptor)
    (group : DomainGroup N) : Option (DomainGroup N) :=
  if immPerDomain = 0 then none
  else dstMrs.zipIdx.foldlM (fun group (dstMr, k) => do
    let i := k / immPerDomain
    let (dstAddr, dstRkey) ← dstMr.addrRkeyList[i]?
    let domain := ⟨(firstDomain + i) % N, Nat.mod_lt _ (Nat.zero_lt_of_lt group.rrNext.isLt)⟩
    return group.post domain transferId (.write dstAddr (.imm { immData, dstPtr := dstMr.ptr, dstRkey }))) group

/-- `submit_imm_transfer_request`, for one immediate or a barrier. -/
def submitImmTransferRequest (group : DomainGroup N) (transferId : TransferId) (immData : Nat)
    (dstMrs : List MemoryRegionDescriptor) (domain : DomainGroupRouting) (txCounter : Bool) : Option (Submitted N) :=
  if dstMrs.any fun dstMr => dstMr.addrRkeyList.length ≠ N then
    some (.error (.custom "Number of target addresses must match the number of domains"), group)
  else
    let group := group.insert transferId dstMrs.length txCounter
    match domain with
    | .roundRobinSharded numShards =>
      if numShards.val ≠ 1 then
        some (.error (.custom
          "DomainGroupRouting::RoundRobinSharded should have num_shards = 1 for BarrierTransferRequest"), group)
      else do
        let firstDomain := group.rrNext
        let group := group.advance (min N dstMrs.length)
        return (.ok (), ← postImms transferId immData firstDomain (divCeil dstMrs.length N) dstMrs group)
    | .pinned domainIdx =>
      if N ≤ domainIdx then
        some (.error (.custom "DomainGroupRouting::Pinned.domain_idx is out of bounds"), group)
      else do
        return (.ok (), ← postImms transferId immData domainIdx dstMrs.length dstMrs group)

/-- The domain of the next shard of a single transfer, and the group after the choice. -/
def shardDomain (group : DomainGroup N) : DomainGroupRouting → Option (Fin N × DomainGroup N)
  | .roundRobinSharded _ => some (group.rrNext, group.advance 1)
  | .pinned domainIdx => if inside : domainIdx < N then some (⟨domainIdx, inside⟩, group) else none

/-- The operations of a single transfer, built before any of them is posted. -/
def buildSingleOps (request : SingleTransferRequest) : List (Nat × Nat) → DomainGroup N →
    Option (Except FabricLibError (List (DomainAddress × SingleWriteOp)) × DomainGroup N)
  | [], group => some (.ok [], group)
  | (offset, len) :: ranges, group => do
    let (i, group) ← shardDomain group request.domain
    let (dstAddr, dstRkey) ← request.dstMr.addrRkeyList[i.val]?
    match (group.domains i).getMemDesc request.srcMr with
    | .error error => return (.error error, group)
    | .ok srcDesc =>
      let (result, group) ← buildSingleOps request ranges group
      return (result.map ((dstAddr, {
        srcPtr := request.srcMr
        srcDesc
        srcOffset := request.srcOffset + offset
        length := len
        immData := request.immData
        dstPtr := request.dstMr.ptr
        dstRkey
        dstOffset := request.dstOffset + offset }) :: ·), group)

/-- `submit_single_transfer_request`: the built operations are zipped with the
domains in their own order. -/
def submitSingleTransferRequest (group : DomainGroup N) (transferId : TransferId) (request : SingleTransferRequest)
    (txCounter : Bool) : Option (Submitted N) :=
  if request.dstMr.addrRkeyList.length ≠ N then
    some (.error (.custom "Number of target addresses must match the number of domains"), group)
  else
    let numShards : Except FabricLibError Nat := match request.domain with
      | .roundRobinSharded numShards =>
        if N < numShards then
          .error (.custom "DomainGroupRouting::RoundRobinSharded.num_shards is greater than the number of domains")
        else .ok numShards
      | .pinned domainIdx =>
        if N ≤ domainIdx then .error (.custom "DomainGroupRouting::Pinned.domain_idx is out of bounds") else .ok 1
    match numShards with
    | .error error => some (.error error, group)
    | .ok numShards => do
      let (result, group) ← buildSingleOps request (shardSingleTransfer request.length numShards) group
      match result with
      | .error error => return (.error error, group)
      | .ok rdmaOps =>
        let group := group.insert transferId rdmaOps.length txCounter
        return (.ok (), ((List.finRange N).zip rdmaOps).foldl
          (fun group (domain, dstAddr, op) => group.post domain transferId (.write dstAddr (.single op))) group)

/-- The loop of a paged transfer: every page range is posted to the next domain
before the following one is built. -/
def postPages (transferId : TransferId) (request : PagedTransferRequest) : List (Nat × Nat) → DomainGroup N →
    Option (Submitted N)
  | [], group => some (.ok (), group)
  | (pageIndicesBeg, pageIndicesEnd) :: ranges, group => do
    let i := group.rrNext
    let group := group.advance 1
    let (dstAddr, dstRkey) ← request.dstMr.addrRkeyList[i.val]?
    match (group.domains i).getMemDesc request.srcMr with
    | .error error => return (.error error, group)
    | .ok srcDesc =>
      postPages transferId request ranges (group.post i transferId (.write dstAddr (.paged {
        srcPageIndices := request.srcPageIndices
        dstPageIndices := request.dstPageIndices
        pageIndicesBeg, pageIndicesEnd
        length := request.length
        srcPtr := request.srcMr
        srcDesc
        srcStride := request.srcStride
        srcOffset := request.srcOffset
        dstPtr := request.dstMr.ptr
        dstRkey
        dstStride := request.dstStride
        dstOffset := request.dstOffset
        immData := request.immData })))

def submitPagedTransferRequest (group : DomainGroup N) (transferId : TransferId) (request : PagedTransferRequest)
    (txCounter : Bool) : Option (Submitted N) :=
  if request.dstMr.addrRkeyList.length ≠ N then
    some (.error (.custom "Number of target addresses must match the number of domains"), group)
  else if request.srcPageIndices.length ≠ request.dstPageIndices.length then
    some (.error (.custom "Length of source and destination page indices must match"), group)
  else
    let pageRange := divideEvenly request.srcPageIndices.length N
    postPages transferId request pageRange (group.insert transferId pageRange.length txCounter)

/-- One part of a scatter: the domain that carries it, its targets and its shard. -/
structure ScatterPart where
  domainIdx : Nat
  dstBeg : Nat
  dstEnd : Nat
  byteShards : Nat
  byteShardIdx : Nat
deriving Repr, DecidableEq

def scatterParts (routing : GroupTransferRouting) (N count : Nat) : List ScatterPart :=
  match routing with
  | .allDomainsShardPeers =>
    ((List.range N).zip (divideEvenly count N)).map fun (domainIdx, dstBeg, dstEnd) => ⟨domainIdx, dstBeg, dstEnd, 1, 0⟩
  | .allDomainsShardBytes => (List.range N).map fun domainIdx => ⟨domainIdx, 0, count, N, domainIdx⟩
  | .single domainIdx => [⟨domainIdx, 0, count, 1, 0⟩]

/-- The writes a scatter amounts to: every part writes each of its targets once,
and every write carries the immediate of the request. -/
def scatterWrites {μ : Type} (routing : GroupTransferRouting) (N : Nat) (dsts : List (ScatterTarget μ)) : List (ScatterTarget μ) :=
  (scatterParts routing N dsts.length).flatMap fun part => (dsts.drop part.dstBeg).take (part.dstEnd - part.dstBeg)

/-- The operation of a part; a domain index past the end panics. -/
def scatterOp (group : DomainGroup N) (request : ScatterTransferRequest) (part : ScatterPart) :
    Option (Except FabricLibError (Fin N × ScatterGroupWriteOp)) :=
  if inside : part.domainIdx < N then
    some ((group.domains ⟨part.domainIdx, inside⟩).getMemDesc request.srcMr |>.map fun srcDesc =>
      (⟨part.domainIdx, inside⟩, {
        domainIdx := part.domainIdx
        srcPtr := request.srcMr
        srcDesc
        immData := request.immData
        dsts := request.dsts
        dstBeg := part.dstBeg
        dstEnd := part.dstEnd
        byteShards := part.byteShards
        byteShardIdx := part.byteShardIdx }))
  else none

def scatterOps (group : DomainGroup N) (request : ScatterTransferRequest) :
    List ScatterPart → Option (Except FabricLibError (List (Fin N × ScatterGroupWriteOp)))
  | [] => some (.ok [])
  | part :: parts => do
    match ← scatterOp group request part with
    | .error error => return .error error
    | .ok op => return (← scatterOps group request parts).map (op :: ·)

def submitScatterTransferRequest (group : DomainGroup N) (transferId : TransferId) (request : ScatterTransferRequest)
    (txCounter : Bool) : Option (Submitted N) :=
  if request.dsts = [] then some (.error (.custom "Empty scatter targets"), group)
  else
    let checked : Except FabricLibError Unit := match request.dstHandle with
      | none => .ok ()
      | some handle => match group.peerGroups handle with
        | none => .error (.custom "PeerGroupHandle not found")
        | some addrs =>
          if request.dsts.length ≠ addrs.length then
            .error (.custom "Number of scatter targets must match the number of peer group addresses")
          else .ok ()
    match checked with
    | .error error => some (.error error, group)
    | .ok () => do
      match ← scatterOps group request (scatterParts request.domain N request.dsts.length) with
      | .error error => return (.error error, group)
      | .ok rdmaOps =>
        let group := group.insert transferId rdmaOps.length txCounter
        return (.ok (), rdmaOps.foldl
          (fun group (domain, op) => group.post domain transferId (.groupWrite request.dstHandle op)) group)

def submitTransferRequest (group : DomainGroup N) (transferId : TransferId) (request : TransferRequest)
    (txCounter : Bool) : Option (Submitted N) :=
  match request with
  | .imm request => submitImmTransferRequest group transferId request.immData [request.dstMr] request.domain txCounter
  | .barrier request => submitImmTransferRequest group transferId request.immData request.dstMrs request.domain txCounter
  | .single request => submitSingleTransferRequest group transferId request txCounter
  | .paged request => submitPagedTransferRequest group transferId request txCounter
  | .scatter request => submitScatterTransferRequest group transferId request txCounter

end

end PplxGarden.Fabric
