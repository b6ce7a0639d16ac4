import PplxGarden.Fabric.DomainGroup
import PplxGarden.Library.Cursor

/-! The iterators that cut an operation of a domain into requests for the device, as
each provider has them. Failed assertions, indices past the end and divisions by zero
are `none`. Addresses do not overflow; casts to 32 bits do. -/

namespace PplxGarden.Fabric
open Library

abbrev FiAddr := Nat
abbrev Qp := Nat

/-- An operation and where it goes, as it reaches `do_submit_write`. -/
inductive RdmaOp (δ : Type) where
  | write (op : WriteOp) (dest : δ)
  | scatter (op : ScatterGroupWriteOp) (dests : List δ)
deriving Repr, DecidableEq

def RdmaOp.map {δ ε : Type} (f : δ → ε) : RdmaOp δ → RdmaOp ε
  | .write op dest => .write op (f dest)
  | .scatter op dests => .scatter op (dests.map f)

/-- `peer_addr_iter`, run to the end: the addresses of all targets in the domain. -/
def ScatterGroupWriteOp.peerAddrs (op : ScatterGroupWriteOp) : Option (List DomainAddress) :=
  op.dsts.mapM fun dst => (dst.dstMr.addrRkeyList[op.domainIdx]?).map Prod.fst

/-- `as u32`. -/
def asU32 (n : Nat) : Nat := n % 2 ^ 32

/-- Length and offset of the shard of a target, computed in 32 bits. -/
def byteShard (byteShards byteShardIdx length : Nat) : Option (Nat × Nat) :=
  if asU32 byteShards = 0 then none
  else
    let len := asU32 length / asU32 byteShards
    some (len, asU32 (len * asU32 byteShardIdx))

namespace Efa

structure Iovec where
  base : Nat
  len : Nat
deriving Repr, DecidableEq

structure FiRmaIov where
  addr : Nat
  len : Nat
  key : RemoteKey
deriving Repr, DecidableEq

/-- A message without `iov` has an `iov_count` of zero. -/
structure FiMsgRma where
  iov : Option Iovec
  desc : Option LocalDescriptor
  addr : FiAddr
  rmaIov : FiRmaIov
  data : Nat
deriving Repr, DecidableEq

/-- The immediate, and whether `FI_REMOTE_CQ_DATA` is set. -/
def flagsImm : Option Nat → Nat × Bool
  | some immData => (immData, true)
  | none => (0, false)

structure SingleWriteOpIter where
  msg : FiMsgRma
  flags : Bool
  done : Bool
deriving Repr, DecidableEq

namespace SingleWriteOpIter

def newSingle (op : SingleWriteOp) (addr : FiAddr) : SingleWriteOpIter where
  msg := {
    iov := some ⟨op.srcPtr + op.srcOffset, op.length⟩
    desc := some op.srcDesc
    addr
    rmaIov := ⟨op.dstOffset, op.length, op.dstRkey⟩
    data := (flagsImm op.immData).1 }
  flags := (flagsImm op.immData).2
  done := false

def newImm (op : ImmWriteOp) (addr : FiAddr) : SingleWriteOpIter where
  msg := { iov := none, desc := none, addr, rmaIov := ⟨0, 0, op.dstRkey⟩, data := op.immData }
  flags := true
  done := false

def peek (iter : SingleWriteOpIter) : Option (FiMsgRma × Bool) := if iter.done then none else some (iter.msg, iter.flags)

def markDone (iter : SingleWriteOpIter) : Option SingleWriteOpIter := if iter.done then none else some { iter with done := true }

end SingleWriteOpIter

structure PagedWriteOpIter where
  srcPageIndices : List Nat
  dstPageIndices : List Nat
  pageIndicesBeg : Nat
  pageIndicesEnd : Nat
  srcPtr : MemoryPtr
  srcStride : Nat
  dstPtr : Nat
  dstStride : Nat
  msg : FiMsgRma
  flags : Bool
  iPage : Nat
deriving Repr, DecidableEq

namespace PagedWriteOpIter

/-- Neither `dst_ptr` nor the offset added to it is read here. -/
def fillMsg (iter : PagedWriteOpIter) : Option PagedWriteOpIter := do
  let srcPageIdx ← iter.srcPageIndices[iter.iPage]?
  let dstPageIdx ← iter.dstPageIndices[iter.iPage]?
  return { iter with msg := { iter.msg with
    iov := iter.msg.iov.map ({ · with base := iter.srcPtr + iter.srcStride * srcPageIdx })
    rmaIov := { iter.msg.rmaIov with addr := iter.dstStride * dstPageIdx } } }

def template (op : PagedWriteOp) (addr : FiAddr) : PagedWriteOpIter where
  srcPageIndices := op.srcPageIndices
  dstPageIndices := op.dstPageIndices
  pageIndicesBeg := op.pageIndicesBeg
  pageIndicesEnd := op.pageIndicesEnd
  srcPtr := op.srcPtr + op.srcOffset
  srcStride := op.srcStride
  dstPtr := op.dstPtr + op.dstOffset
  dstStride := op.dstStride
  msg := {
    iov := some ⟨0, op.length⟩
    desc := some op.srcDesc
    addr
    rmaIov := ⟨0, op.length, op.dstRkey⟩
    data := (flagsImm op.immData).1 }
  flags := (flagsImm op.immData).2
  iPage := op.pageIndicesBeg

def new (op : PagedWriteOp) (addr : FiAddr) : Option PagedWriteOpIter :=
  if op.pageIndicesBeg < op.pageIndicesEnd ∧ op.srcPageIndices.length = op.dstPageIndices.length ∧
      op.pageIndicesEnd ≤ op.srcPageIndices.length then
    (template op addr).fillMsg
  else none

def totalOps (iter : PagedWriteOpIter) : Nat := iter.pageIndicesEnd - iter.pageIndicesBeg

def peek (iter : PagedWriteOpIter) : Option (FiMsgRma × Bool) :=
  if iter.iPage = iter.pageIndicesEnd then none else some (iter.msg, iter.flags)

def advance (iter : PagedWriteOpIter) : Option PagedWriteOpIter :=
  if iter.iPage < iter.pageIndicesEnd then
    let iter := { iter with iPage := iter.iPage + 1 }
    if iter.iPage < iter.pageIndicesEnd then iter.fillMsg else some iter
  else none

end PagedWriteOpIter

structure ScatterWriteOpIter where
  addrs : List FiAddr
  msg : FiMsgRma
  flags : Bool
  domainIdx : Nat
  srcPtr : MemoryPtr
  dsts : List (ScatterTarget MemoryRegionDescriptor)
  dstBeg : Nat
  dstEnd : Nat
  byteShards : Nat
  byteShardIdx : Nat
  iDst : Nat
deriving Repr, DecidableEq

namespace ScatterWriteOpIter

def fillMsg (iter : ScatterWriteOpIter) : Option ScatterWriteOpIter := do
  let dst ← iter.dsts[iter.iDst]?
  let (len, offset) ← byteShard iter.byteShards iter.byteShardIdx dst.length
  let addr ← iter.addrs[iter.iDst]?
  let (_, key) ← dst.dstMr.addrRkeyList[iter.domainIdx]?
  return { iter with msg := { iter.msg with
    addr
    iov := some ⟨iter.srcPtr + (dst.srcOffset + offset), len⟩
    rmaIov := ⟨dst.dstOffset + offset, len, key⟩ } }

def template (op : ScatterGroupWriteOp) (addrs : List FiAddr) : ScatterWriteOpIter where
  addrs := addrs
  msg := {
    iov := none
    desc := some op.srcDesc
    addr := 0
    rmaIov := ⟨0, 0, 0⟩
    data := (flagsImm op.immData).1 }
  flags := (flagsImm op.immData).2
  domainIdx := op.domainIdx
  srcPtr := op.srcPtr
  dsts := op.dsts
  dstBeg := op.dstBeg
  dstEnd := op.dstEnd
  byteShards := op.byteShards
  byteShardIdx := op.byteShardIdx
  iDst := op.dstBeg

def new (op : ScatterGroupWriteOp) (addrs : List FiAddr) : Option ScatterWriteOpIter :=
  if op.dstBeg < op.dstEnd ∧ op.dstEnd ≤ op.dsts.length ∧ addrs.length = op.dsts.length then (template op addrs).fillMsg else none

def totalOps (iter : ScatterWriteOpIter) : Nat := iter.dstEnd - iter.dstBeg

def peek (iter : ScatterWriteOpIter) : Option (FiMsgRma × Bool) :=
  if iter.iDst = iter.dstEnd then none else some (iter.msg, iter.flags)

def advance (iter : ScatterWriteOpIter) : Option ScatterWriteOpIter :=
  if iter.iDst < iter.dstEnd then
    let iter := { iter with iDst := iter.iDst + 1 }
    if iter.iDst < iter.dstEnd then iter.fillMsg else some iter
  else none

end ScatterWriteOpIter

inductive WriteOpIter where
  | single (iter : SingleWriteOpIter)
  | paged (iter : PagedWriteOpIter)
  | scatter (iter : ScatterWriteOpIter)
deriving Repr, DecidableEq

namespace WriteOpIter

def new : RdmaOp FiAddr → Option WriteOpIter
  | .write (.single op) addr => some (.single (.newSingle op addr))
  | .write (.imm op) addr => some (.single (.newImm op addr))
  | .write (.paged op) addr => (PagedWriteOpIter.new op addr).map .paged
  | .scatter op addrs => (ScatterWriteOpIter.new op addrs).map .scatter

def totalOps : WriteOpIter → Nat
  | .single _ => 1
  | .paged iter => iter.totalOps
  | .scatter iter => iter.totalOps

def peek : WriteOpIter → Option (FiMsgRma × Bool)
  | .single iter => iter.peek
  | .paged iter => iter.peek
  | .scatter iter => iter.peek

def advance : WriteOpIter → Option WriteOpIter
  | .single iter => iter.markDone.map .single
  | .paged iter => iter.advance.map .paged
  | .scatter iter => iter.advance.map .scatter

end WriteOpIter

def cursor : Cursor WriteOpIter (FiMsgRma × Bool) where
  peek iter := iter.peek.toList
  advance iter count := if count = 1 then iter.advance else none

end Efa

namespace Verbs

abbrev wrChainLen : Nat := 4

instance : NeZero wrChainLen := ⟨by decide⟩

structure Sge where
  addr : Nat
  length : Nat
  lkey : Nat
deriving Repr, DecidableEq

inductive Opcode where
  | rdmaWrite
  | rdmaWriteWithImm
deriving Repr, DecidableEq

/-- A work request without `sge` has a `num_sge` of zero. -/
structure WorkRequest where
  sge : Option Sge
  opcode : Opcode
  immData : Nat
  remoteAddr : Nat
  rkey : Nat
deriving Repr, DecidableEq

/-- A request in a chain buffer; `next` is the place of the following one. -/
structure SendWr extends WorkRequest where
  next : Option (Fin wrChainLen)
deriving Repr, DecidableEq

def opcodeImm : Option Nat → Opcode × Nat
  | some immData => (.rdmaWriteWithImm, immData)
  | none => (.rdmaWrite, 0)

/-- What `peek` hands out: the queue pair, the requests the device finds by following
`next` (`none` if it finds no end), and the number of requests there should be. -/
structure Batch where
  qp : Qp
  chain : Option (List WorkRequest)
  wrLen : Nat
deriving Repr, DecidableEq

def Batch.empty : Batch := ⟨0, some [], 0⟩

structure SingleWriteOpIter where
  rmaQp : Qp
  wr : WorkRequest
  done : Bool
deriving Repr, DecidableEq

namespace SingleWriteOpIter

def newSingle (op : SingleWriteOp) (rmaQp : Qp) : SingleWriteOpIter where
  rmaQp := rmaQp
  wr := {
    sge := some ⟨op.srcPtr + op.srcOffset, asU32 op.length, asU32 op.srcDesc⟩
    opcode := (opcodeImm op.immData).1
    immData := (opcodeImm op.immData).2
    remoteAddr := op.dstPtr + op.dstOffset
    rkey := asU32 op.dstRkey }
  done := false

def newImm (op : ImmWriteOp) (rmaQp : Qp) : SingleWriteOpIter where
  rmaQp := rmaQp
  wr := {
    sge := none
    opcode := .rdmaWriteWithImm
    immData := op.immData
    remoteAddr := op.dstPtr
    rkey := asU32 op.dstRkey }
  done := false

def peek (iter : SingleWriteOpIter) : Batch := if iter.done then .empty else ⟨iter.rmaQp, some [iter.wr], 1⟩

def markDone (iter : SingleWriteOpIter) : SingleWriteOpIter := { iter with done := true }

end SingleWriteOpIter

/-- A place that was never initialised is `none`. -/
abbrev WrChainBuffer := Fin wrChainLen → Option SendWr

def linked (buf : WrChainBuffer) : Nat → Option (Fin wrChainLen) → Option (List WorkRequest)
  | _, none => some []
  | 0, some _ => none
  | fuel + 1, some i => do
    let wr ← buf i
    return wr.toWorkRequest :: (← linked buf fuel wr.next)

structure PagedWriteOpIter where
  rmaQp : Qp
  wrChainBuffer : WrChainBuffer
  iWrHead : Fin wrChainLen
  iWrTail : Fin wrChainLen
  wrLen : Nat
  srcPageIndices : List Nat
  dstPageIndices : List Nat
  pageIndicesBeg : Nat
  pageIndicesEnd : Nat
  srcPtr : MemoryPtr
  srcStride : Nat
  dstPtr : Nat
  dstStride : Nat
  iPage : Nat

namespace PagedWriteOpIter

/-- `prev_wr.next = wr`: the previous place may be uninitialised. -/
def link (buf : WrChainBuffer) (prev tail : Fin wrChainLen) : WrChainBuffer :=
  Function.update buf prev ((buf prev).map ({ · with next := some tail }))

def fillWr (iter : PagedWriteOpIter) : Option PagedWriteOpIter := do
  let buf := link iter.wrChainBuffer (iter.iWrTail + 3) iter.iWrTail
  let wr ← buf iter.iWrTail
  let srcPageIdx ← iter.srcPageIndices[iter.iPage]?
  let dstPageIdx ← iter.dstPageIndices[iter.iPage]?
  return { iter with
    wrChainBuffer := Function.update buf iter.iWrTail (some { wr with
      next := none
      sge := wr.sge.map ({ · with addr := iter.srcPtr + iter.srcStride * srcPageIdx })
      remoteAddr := iter.dstPtr + iter.dstStride * dstPageIdx })
    iWrTail := iter.iWrTail + 1
    wrLen := iter.wrLen + 1
    iPage := iter.iPage + 1 }

/-- The loop around `fill_wr`; no more than the whole chain is filled. -/
def fillChain : Nat → PagedWriteOpIter → Option PagedWriteOpIter
  | 0, iter => some iter
  | rounds + 1, iter =>
    if iter.iPage < iter.pageIndicesEnd ∧ iter.wrLen < wrChainLen then iter.fillWr.bind (fillChain rounds) else some iter

def template (op : PagedWriteOp) (rmaQp : Qp) : PagedWriteOpIter where
  rmaQp := rmaQp
  wrChainBuffer i :=
    if i < min (op.pageIndicesEnd - op.pageIndicesBeg) wrChainLen then
      some {
        next := none
        sge := some ⟨0, asU32 op.length, asU32 op.srcDesc⟩
        opcode := (opcodeImm op.immData).1
        immData := (opcodeImm op.immData).2
        remoteAddr := 0
        rkey := asU32 op.dstRkey }
    else none
  iWrHead := 0
  iWrTail := 0
  wrLen := 0
  srcPageIndices := op.srcPageIndices
  dstPageIndices := op.dstPageIndices
  pageIndicesBeg := op.pageIndicesBeg
  pageIndicesEnd := op.pageIndicesEnd
  srcPtr := op.srcPtr + op.srcOffset
  srcStride := op.srcStride
  dstPtr := op.dstPtr + op.dstOffset
  dstStride := op.dstStride
  iPage := op.pageIndicesBeg

def new (op : PagedWriteOp) (rmaQp : Qp) : Option PagedWriteOpIter :=
  if op.pageIndicesBeg < op.pageIndicesEnd ∧ op.srcPageIndices.length = op.dstPageIndices.length ∧
      op.pageIndicesEnd ≤ op.srcPageIndices.length then
    fillChain wrChainLen (template op rmaQp)
  else none

def totalOps (iter : PagedWriteOpIter) : Nat := iter.pageIndicesEnd - iter.pageIndicesBeg

def peek (iter : PagedWriteOpIter) : Batch :=
  if iter.wrLen = 0 then .empty else ⟨iter.rmaQp, linked iter.wrChainBuffer wrChainLen (some iter.iWrHead), iter.wrLen⟩

def advance (iter : PagedWriteOpIter) (n : Nat) : Option PagedWriteOpIter :=
  if n ≤ iter.wrLen then
    fillChain wrChainLen { iter with iWrHead := iter.iWrHead + Fin.ofNat wrChainLen n, wrLen := iter.wrLen - n }
  else none

end PagedWriteOpIter

structure ScatterWriteOpIter where
  qpList : List Qp
  wr : WorkRequest
  domainIdx : Nat
  srcPtr : MemoryPtr
  dsts : List (ScatterTarget MemoryRegionDescriptor)
  dstBeg : Nat
  dstEnd : Nat
  byteShards : Nat
  byteShardIdx : Nat
  iDst : Nat
deriving Repr, DecidableEq

namespace ScatterWriteOpIter

def fillWr (iter : ScatterWriteOpIter) : Option ScatterWriteOpIter := do
  let dst ← iter.dsts[iter.iDst]?
  let (len, offset) ← byteShard iter.byteShards iter.byteShardIdx dst.length
  let (_, rkey) ← dst.dstMr.addrRkeyList[iter.domainIdx]?
  return { iter with wr := { iter.wr with
    sge := iter.wr.sge.map ({ · with addr := iter.srcPtr + (dst.srcOffset + offset), length := len })
    remoteAddr := dst.dstMr.ptr + dst.dstOffset + offset
    rkey := asU32 rkey } }

def template (op : ScatterGroupWriteOp) (qpList : List Qp) : ScatterWriteOpIter where
  qpList := qpList
  wr := {
    sge := some ⟨0, 0, asU32 op.srcDesc⟩
    opcode := (opcodeImm op.immData).1
    immData := (opcodeImm op.immData).2
    remoteAddr := 0
    rkey := 0 }
  domainIdx := op.domainIdx
  srcPtr := op.srcPtr
  dsts := op.dsts
  dstBeg := op.dstBeg
  dstEnd := op.dstEnd
  byteShards := op.byteShards
  byteShardIdx := op.byteShardIdx
  iDst := op.dstBeg

def new (op : ScatterGroupWriteOp) (qpList : List Qp) : Option ScatterWriteOpIter :=
  if op.dstBeg < op.dstEnd ∧ op.dstEnd ≤ op.dsts.length ∧ qpList.length = op.dsts.length then (template op qpList).fillWr else none

def totalOps (iter : ScatterWriteOpIter) : Nat := iter.dstEnd - iter.dstBeg

/-- `new` has checked that there is a queue pair for every target. -/
def peek (iter : ScatterWriteOpIter) : Batch :=
  if iter.iDst = iter.dstEnd then .empty else ⟨iter.qpList.getD iter.iDst 0, some [iter.wr], 1⟩

def advanceOne (iter : ScatterWriteOpIter) : Option ScatterWriteOpIter :=
  let iter := { iter with iDst := iter.iDst + 1 }
  if iter.iDst ≠ iter.dstEnd then iter.fillWr else some iter

end ScatterWriteOpIter

inductive WriteOpIter where
  | single (iter : SingleWriteOpIter)
  | paged (iter : PagedWriteOpIter)
  | scatter (iter : ScatterWriteOpIter)

namespace WriteOpIter

def new : RdmaOp Qp → Option WriteOpIter
  | .write (.single op) rmaQp => some (.single (.newSingle op rmaQp))
  | .write (.imm op) rmaQp => some (.single (.newImm op rmaQp))
  | .write (.paged op) rmaQp => (PagedWriteOpIter.new op rmaQp).map .paged
  | .scatter op qpList => (ScatterWriteOpIter.new op qpList).map .scatter

def totalOps : WriteOpIter → Nat
  | .single _ => 1
  | .paged iter => iter.totalOps
  | .scatter iter => iter.totalOps

def peek : WriteOpIter → Batch
  | .single iter => iter.peek
  | .paged iter => iter.peek
  | .scatter iter => iter.peek

/-- Only pages are chained; the others insist on one request at a time. -/
def advance (iter : WriteOpIter) (n : Nat) : Option WriteOpIter :=
  match iter with
  | .single iter => if n = 1 then some (.single iter.markDone) else none
  | .paged iter => (iter.advance n).map .paged
  | .scatter iter => if n = 1 then iter.advanceOne.map .scatter else none

end WriteOpIter

def Batch.requests (batch : Batch) : List (Qp × WorkRequest) := (batch.chain.getD []).map (batch.qp, ·)

def cursor : Cursor WriteOpIter (Qp × WorkRequest) where
  peek iter := iter.peek.requests
  advance iter count := iter.advance count

end Verbs

end PplxGarden.Fabric
