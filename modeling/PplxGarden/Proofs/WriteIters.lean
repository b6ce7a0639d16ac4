import PplxGarden.Fabric.WriteIters

/-! What the iterators hand out. Every iterator yields one request for each page or
target of its operation, in order, however many requests are taken at a time. -/

namespace PplxGarden.Fabric
open Library

def PagedWriteOp.pages (op : PagedWriteOp) (i : Nat) : Option (Nat × Nat) := do
  let srcPageIdx ← op.srcPageIndices[i]?
  let dstPageIdx ← op.dstPageIndices[i]?
  return (srcPageIdx, dstPageIdx)

structure TargetShard where
  target : ScatterTarget MemoryRegionDescriptor
  len : Nat
  offset : Nat
  rkey : RemoteKey
deriving Repr, DecidableEq

def ScatterGroupWriteOp.shard (op : ScatterGroupWriteOp) (i : Nat) : Option TargetShard := do
  let target ← op.dsts[i]?
  let (len, offset) ← byteShard op.byteShards op.byteShardIdx target.length
  let (_, rkey) ← target.dstMr.addrRkeyList[op.domainIdx]?
  return ⟨target, len, offset, rkey⟩

def WriteOp.Asserted : WriteOp → Prop
  | .paged op => op.pageIndicesBeg < op.pageIndicesEnd ∧ op.srcPageIndices.length = op.dstPageIndices.length ∧
      op.pageIndicesEnd ≤ op.srcPageIndices.length
  | _ => True

def RdmaOp.Asserted : RdmaOp δ → Prop
  | .write op _ => op.Asserted
  | .scatter op dests => op.dstBeg < op.dstEnd ∧ op.dstEnd ≤ op.dsts.length ∧ dests.length = op.dsts.length

theorem PagedWriteOp.pages_isSome {op : PagedWriteOp} (asserted : (WriteOp.paged op).Asserted)
    {i : Nat} (inside : i < op.pageIndicesEnd) : (op.pages i).isSome := by
  obtain ⟨-, even, bound⟩ := asserted
  simp [PagedWriteOp.pages, List.getElem?_eq_getElem (show i < op.srcPageIndices.length by omega),
    List.getElem?_eq_getElem (show i < op.dstPageIndices.length by omega)]

namespace Efa
open Cursor

def pageMsg (op : PagedWriteOp) (addr : FiAddr) (base remote : Nat) : FiMsgRma × Bool :=
  ({ iov := some ⟨base, op.length⟩
     desc := some op.srcDesc
     addr
     rmaIov := ⟨remote, op.length, op.dstRkey⟩
     data := (flagsImm op.immData).1 }, (flagsImm op.immData).2)

def pagesMsg (op : PagedWriteOp) (addr : FiAddr) (pages : Nat × Nat) : FiMsgRma × Bool :=
  pageMsg op addr (op.srcPtr + op.srcOffset + op.srcStride * pages.1) (op.dstStride * pages.2)

def targetMsg (op : ScatterGroupWriteOp) (part : FiAddr × TargetShard) : FiMsgRma × Bool :=
  ({ iov := some ⟨op.srcPtr + (part.2.target.srcOffset + part.2.offset), part.2.len⟩
     desc := some op.srcDesc
     addr := part.1
     rmaIov := ⟨part.2.target.dstOffset + part.2.offset, part.2.len, part.2.rkey⟩
     data := (flagsImm op.immData).1 }, (flagsImm op.immData).2)

def targetPart (op : ScatterGroupWriteOp) (addrs : List FiAddr) (i : Nat) : Option (FiAddr × TargetShard) := do
  let addr ← addrs[i]?
  let part ← op.shard i
  return (addr, part)

def singleAt (iter : SingleWriteOpIter) (i : Nat) (_ : Unit) : WriteOpIter :=
  .single { iter with done := decide (0 < i) }

def pagedAt (op : PagedWriteOp) (addr : FiAddr) (i : Nat) (pages : Nat × Nat) : WriteOpIter :=
  .paged { PagedWriteOpIter.template op addr with iPage := i, msg := (pagesMsg op addr pages).1 }

def scatterAt (op : ScatterGroupWriteOp) (addrs : List FiAddr) (i : Nat) (part : FiAddr × TargetShard) : WriteOpIter :=
  .scatter { ScatterWriteOpIter.template op addrs with iDst := i, msg := (targetMsg op part).1 }

theorem single_oneByOne (iter : SingleWriteOpIter) :
    OneByOne cursor (fun _ => some ()) (fun _ _ => (iter.msg, iter.flags)) 1 (singleAt iter) where
  inside {i held} first := by
    obtain rfl : i = 0 := by omega
    rfl
  outside := rfl
  next {i held} first := by
    obtain rfl : i = 0 := by omega
    rfl
  only {i held count next} moved := by
    simp only [cursor] at moved
    split at moved
    next one => exact one
    next => cases moved

theorem fillMsg_paged (op : PagedWriteOp) (addr : FiAddr) (i base remote : Nat) :
    ({ PagedWriteOpIter.template op addr with iPage := i, msg := (pageMsg op addr base remote).1 } : PagedWriteOpIter).fillMsg.map .paged =
      (op.pages i).map (pagedAt op addr i) := by
  simp only [PagedWriteOpIter.fillMsg, PagedWriteOp.pages, PagedWriteOpIter.template]
  cases op.srcPageIndices[i]? <;> cases op.dstPageIndices[i]? <;> rfl

theorem paged_oneByOne (op : PagedWriteOp) (addr : FiAddr) :
    OneByOne cursor op.pages (fun _ => pagesMsg op addr) op.pageIndicesEnd (pagedAt op addr) where
  inside {i held} first := by
    simp [cursor, pagedAt, WriteOpIter.peek, PagedWriteOpIter.peek, PagedWriteOpIter.template, Nat.ne_of_lt first]
    rfl
  outside {held} := by simp [cursor, pagedAt, WriteOpIter.peek, PagedWriteOpIter.peek, PagedWriteOpIter.template]
  next {i held} first := by
    have filled := fillMsg_paged op addr (i + 1) (op.srcPtr + op.srcOffset + op.srcStride * held.1) (op.dstStride * held.2)
    have inside : (PagedWriteOpIter.template op addr).pageIndicesEnd = op.pageIndicesEnd := rfl
    simp only [cursor, pagedAt, if_true, WriteOpIter.advance, PagedWriteOpIter.advance, inside, if_pos first]
    split
    next => exact filled
    next => rfl
  only {i held count next} moved := by
    simp only [cursor] at moved
    split at moved
    next one => exact one
    next => cases moved

theorem fillMsg_scatter (op : ScatterGroupWriteOp) (addrs : List FiAddr) (i : Nat) (msg : FiMsgRma)
    (desc : msg.desc = some op.srcDesc) (data : msg.data = (flagsImm op.immData).1) :
    ({ ScatterWriteOpIter.template op addrs with iDst := i, msg } : ScatterWriteOpIter).fillMsg.map .scatter =
      (targetPart op addrs i).map (scatterAt op addrs i) := by
  simp only [ScatterWriteOpIter.fillMsg, targetPart, ScatterGroupWriteOp.shard, ScatterWriteOpIter.template]
  cases op.dsts[i]? with
  | none => cases addrs[i]? <;> rfl
  | some dst =>
    simp only [Option.bind_eq_bind, Option.bind_some]
    cases byteShard op.byteShards op.byteShardIdx dst.length with
    | none => cases addrs[i]? <;> rfl
    | some shard =>
      cases addrs[i]? <;> cases dst.dstMr.addrRkeyList[op.domainIdx]? <;>
        simp [scatterAt, targetMsg, ScatterWriteOpIter.template, desc, data]

theorem scatter_oneByOne (op : ScatterGroupWriteOp) (addrs : List FiAddr) :
    OneByOne cursor (targetPart op addrs) (fun _ => targetMsg op) op.dstEnd (scatterAt op addrs) where
  inside {i held} first := by
    simp [cursor, scatterAt, WriteOpIter.peek, ScatterWriteOpIter.peek, ScatterWriteOpIter.template, Nat.ne_of_lt first]
    rfl
  outside {held} := by simp [cursor, scatterAt, WriteOpIter.peek, ScatterWriteOpIter.peek, ScatterWriteOpIter.template]
  next {i held} first := by
    have filled := fillMsg_scatter op addrs (i + 1) (targetMsg op held).1 rfl rfl
    have inside : (ScatterWriteOpIter.template op addrs).dstEnd = op.dstEnd := rfl
    simp only [cursor, scatterAt, if_true, WriteOpIter.advance, ScatterWriteOpIter.advance, inside, if_pos first]
    split
    next => exact filled
    next => rfl
  only {i held count next} moved := by
    simp only [cursor] at moved
    split at moved
    next one => exact one
    next => cases moved

end Efa

namespace Verbs
open Cursor

def pageWr (op : PagedWriteOp) (addr remoteAddr : Nat) : WorkRequest where
  sge := some ⟨addr, asU32 op.length, asU32 op.srcDesc⟩
  opcode := (opcodeImm op.immData).1
  immData := (opcodeImm op.immData).2
  remoteAddr := remoteAddr
  rkey := asU32 op.dstRkey

def pagesWr (op : PagedWriteOp) (pages : Nat × Nat) : WorkRequest :=
  pageWr op (op.srcPtr + op.srcOffset + op.srcStride * pages.1) (op.dstPtr + op.dstOffset + op.dstStride * pages.2)

def targetWr (op : ScatterGroupWriteOp) (part : TargetShard) : WorkRequest where
  sge := some ⟨op.srcPtr + (part.target.srcOffset + part.offset), part.len, asU32 op.srcDesc⟩
  opcode := (opcodeImm op.immData).1
  immData := (opcodeImm op.immData).2
  remoteAddr := part.target.dstMr.ptr + part.target.dstOffset + part.offset
  rkey := asU32 part.rkey

def singleAt (iter : SingleWriteOpIter) (i : Nat) (_ : Unit) : WriteOpIter :=
  .single { iter with done := decide (0 < i) }

def scatterAt (op : ScatterGroupWriteOp) (qpList : List Qp) (i : Nat) (part : TargetShard) : WriteOpIter :=
  .scatter { ScatterWriteOpIter.template op qpList with iDst := i, wr := targetWr op part }

theorem single_oneByOne (iter : SingleWriteOpIter) :
    OneByOne cursor (fun _ => some ()) (fun _ _ => (iter.rmaQp, iter.wr)) 1 (singleAt iter) where
  inside {i held} first := by
    obtain rfl : i = 0 := by omega
    rfl
  outside := rfl
  next {i held} first := by
    obtain rfl : i = 0 := by omega
    rfl
  only {i held count next} moved := by
    simp only [cursor, singleAt, WriteOpIter.advance] at moved
    split at moved
    next one => exact one
    next => cases moved

theorem fillWr_scatter (op : ScatterGroupWriteOp) (qpList : List Qp) (i : Nat) (wr : WorkRequest) {addr length : Nat}
    (sge : wr.sge = some ⟨addr, length, asU32 op.srcDesc⟩) (opcode : wr.opcode = (opcodeImm op.immData).1)
    (immData : wr.immData = (opcodeImm op.immData).2) :
    ({ ScatterWriteOpIter.template op qpList with iDst := i, wr } : ScatterWriteOpIter).fillWr.map .scatter =
      (op.shard i).map (scatterAt op qpList i) := by
  simp only [ScatterWriteOpIter.fillWr, ScatterGroupWriteOp.shard, ScatterWriteOpIter.template]
  cases op.dsts[i]? with
  | none => rfl
  | some dst =>
    simp only [Option.bind_eq_bind, Option.bind_some]
    cases byteShard op.byteShards op.byteShardIdx dst.length with
    | none => rfl
    | some shard =>
      cases dst.dstMr.addrRkeyList[op.domainIdx]? <;>
        simp [scatterAt, targetWr, ScatterWriteOpIter.template, sge, opcode, immData]

theorem scatter_oneByOne (op : ScatterGroupWriteOp) (qpList : List Qp) :
    OneByOne cursor op.shard (fun i part => (qpList.getD i 0, targetWr op part)) op.dstEnd (scatterAt op qpList) where
  inside {i held} first := by
    simp [cursor, scatterAt, WriteOpIter.peek, ScatterWriteOpIter.peek, ScatterWriteOpIter.template,
      Nat.ne_of_lt first, Batch.requests]
  outside {held} := by
    simp [cursor, scatterAt, WriteOpIter.peek, ScatterWriteOpIter.peek, ScatterWriteOpIter.template,
      Batch.requests, Batch.empty]
  next {i held} first := by
    have filled := fillWr_scatter op qpList (i + 1) (targetWr op held) rfl rfl rfl
    have inside : (ScatterWriteOpIter.template op qpList).dstEnd = op.dstEnd := rfl
    simp only [cursor, scatterAt, if_true, WriteOpIter.advance, ScatterWriteOpIter.advanceOne, inside]
    by_cases further : i + 1 < op.dstEnd
    · rw [if_pos (Nat.ne_of_lt further), if_pos further]
      exact filled
    · rw [if_neg (by omega), if_neg further]
      rfl
  only {i held count next} moved := by
    simp only [cursor, scatterAt, WriteOpIter.advance] at moved
    split at moved
    next one => exact one
    next => cases moved

end Verbs

end PplxGarden.Fabric
