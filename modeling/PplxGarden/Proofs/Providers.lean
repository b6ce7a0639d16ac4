import PplxGarden.Proofs.Requests

/-! Both providers write the same bytes. The requests of an operation agree, up to
where a remote address counts from, exactly if its keys fit 32 bits and a paged
operation has no offset at its destination. -/

namespace PplxGarden.Fabric
open Library Cursor List
variable {op : ScatterGroupWriteOp}

structure RemoteWrite where
  source : Option Nat
  length : Nat
  imm : Option Nat
  rkey : Nat
  remoteAddr : Nat
deriving Repr, DecidableEq

/-- The immediate that arrives with a write. -/
def Efa.delivered (data : Nat) (flags : Bool) : Option Nat := if flags then some data else none

def Verbs.delivered (immData : Nat) : Verbs.Opcode → Option Nat
  | .rdmaWriteWithImm => some immData
  | .rdmaWrite => none

def Efa.remoteWrite (msg : Efa.FiMsgRma × Bool) : RemoteWrite where
  source := msg.1.iov.map (·.base)
  length := (msg.1.iov.map (·.len)).getD 0
  imm := Efa.delivered msg.1.data msg.2
  rkey := msg.1.rmaIov.key
  remoteAddr := msg.1.rmaIov.addr

def Verbs.remoteWrite (wr : Verbs.WorkRequest) : RemoteWrite where
  source := wr.sge.map (·.addr)
  length := (wr.sge.map (·.length)).getD 0
  imm := Verbs.delivered wr.immData wr.opcode
  rkey := wr.rkey
  remoteAddr := wr.remoteAddr

/-- The write, with an address counted from the start of a region made absolute. -/
def RemoteWrite.within (ptr : Nat) (write : RemoteWrite) : RemoteWrite :=
  { write with remoteAddr := ptr + write.remoteAddr }

namespace RdmaOp

variable {δ : Type}

def regionPtr : RdmaOp δ → Nat → Nat
  | .write (.single op) _, _ => op.dstPtr
  | .write (.imm op) _, _ => op.dstPtr
  | .write (.paged op) _, _ => op.dstPtr
  | .scatter op _, k => ((op.dsts[op.dstBeg + k]?).map (·.dstMr.ptr)).getD 0

/-- The lengths of an operation are below 2^32. -/
def Short : RdmaOp δ → Prop
  | .write (.single op) _ => op.length < 2 ^ 32
  | .write (.imm _) _ => True
  | .write (.paged op) _ => op.length < 2 ^ 32
  | .scatter op _ => ∀ target ∈ op.dsts, target.length < 2 ^ 32

/-- Keys fit 32 bits, and pages are written without an offset. -/
def Portable : RdmaOp δ → Prop
  | .write (.single op) _ => op.dstRkey < 2 ^ 32
  | .write (.imm op) _ => op.dstRkey < 2 ^ 32
  | .write (.paged op) _ => op.dstRkey < 2 ^ 32 ∧ op.dstOffset = 0
  | .scatter op _ => ∀ i, op.dstBeg ≤ i → i < op.dstEnd → ∀ part, op.shard i = some part → part.rkey < 2 ^ 32

end RdmaOp

/-- The two providers write the same bytes to the same place. -/
def SameWrites {δ : Type} (op : RdmaOp δ) (msgs : List (Efa.FiMsgRma × Bool))
    (wrs : List (Qp × Verbs.WorkRequest)) : Prop :=
  wrs.map (fun wr => Verbs.remoteWrite wr.2) = msgs.mapIdx fun k msg => (Efa.remoteWrite msg).within (op.regionPtr k)

theorem asU32_eq_iff {n : Nat} : asU32 n = n ↔ n < 2 ^ 32 := by
  unfold asU32
  constructor
  · intro same
    rw [← same]
    exact Nat.mod_lt _ (by decide)
  · exact Nat.mod_eq_of_lt

@[simp]
theorem Efa.delivered_flagsImm (immData : Option Nat) :
    Efa.delivered (Efa.flagsImm immData).1 (Efa.flagsImm immData).2 = immData := by
  cases immData <;> rfl

@[simp]
theorem Verbs.delivered_opcodeImm (immData : Option Nat) :
    Verbs.delivered (Verbs.opcodeImm immData).2 (Verbs.opcodeImm immData).1 = immData := by
  cases immData <;> rfl

private theorem remoteWrite_single {op : SingleWriteOp} (short : op.length < 2 ^ 32) (addr : FiAddr)
    (rmaQp : Qp) :
    Verbs.remoteWrite (Verbs.SingleWriteOpIter.newSingle op rmaQp).wr =
        (Efa.remoteWrite ((Efa.SingleWriteOpIter.newSingle op addr).msg,
          (Efa.SingleWriteOpIter.newSingle op addr).flags)).within op.dstPtr ↔
      op.dstRkey < 2 ^ 32 := by
  rw [← asU32_eq_iff]
  simp [Verbs.remoteWrite, Efa.remoteWrite, RemoteWrite.within, Verbs.SingleWriteOpIter.newSingle,
    Efa.SingleWriteOpIter.newSingle,
    asU32_eq_iff.mpr short]

private theorem remoteWrite_imm_op (op : ImmWriteOp) (addr : FiAddr) (rmaQp : Qp) :
    Verbs.remoteWrite (Verbs.SingleWriteOpIter.newImm op rmaQp).wr =
        (Efa.remoteWrite ((Efa.SingleWriteOpIter.newImm op addr).msg,
          (Efa.SingleWriteOpIter.newImm op addr).flags)).within op.dstPtr ↔
      op.dstRkey < 2 ^ 32 := by
  rw [← asU32_eq_iff]
  simp [Verbs.remoteWrite, Efa.remoteWrite, RemoteWrite.within, Verbs.SingleWriteOpIter.newImm,
    Efa.SingleWriteOpIter.newImm,
    Verbs.delivered, Efa.delivered]

private theorem remoteWrite_pages {op : PagedWriteOp} (short : op.length < 2 ^ 32) (addr : FiAddr)
    (pages : Nat × Nat) :
    Verbs.remoteWrite (Verbs.pagesWr op pages) =
      (Efa.remoteWrite (Efa.pagesMsg op addr pages)).within op.dstPtr ↔
      op.dstRkey < 2 ^ 32 ∧ op.dstOffset = 0 := by
  rw [← asU32_eq_iff]
  simp [Verbs.remoteWrite, Efa.remoteWrite, RemoteWrite.within, Verbs.pagesWr, Verbs.pageWr, Efa.pagesMsg, Efa.pageMsg,
    asU32_eq_iff.mpr short]

private theorem remoteWrite_target (op : ScatterGroupWriteOp) (addr : FiAddr) (part : TargetShard) :
    Verbs.remoteWrite (Verbs.targetWr op part) =
      (Efa.remoteWrite (Efa.targetMsg op (addr, part))).within part.target.dstMr.ptr ↔
      part.rkey < 2 ^ 32 := by
  rw [← asU32_eq_iff]
  simp [Verbs.remoteWrite, Efa.remoteWrite, RemoteWrite.within, Verbs.targetWr, Efa.targetMsg, Nat.add_assoc]

/-! The requests of an operation, built from its pages or from the parts of its targets. -/

theorem efaYields_paged (op : PagedWriteOp) (addr : FiAddr) (msgs : List (Efa.FiMsgRma × Bool)) :
    EfaYields (.write (.paged op) addr) msgs ↔ (WriteOp.paged op).Asserted ∧
      ∃ pages : List (Nat × Nat), (range' op.pageIndicesBeg
        (op.pageIndicesEnd - op.pageIndicesBeg)).map op.pages = pages.map some ∧
        msgs = pages.mapIdx fun _ => Efa.pagesMsg op addr := by
  rw [efaYields_iff]
  exact and_congr_right fun _ => map_range'_eq_some_iff

theorem verbsYields_paged (op : PagedWriteOp) (rmaQp : Qp) (wrs : List (Qp × Verbs.WorkRequest)) :
    VerbsYields (.write (.paged op) rmaQp) wrs ↔ (WriteOp.paged op).Asserted ∧
      ∃ pages : List (Nat × Nat), (range' op.pageIndicesBeg
        (op.pageIndicesEnd - op.pageIndicesBeg)).map op.pages = pages.map some ∧
        wrs = pages.mapIdx fun _ pages => (rmaQp, Verbs.pagesWr op pages) := by
  rw [verbsYields_iff]
  exact and_congr_right fun _ => map_range'_eq_some_iff

private theorem targetPart_eq {addrs : List FiAddr} {i : Nat} (inside : i < addrs.length) :
    Efa.targetPart op addrs i = (op.shard i).map (addrs.getD i 0, ·) := by
  rw [Efa.targetPart, List.getElem?_eq_getElem inside, getD_eq_getElem?_getD, List.getElem?_eq_getElem inside]
  cases op.shard i <;> rfl

theorem efaYields_scatter (op : ScatterGroupWriteOp) (addrs : List FiAddr) (msgs : List (Efa.FiMsgRma × Bool)) :
    EfaYields (.scatter op addrs) msgs ↔ (RdmaOp.scatter op addrs).Asserted ∧
      ∃ parts : List TargetShard, (range' op.dstBeg (op.dstEnd - op.dstBeg)).map op.shard = parts.map some ∧
        msgs = parts.mapIdx fun k part => Efa.targetMsg op (addrs.getD (op.dstBeg + k) 0, part) := by
  rw [efaYields_iff]
  refine and_congr_right fun asserted => ?_
  have same : Efa.requests (.scatter op addrs) = (range' op.dstBeg (op.dstEnd - op.dstBeg)).map fun i =>
      (op.shard i).map fun part => Efa.targetMsg op (addrs.getD i 0, part) := by
    refine map_congr_left fun i member => ?_
    have inside := mem_range'_1.mp member
    have bound := asserted.2.1
    rw [targetPart_eq (by rw [asserted.2.2]; omega), Option.map_map]
    rfl
  rw [same]
  exact map_range'_eq_some_iff

theorem verbsYields_scatter (op : ScatterGroupWriteOp) (qpList : List Qp) (wrs : List (Qp × Verbs.WorkRequest)) :
    VerbsYields (.scatter op qpList) wrs ↔ (RdmaOp.scatter op qpList).Asserted ∧
      ∃ parts : List TargetShard, (range' op.dstBeg (op.dstEnd - op.dstBeg)).map op.shard = parts.map some ∧
        wrs = parts.mapIdx fun k part => (qpList.getD (op.dstBeg + k) 0, Verbs.targetWr op part) := by
  rw [verbsYields_iff]
  exact and_congr_right fun _ => map_range'_eq_some_iff

/-- Requests that are built from the same parts agree if they agree on every part. -/
theorem sameWrites_mapIdx {δ ρ : Type} (op : RdmaOp δ) (parts : List ρ) (msg : Nat → ρ → Efa.FiMsgRma × Bool)
    (wr : Nat → ρ → Qp × Verbs.WorkRequest) : SameWrites op (parts.mapIdx msg) (parts.mapIdx wr) ↔
      ∀ k (inside : k < parts.length),
        Verbs.remoteWrite (wr k parts[k]).2 = (Efa.remoteWrite (msg k parts[k])).within (op.regionPtr k) := by
  have mapped : (parts.mapIdx wr).map (fun wr => Verbs.remoteWrite wr.2) =
      parts.mapIdx fun k part => Verbs.remoteWrite (wr k part).2 :=
    ext_getElem (by simp) (by simp)
  rw [SameWrites, mapped, mapIdx_mapIdx, mapIdx_eq_mapIdx_iff]
  rfl

theorem sameWrites_paged {op : PagedWriteOp} (asserted : (WriteOp.paged op).Asserted)
    (short : op.length < 2 ^ 32) (dest : FiAddr × Qp) {pages : List (Nat × Nat)}
    (known : (range' op.pageIndicesBeg (op.pageIndicesEnd - op.pageIndicesBeg)).map op.pages =
      pages.map some) :
    SameWrites (.write (.paged op) dest) (pages.mapIdx fun _ => Efa.pagesMsg op dest.1)
      (pages.mapIdx fun _ pages => (dest.2, Verbs.pagesWr op pages)) ↔ op.dstRkey < 2 ^ 32 ∧
        op.dstOffset = 0 := by
  have size := congrArg List.length known
  have nonempty := asserted.1
  simp only [length_map, length_range'] at size
  rw [sameWrites_mapIdx]
  constructor
  · intro same
    exact (remoteWrite_pages short dest.1 _).mp (same 0 (by omega))
  · intro portable k inside
    exact (remoteWrite_pages short dest.1 _).mpr portable

theorem shard_of_parts {parts : List TargetShard}
    (known : (range' op.dstBeg (op.dstEnd - op.dstBeg)).map op.shard = parts.map some) {k : Nat}
    (inside : k < parts.length) : op.shard (op.dstBeg + k) = some parts[k] := by
  have same := congrArg (·[k]?) known
  have size := congrArg List.length known
  simp only [length_map, length_range'] at size
  rw [getElem?_map, getElem?_range' (by omega), getElem?_map, List.getElem?_eq_getElem inside] at same
  simpa using same

theorem shard_target {i : Nat} {part : TargetShard} (found : op.shard i = some part) :
    op.dsts[i]? = some part.target := by
  simp only [ScatterGroupWriteOp.shard, Option.bind_eq_bind, Option.bind_eq_some_iff] at found
  obtain ⟨target, present, _, _, _, _, built⟩ := found
  cases built
  exact present

theorem sameWrites_scatter {dests : List (FiAddr × Qp)} (addrs : List FiAddr) (qpList : List Qp)
    {parts : List TargetShard}
    (known : (range' op.dstBeg (op.dstEnd - op.dstBeg)).map op.shard = parts.map some) :
    SameWrites (.scatter op dests) (parts.mapIdx fun k part =>
      Efa.targetMsg op (addrs.getD (op.dstBeg + k) 0, part))
      (parts.mapIdx fun k part => (qpList.getD (op.dstBeg + k) 0, Verbs.targetWr op part)) ↔
        (RdmaOp.scatter op dests).Portable := by
  have size := congrArg List.length known
  simp only [length_map, length_range'] at size
  have pointer : ∀ k (inside : k < parts.length), (RdmaOp.scatter op dests).regionPtr k = parts[k].target.dstMr.ptr := by
    intro k inside
    simp only [RdmaOp.regionPtr, shard_target (shard_of_parts known inside), Option.map_some, Option.getD_some]
  rw [sameWrites_mapIdx]
  constructor
  · intro same i low high part found
    have inside : i - op.dstBeg < parts.length := by omega
    have agree := same (i - op.dstBeg) inside
    rw [pointer _ inside, remoteWrite_target] at agree
    have this_ := shard_of_parts known inside
    rw [Nat.add_sub_of_le low, found] at this_
    rw [Option.some.inj this_]
    exact agree
  · intro portable k inside
    rw [pointer k inside, remoteWrite_target]
    exact portable (op.dstBeg + k) (Nat.le_add_right ..) (by omega) _ (shard_of_parts known inside)

private theorem eq_singleton {α : Type} {item : α} {items : List α}
    (same : [some item] = items.map some) : items = [item] :=
  (map_injective_iff.mpr (fun _ _ => Option.some.inj) (show [item].map some = items.map some from same)).symm

theorem efaYields_singleton (op : RdmaOp FiAddr) {msg : Efa.FiMsgRma × Bool} (asserted : op.Asserted)
    (one : Efa.requests op = [some msg]) (msgs : List (Efa.FiMsgRma × Bool)) : EfaYields op msgs ↔ msgs = [msg] := by
  rw [efaYields_iff, one]
  constructor
  · rintro ⟨-, same⟩
    exact eq_singleton same
  · rintro rfl
    exact ⟨asserted, rfl⟩

theorem verbsYields_singleton (op : RdmaOp Qp) {wr : Qp × Verbs.WorkRequest} (asserted : op.Asserted)
    (one : Verbs.requests op = [some wr]) (wrs : List (Qp × Verbs.WorkRequest)) : VerbsYields op wrs ↔ wrs = [wr] := by
  rw [verbsYields_iff, one]
  constructor
  · rintro ⟨-, same⟩
    exact eq_singleton same
  · rintro rfl
    exact ⟨asserted, rfl⟩

theorem sameWrites_singleton {δ : Type} (op : RdmaOp δ) (msg : Efa.FiMsgRma × Bool) (wr : Qp × Verbs.WorkRequest) :
    SameWrites op [msg] [wr] ↔ Verbs.remoteWrite wr.2 = (Efa.remoteWrite msg).within (op.regionPtr 0) := by
  simp [SameWrites]

/-- Either both iterators of an operation can be run to the end or neither can; if they
can, what they hand out agrees exactly if the operation is portable. -/
theorem sameWrites_iff (op : RdmaOp (FiAddr × Qp)) (short : op.Short) :
    ((∃ msgs, EfaYields (op.map Prod.fst) msgs) ↔ ∃ wrs, VerbsYields (op.map Prod.snd) wrs) ∧
      ∀ msgs wrs, EfaYields (op.map Prod.fst) msgs → VerbsYields (op.map Prod.snd) wrs →
        (SameWrites op msgs wrs ↔ op.Portable) := by
  cases op with
  | write op dest =>
    cases op with
    | single op =>
      have efa := efaYields_singleton (.write (.single op) dest.1) trivial rfl
      have verbs := verbsYields_singleton (.write (.single op) dest.2) trivial rfl
      refine ⟨iff_of_true ⟨_, (efa _).mpr rfl⟩ ⟨_, (verbs _).mpr rfl⟩, fun msgs wrs first second => ?_⟩
      rw [(efa msgs).mp first, (verbs wrs).mp second, sameWrites_singleton]
      exact remoteWrite_single short dest.1 dest.2
    | imm op =>
      have efa := efaYields_singleton (.write (.imm op) dest.1) trivial rfl
      have verbs := verbsYields_singleton (.write (.imm op) dest.2) trivial rfl
      refine ⟨iff_of_true ⟨_, (efa _).mpr rfl⟩ ⟨_, (verbs _).mpr rfl⟩, fun msgs wrs first second => ?_⟩
      rw [(efa msgs).mp first, (verbs wrs).mp second, sameWrites_singleton]
      exact remoteWrite_imm_op op dest.1 dest.2
    | paged op =>
      refine ⟨⟨?_, ?_⟩, fun msgs wrs first second => ?_⟩
      · rintro ⟨msgs, yields⟩
        obtain ⟨asserted, pages, known, -⟩ := (efaYields_paged op dest.1 msgs).mp yields
        exact ⟨_, (verbsYields_paged op dest.2 _).mpr ⟨asserted, pages, known, rfl⟩⟩
      · rintro ⟨wrs, yields⟩
        obtain ⟨asserted, pages, known, -⟩ := (verbsYields_paged op dest.2 wrs).mp yields
        exact ⟨_, (efaYields_paged op dest.1 _).mpr ⟨asserted, pages, known, rfl⟩⟩
      · obtain ⟨asserted, pages, known, rfl⟩ := (efaYields_paged op dest.1 msgs).mp first
        obtain ⟨-, others, again, rfl⟩ := (verbsYields_paged op dest.2 wrs).mp second
        obtain rfl := map_injective_iff.mpr (fun _ _ => Option.some.inj) (known.symm.trans again)
        exact sameWrites_paged asserted short dest known
  | scatter op dests =>
    have asserted_iff : (RdmaOp.scatter op (dests.map Prod.fst)).Asserted ↔
        (RdmaOp.scatter op (dests.map Prod.snd)).Asserted := by
      simp only [RdmaOp.Asserted, length_map]
    refine ⟨⟨?_, ?_⟩, fun msgs wrs first second => ?_⟩
    · rintro ⟨msgs, yields⟩
      obtain ⟨asserted, parts, known, -⟩ := (efaYields_scatter op _ msgs).mp yields
      exact ⟨_, (verbsYields_scatter op _ _).mpr ⟨asserted_iff.mp asserted, parts, known, rfl⟩⟩
    · rintro ⟨wrs, yields⟩
      obtain ⟨asserted, parts, known, -⟩ := (verbsYields_scatter op _ wrs).mp yields
      exact ⟨_, (efaYields_scatter op _ _).mpr ⟨asserted_iff.mpr asserted, parts, known, rfl⟩⟩
    · obtain ⟨-, parts, known, rfl⟩ := (efaYields_scatter op _ msgs).mp first
      obtain ⟨-, others, again, rfl⟩ := (verbsYields_scatter op _ wrs).mp second
      obtain rfl := map_injective_iff.mpr (fun _ _ => Option.some.inj) (known.symm.trans again)
      exact sameWrites_scatter _ _ known

def pageAt (dstOffset : Nat) : PagedWriteOp where
  srcPageIndices := [1]
  dstPageIndices := [2]
  pageIndicesBeg := 0
  pageIndicesEnd := 1
  length := 16
  srcPtr := 1000
  srcDesc := 7
  srcStride := 64
  srcOffset := 0
  dstPtr := 5000
  dstRkey := 9
  dstStride := 64
  dstOffset := dstOffset
  immData := none

private theorem pageAt_efa (dstOffset : Nat) (addr : FiAddr) :
    EfaYields (.write (.paged (pageAt dstOffset)) addr) [Efa.pagesMsg (pageAt dstOffset) addr (1, 2)] :=
  (efaYields_iff _ _).mpr ⟨⟨Nat.zero_lt_one, rfl, Nat.le_refl 1⟩, rfl⟩

private theorem pageAt_verbs (dstOffset : Nat) (rmaQp : Qp) :
    VerbsYields (.write (.paged (pageAt dstOffset)) rmaQp) [(rmaQp, Verbs.pagesWr (pageAt dstOffset) (1, 2))] :=
  (verbsYields_iff _ _).mpr ⟨⟨Nat.zero_lt_one, rfl, Nat.le_refl 1⟩, rfl⟩

theorem offset_dropped : (RdmaOp.write (.paged (pageAt 32)) (0, 0)).Short ∧
    ∃ msgs wrs, EfaYields (.write (.paged (pageAt 32)) 0) msgs ∧ VerbsYields (.write (.paged (pageAt 32)) 0) wrs ∧
      ¬ SameWrites (.write (.paged (pageAt 32)) (0, 0)) msgs wrs := by
  refine ⟨show 16 < 2 ^ 32 by decide, _, _, pageAt_efa 32 0, pageAt_verbs 32 0, ?_⟩
  rw [sameWrites_singleton]
  decide

/-- The page is written alike if it has no offset. -/
theorem sameWrites_iff_page : (RdmaOp.write (.paged (pageAt 0)) (3, 4)).Short ∧
    SameWrites (.write (.paged (pageAt 0)) (3, 4)) [Efa.pagesMsg (pageAt 0) 3 (1, 2)]
      [(4, Verbs.pagesWr (pageAt 0) (1, 2))] := by
  have short : (RdmaOp.write (.paged (pageAt 0)) (3, 4)).Short := show 16 < 2 ^ 32 by decide
  exact ⟨short, ((sameWrites_iff _ short).2 _ _ (pageAt_efa 0 3) (pageAt_verbs 0 4)).mpr ⟨show 9 < 2 ^ 32 by decide, rfl⟩⟩

end PplxGarden.Fabric
