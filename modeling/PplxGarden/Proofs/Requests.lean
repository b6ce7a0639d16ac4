import PplxGarden.Proofs.WrChain

/-! The requests of a whole operation. An iterator that is made yields one request for
each page or target, and it is made if the assertions of its constructor hold and
every request can be built. -/

namespace PplxGarden.Fabric
open Library Cursor List Option
variable {iter : WriteOpIter} {op : RdmaOp FiAddr}

namespace Efa

def requests : RdmaOp FiAddr → List (Option (FiMsgRma × Bool))
  | .write (.single op) addr =>
    [some ((SingleWriteOpIter.newSingle op addr).msg, (SingleWriteOpIter.newSingle op addr).flags)]
  | .write (.imm op) addr => [some ((SingleWriteOpIter.newImm op addr).msg, (SingleWriteOpIter.newImm op addr).flags)]
  | .write (.paged op) addr =>
    (range' op.pageIndicesBeg (op.pageIndicesEnd - op.pageIndicesBeg)).map fun i => (op.pages i).map (pagesMsg op addr)
  | .scatter op addrs => (range' op.dstBeg (op.dstEnd - op.dstBeg)).map fun i => (targetPart op addrs i).map (targetMsg op)

/-- The messages an iterator of an operation has still to hand out. -/
def Left : RdmaOp FiAddr → WriteOpIter → List (Option (FiMsgRma × Bool)) → Prop
  | .write (.single op) addr => From (fun _ => some ())
      (fun _ _ => ((SingleWriteOpIter.newSingle op addr).msg,
        (SingleWriteOpIter.newSingle op addr).flags)) 1 (singleAt (.newSingle op addr))
  | .write (.imm op) addr => From (fun _ => some ())
      (fun _ _ => ((SingleWriteOpIter.newImm op addr).msg,
        (SingleWriteOpIter.newImm op addr).flags)) 1 (singleAt (.newImm op addr))
  | .write (.paged op) addr => From op.pages (fun _ => pagesMsg op addr) op.pageIndicesEnd (pagedAt op addr)
  | .scatter op addrs => From (targetPart op addrs) (fun _ => targetMsg op) op.dstEnd (scatterAt op addrs)

theorem left_reads (op : RdmaOp FiAddr) : Reads cursor (Left op) := by
  cases op with
  | write op addr =>
    cases op with
    | single op => exact (single_oneByOne _).reads
    | imm op => exact (single_oneByOne _).reads
    | paged op => exact (paged_oneByOne op addr).reads
  | scatter op addrs => exact (scatter_oneByOne op addrs).reads

/-- A new iterator, with its first message filled in. -/
def start : RdmaOp FiAddr → Option WriteOpIter
  | .write (.single op) addr => some (singleAt (.newSingle op addr) 0 ())
  | .write (.imm op) addr => some (singleAt (.newImm op addr) 0 ())
  | .write (.paged op) addr => (op.pages op.pageIndicesBeg).map (pagedAt op addr op.pageIndicesBeg)
  | .scatter op addrs => (targetPart op addrs op.dstBeg).map (scatterAt op addrs op.dstBeg)

theorem new_eq (op : RdmaOp FiAddr) (asserted : op.Asserted) : WriteOpIter.new op = start op := by
  cases op with
  | write op addr =>
    cases op with
    | single op => rfl
    | imm op => rfl
    | paged op =>
      simp only [RdmaOp.Asserted, WriteOp.Asserted] at asserted
      simp only [WriteOpIter.new, PagedWriteOpIter.new, if_pos asserted]
      exact fillMsg_paged op addr op.pageIndicesBeg 0 0
  | scatter op addrs =>
    simp only [RdmaOp.Asserted] at asserted
    simp only [WriteOpIter.new, ScatterWriteOpIter.new, if_pos asserted]
    exact fillMsg_scatter op addrs op.dstBeg (ScatterWriteOpIter.template op addrs).msg rfl rfl

theorem asserted_of_new (made : WriteOpIter.new op = some iter) : op.Asserted := by
  cases op with
  | write op addr =>
    cases op with
    | single op => trivial
    | imm op => trivial
    | paged op =>
      by_contra refused
      simp only [RdmaOp.Asserted, WriteOp.Asserted] at refused
      simp [WriteOpIter.new, PagedWriteOpIter.new, if_neg refused] at made
  | scatter op addrs =>
    by_contra refused
    simp only [RdmaOp.Asserted] at refused
    simp [WriteOpIter.new, ScatterWriteOpIter.new, if_neg refused] at made

theorem left_new (made : WriteOpIter.new op = some iter) : Left op iter (requests op) := by
  have asserted := asserted_of_new made
  rw [new_eq op asserted] at made
  cases op with
  | write op addr =>
    cases op with
    | single op =>
      cases made
      exact .start (Nat.zero_le 1) fun _ => rfl
    | imm op =>
      cases made
      exact .start (Nat.zero_le 1) fun _ => rfl
    | paged op =>
      obtain ⟨pages, found, rfl⟩ := map_eq_some_iff.mp made
      exact .start (Nat.le_of_lt asserted.1) fun _ => found
  | scatter op addrs =>
    obtain ⟨part, found, rfl⟩ := map_eq_some_iff.mp made
    exact .start (Nat.le_of_lt asserted.1) fun _ => found

theorem new_goes (asserted : op.Asserted) (buildable : ∀ request ∈ requests op, request.isSome) :
    ∃ iter, WriteOpIter.new op = some iter := by
  rw [new_eq op asserted]
  cases op with
  | write op addr =>
    cases op with
    | single op => exact ⟨_, rfl⟩
    | imm op => exact ⟨_, rfl⟩
    | paged op =>
      have first := buildable _ (List.mem_map_of_mem
        (mem_range'_1.mpr ⟨Nat.le_refl op.pageIndicesBeg, by have := asserted.1; omega⟩))
      rw [isSome_map] at first
      obtain ⟨pages, found⟩ := isSome_iff_exists.mp first
      simp only [start, found, map_some]
      exact ⟨_, rfl⟩
  | scatter op addrs =>
    have first := buildable _ (List.mem_map_of_mem (mem_range'_1.mpr ⟨Nat.le_refl op.dstBeg, by have := asserted.1; omega⟩))
    rw [isSome_map] at first
    obtain ⟨part, found⟩ := isSome_iff_exists.mp first
    simp only [start, found, map_some]
    exact ⟨_, rfl⟩

end Efa

namespace Verbs

def requests : RdmaOp Qp → List (Option (Qp × WorkRequest))
  | .write (.single op) rmaQp => [some (rmaQp, (SingleWriteOpIter.newSingle op rmaQp).wr)]
  | .write (.imm op) rmaQp => [some (rmaQp, (SingleWriteOpIter.newImm op rmaQp).wr)]
  | .write (.paged op) rmaQp =>
    (range' op.pageIndicesBeg (numPages op)).map fun i => (op.pages i).map fun pages => (rmaQp, pagesWr op pages)
  | .scatter op qpList =>
    (range' op.dstBeg (op.dstEnd - op.dstBeg)).map fun i => (op.shard i).map fun part => (qpList.getD i 0, targetWr op part)

/-- The work requests an iterator of an operation has still to hand out. -/
def Left : RdmaOp Qp → WriteOpIter → List (Option (Qp × WorkRequest)) → Prop
  | .write (.single op) rmaQp =>
    From (fun _ => some ()) (fun _ _ => (rmaQp, (SingleWriteOpIter.newSingle op rmaQp).wr)) 1
      (singleAt (.newSingle op rmaQp))
  | .write (.imm op) rmaQp =>
    From (fun _ => some ()) (fun _ _ => (rmaQp, (SingleWriteOpIter.newImm op rmaQp).wr)) 1 (singleAt (.newImm op rmaQp))
  | .write (.paged op) rmaQp => Chained op rmaQp
  | .scatter op qpList => From op.shard (fun i part => (qpList.getD i 0, targetWr op part)) op.dstEnd (scatterAt op qpList)

theorem left_reads (op : RdmaOp Qp) : Reads cursor (Left op) := by
  cases op with
  | write op rmaQp =>
    cases op with
    | single op => exact (single_oneByOne (.newSingle op rmaQp)).reads
    | imm op => exact (single_oneByOne (.newImm op rmaQp)).reads
    | paged op => exact chained_reads op rmaQp
  | scatter op qpList => exact (scatter_oneByOne op qpList).reads

/-- A new iterator, with its first requests filled in. -/
def start : RdmaOp Qp → Option WriteOpIter
  | .write (.single op) rmaQp => some (singleAt (.newSingle op rmaQp) 0 ())
  | .write (.imm op) rmaQp => some (singleAt (.newImm op rmaQp) 0 ())
  | .write (.paged op) rmaQp => (PagedWriteOpIter.fillChain wrChainLen (.template op rmaQp)).map .paged
  | .scatter op qpList => (op.shard op.dstBeg).map (scatterAt op qpList op.dstBeg)

theorem new_eq (op : RdmaOp Qp) (asserted : op.Asserted) : WriteOpIter.new op = start op := by
  cases op with
  | write op rmaQp =>
    cases op with
    | single op => rfl
    | imm op => rfl
    | paged op =>
      simp only [RdmaOp.Asserted, WriteOp.Asserted] at asserted
      simp only [WriteOpIter.new, PagedWriteOpIter.new, if_pos asserted, start]
  | scatter op qpList =>
    simp only [RdmaOp.Asserted] at asserted
    simp only [WriteOpIter.new, ScatterWriteOpIter.new, if_pos asserted]
    exact fillWr_scatter op qpList op.dstBeg (ScatterWriteOpIter.template op qpList).wr rfl rfl rfl

theorem asserted_of_new {op : RdmaOp Qp} (made : WriteOpIter.new op = some iter) : op.Asserted := by
  cases op with
  | write op rmaQp =>
    cases op with
    | single op => trivial
    | imm op => trivial
    | paged op =>
      by_contra refused
      simp only [RdmaOp.Asserted, WriteOp.Asserted] at refused
      simp [WriteOpIter.new, PagedWriteOpIter.new, if_neg refused] at made
  | scatter op qpList =>
    by_contra refused
    simp only [RdmaOp.Asserted] at refused
    simp [WriteOpIter.new, ScatterWriteOpIter.new, if_neg refused] at made

theorem left_new {op : RdmaOp Qp} (made : WriteOpIter.new op = some iter) : Left op iter (requests op) := by
  have asserted := asserted_of_new made
  rw [new_eq op asserted] at made
  cases op with
  | write op rmaQp =>
    cases op with
    | single op =>
      cases made
      exact .start (Nat.zero_le 1) fun _ => rfl
    | imm op =>
      cases made
      exact .start (Nat.zero_le 1) fun _ => rfl
    | paged op =>
      obtain ⟨iter, filled, rfl⟩ := map_eq_some_iff.mp made
      rw [template_eq] at filled
      obtain ⟨buf, rfl, ring⟩ := (ring_start op rmaQp).fillChain (Nat.le_add_left ..) filled
      exact .ring ring
  | scatter op qpList =>
    obtain ⟨part, found, rfl⟩ := map_eq_some_iff.mp made
    exact .start (Nat.le_of_lt asserted.1) fun _ => found

theorem new_goes {op : RdmaOp Qp} (asserted : op.Asserted) (buildable : ∀ request ∈ requests op, request.isSome) :
    ∃ iter, WriteOpIter.new op = some iter := by
  rw [new_eq op asserted]
  cases op with
  | write op rmaQp =>
    cases op with
    | single op => exact ⟨_, rfl⟩
    | imm op => exact ⟨_, rfl⟩
    | paged op =>
      obtain ⟨iter, filled⟩ := (ring_start op rmaQp).fillChain_goes rmaQp wrChainLen (by
        intro n _ inside
        have known := buildable _ (List.mem_map_of_mem (mem_range'_1.mpr ⟨Nat.le_add_right op.pageIndicesBeg n, by omega⟩))
        rwa [isSome_map] at known)
      rw [← template_eq] at filled
      simp only [start, filled, map_some]
      exact ⟨_, rfl⟩
  | scatter op qpList =>
    have first := buildable _ (List.mem_map_of_mem (mem_range'_1.mpr ⟨Nat.le_refl op.dstBeg, by have := asserted.1; omega⟩))
    rw [isSome_map] at first
    obtain ⟨part, found⟩ := isSome_iff_exists.mp first
    simp only [start, found, map_some]
    exact ⟨_, rfl⟩

end Verbs

/-- The messages that the EFA iterator of an operation hands out when it is run to
the end. -/
def EfaYields (op : RdmaOp FiAddr) (msgs : List (Efa.FiMsgRma × Bool)) : Prop :=
  ∃ iter, Efa.WriteOpIter.new op = some iter ∧ Yields Efa.cursor iter msgs

theorem efaYields_iff (op : RdmaOp FiAddr) (msgs : List (Efa.FiMsgRma × Bool)) :
    EfaYields op msgs ↔ op.Asserted ∧ Efa.requests op = msgs.map some :=
  (Efa.left_reads op).made_iff (fun _ => Efa.left_new) (fun _ => Efa.asserted_of_new) Efa.new_goes msgs

/-- The work requests that the Verbs iterator of an operation hands out when it is run
to the end. -/
def VerbsYields (op : RdmaOp Qp) (wrs : List (Qp × Verbs.WorkRequest)) : Prop :=
  ∃ iter, Verbs.WriteOpIter.new op = some iter ∧ Yields Verbs.cursor iter wrs

theorem verbsYields_iff (op : RdmaOp Qp) (wrs : List (Qp × Verbs.WorkRequest)) :
    VerbsYields op wrs ↔ op.Asserted ∧ Verbs.requests op = wrs.map some :=
  (Verbs.left_reads op).made_iff (fun _ => Verbs.left_new) (fun _ => Verbs.asserted_of_new) Verbs.new_goes wrs

end PplxGarden.Fabric
