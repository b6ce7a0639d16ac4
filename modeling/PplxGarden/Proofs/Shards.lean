import PplxGarden.Proofs.Providers
import PplxGarden.Proofs.Submission

/-! The byte ranges of a single transfer. They follow one another from zero on, and they
reach the end unless a share is a multiple of 8 KiB and some bytes are left over. A Verbs
domain also cuts the length of a range to 32 bits. -/

namespace PplxGarden.Fabric.Proofs
open List

/-- Ranges of bytes that make up a transfer. -/
structure Partition (totalSize numShards : Nat) (ranges : List (Nat × Nat)) : Prop where
  count : ranges.length = numShards
  consecutive : ∀ before range after, ranges.filter (fun range => 0 < range.2) =
    before ++ range :: after → range.1 = (before.map (·.2)).sum
  whole : (ranges.map (·.2)).sum = totalSize
  empty : ∀ range ∈ ranges, range.2 = 0 → range = (0, 0)

def Reaches (totalSize numShards : Nat) : Prop := numShards ∣ totalSize ∨ ¬ 8192 ∣ totalSize / numShards

/-- No shard has more than `2 ^ 32 - 1` bytes. -/
def ShortShards (totalSize numShards : Nat) : Prop := totalSize < 2 ^ 32 ∨ totalSize / numShards ≤ 2 ^ 32 - 8192

/-- The number of bytes that the requests for a write operation write. -/
def WritesBytes {ρ : Type} (yields : DomainAddress → WriteOp → List ρ → Prop)
    (view : ρ → RemoteWrite) : DomainOp → Nat → Prop
  | .write addr op, count =>
    ∃ requests, yields addr op requests ∧
      (requests.map fun request => (view request).length).sum = count
  | .groupWrite .., _ => False

/-- Posted write operations write that many bytes together. -/
def WriteInAll {ρ : Type} {N : Nat} (yields : DomainAddress → WriteOp → List ρ → Prop) (view : ρ → RemoteWrite)
    (posted : List (Posted N)) (length : Nat) : Prop :=
  ∃ counts, Forall₂ (fun op count => WritesBytes yields view op.op count) posted counts ∧ counts.sum = length

/-- What the iterators of EFA domains hand out for a write to an address. -/
def efaWrites (fiAddr : DomainAddress → FiAddr) (addr : DomainAddress) (op : WriteOp) :
    List (Efa.FiMsgRma × Bool) → Prop :=
  EfaYields (.write op (fiAddr addr))

def verbsWrites (qp : DomainAddress → Qp) (addr : DomainAddress) (op : WriteOp) :
    List (Qp × Verbs.WorkRequest) → Prop :=
  VerbsYields (.write op (qp addr))

private theorem roundUp_of_dvd {value multiple : Nat} (positive : 0 < multiple)
    (whole : multiple ∣ value) : roundUp value multiple = value := by
  obtain ⟨times, rfl⟩ := whole
  rw [roundUp, divCeil, show multiple * times + multiple - 1 = multiple - 1 + multiple *
    times by omega, Nat.add_mul_div_left _ _ positive,
    Nat.div_eq_of_lt (by omega), Nat.zero_add, Nat.mul_comm]

private theorem lt_roundUp {value multiple : Nat} (positive : 0 < multiple)
    (rest : ¬ multiple ∣ value) : value < roundUp value multiple := by
  have reach : value ≤ roundUp value multiple := by
    rw [roundUp, Nat.mul_comm]
    exact divCeil_mul positive
  refine Nat.lt_of_le_of_ne reach fun same => rest ?_
  rw [same, roundUp]
  exact Nat.dvd_mul_left ..

theorem reaches_iff (totalSize : Nat) {numShards : Nat} (positive : 0 < numShards) :
    totalSize ≤ numShards * roundUp (totalSize / numShards) 8192 ↔ Reaches totalSize numShards := by
  have split := Nat.div_add_mod totalSize numShards
  have small := Nat.mod_lt totalSize positive
  unfold Reaches
  by_cases whole : 8192 ∣ totalSize / numShards
  · rw [roundUp_of_dvd (by decide) whole, Nat.dvd_iff_mod_eq_zero]
    constructor
    · intro reach
      exact .inl (by omega)
    · intro reach
      have none_ := reach.resolve_right fun rest => rest whole
      omega
  · have share := Nat.mul_le_mul_left numShards (lt_roundUp (by decide) whole)
    rw [Nat.mul_succ] at share
    exact ⟨fun _ => .inr whole, fun _ => by omega⟩

section
variable {totalSize numShards : Nat}

private theorem shards_bytes (rounds offset : Nat) :
    ((shardSingleTransfer.go totalSize numShards rounds offset).map (·.2)).sum =
      min (rounds * roundUp (totalSize / numShards) 8192) (totalSize - offset) := by
  induction rounds generalizing offset with
  | zero => simp [shardSingleTransfer.go]
  | succ rounds ih =>
    rw [shardSingleTransfer.go, Nat.succ_mul]
    generalize roundUp (totalSize / numShards) 8192 = base at ih ⊢
    generalize rounds * base = share at ih ⊢
    split
    next =>
      rw [map_cons, sum_cons, ih]
      omega
    next =>
      rw [map_cons, sum_cons, ih]
      omega

theorem shards_consecutive (rounds : Nat) {offset : Nat} {before after : List (Nat × Nat)}
    {range : Nat × Nat}
    (split : (shardSingleTransfer.go totalSize numShards rounds offset).filter (fun range => 0 <
      range.2) = before ++ range :: after) : range.1 = offset + (before.map (·.2)).sum := by
  induction rounds generalizing offset before with
  | zero => simp [shardSingleTransfer.go] at split
  | succ rounds ih =>
    rw [shardSingleTransfer.go] at split
    split at split
    next some_ =>
      rw [filter_cons_of_pos (by simpa using some_)] at split
      cases before with
      | nil =>
        cases split
        rfl
      | cons first before =>
        obtain ⟨rfl, rest⟩ := List.cons.inj split
        rw [ih rest, map_cons, sum_cons, Nat.add_assoc]
    next none_ =>
      rw [filter_cons_of_neg (by simp)] at split
      exact ih split

private theorem shards_empty (rounds offset : Nat) :
    ∀ range ∈ shardSingleTransfer.go totalSize numShards rounds offset, range.2 = 0 → range = (0, 0) := by
  induction rounds generalizing offset with
  | zero => simp [shardSingleTransfer.go]
  | succ rounds ih =>
    intro range member nothing
    rw [shardSingleTransfer.go] at member
    split at member
    next some_ =>
      rcases mem_cons.mp member with rfl | later
      · exact absurd nothing (Nat.ne_of_gt some_)
      · exact ih _ range later nothing
    next =>
      rcases mem_cons.mp member with rfl | later
      · rfl
      · exact ih _ range later nothing

theorem whole_iff (positive : 0 < numShards) :
    ((shardSingleTransfer totalSize numShards).map (·.2)).sum = totalSize ↔ Reaches totalSize numShards := by
  rw [shardSingleTransfer, shards_bytes, ← reaches_iff totalSize positive]
  omega

end

private theorem shards_le (totalSize numShards rounds offset : Nat) :
    ∀ range ∈ shardSingleTransfer.go totalSize numShards rounds offset,
      range.2 ≤ min (roundUp (totalSize / numShards) 8192) totalSize := by
  induction rounds generalizing offset with
  | zero => simp [shardSingleTransfer.go]
  | succ rounds ih =>
    intro range member
    rw [shardSingleTransfer.go] at member
    split at member
    next =>
      rcases mem_cons.mp member with rfl | later
      · simp only
        omega
      · exact ih _ range later
    next =>
      rcases mem_cons.mp member with rfl | later
      · exact Nat.zero_le _
      · exact ih _ range later

private theorem first_shard (totalSize : Nat) {numShards : Nat} (positive : 0 < numShards) :
    ∃ range ∈ shardSingleTransfer totalSize numShards, range.2 =
      min (roundUp (totalSize / numShards) 8192) totalSize := by
  rw [shardSingleTransfer]
  cases positive' : numShards with
  | zero => omega
  | succ rounds =>
    rw [shardSingleTransfer.go]
    split
    next => exact ⟨_, mem_cons_self, rfl⟩
    next empty => exact ⟨_, mem_cons_self, by simp only; omega⟩

private theorem roundUp_lt_iff (value : Nat) : roundUp value 8192 < 2 ^ 32 ↔ value ≤ 2 ^ 32 - 8192 := by
  rw [roundUp, divCeil]
  omega

private theorem shards_short_iff (totalSize : Nat) {numShards : Nat} (positive : 0 < numShards) :
    (∀ range ∈ shardSingleTransfer totalSize numShards, range.2 < 2 ^ 32) ↔ ShortShards totalSize numShards := by
  have longest := roundUp_lt_iff (totalSize / numShards)
  unfold ShortShards
  constructor
  · intro short
    obtain ⟨range, member, long⟩ := first_shard totalSize positive
    have below := short range member
    omega
  · intro short range member
    have below := shards_le totalSize numShards numShards 0 range member
    omega

/-- Numbers that are cut to 32 bits keep their sum exactly if none of them is cut. -/
private theorem sum_asU32 (counts : List Nat) :
    (counts.map asU32).sum ≤ counts.sum ∧ ((counts.map asU32).sum = counts.sum ↔
      ∀ count ∈ counts, count < 2 ^ 32) := by
  induction counts with
  | nil => simp
  | cons count counts ih =>
    obtain ⟨bound, exact_⟩ := ih
    have cut : asU32 count ≤ count := Nat.mod_le _ _
    have whole := asU32_eq_iff (n := count)
    rw [map_cons, sum_cons, sum_cons, forall_mem_cons, ← exact_, ← whole]
    omega

private theorem writeInAll_iff {ρ : Type} {N : Nat}
    {yields : DomainAddress → WriteOp → List ρ → Prop} {view : ρ → RemoteWrite}
    (length : Posted N → Nat) {posted : List (Posted N)}
    (each : ∀ op ∈ posted, ∀ count, WritesBytes yields view op.op count ↔ count = length op)
    (total : Nat) : WriteInAll yields view posted total ↔ (posted.map length).sum = total := by
  have counted : ∀ counts, Forall₂ (fun op count => WritesBytes yields view op.op count) posted
      counts ↔ counts = posted.map length := by
    induction posted with
    | nil =>
      intro counts
      rw [forall₂_nil_left_iff, map_nil]
    | cons op posted ih =>
      intro counts
      have rest := ih fun other member => each other (mem_cons_of_mem _ member)
      rw [forall₂_cons_left_iff, map_cons]
      constructor
      · rintro ⟨count, counts, written, others, rfl⟩
        rw [(each op mem_cons_self count).mp written, (rest counts).mp others]
      · rintro rfl
        exact ⟨_, _, (each op mem_cons_self _).mpr rfl, (rest _).mpr rfl, rfl⟩
  unfold WriteInAll
  simp only [counted, exists_eq_left]

section
variable {N : Nat} (group : DomainGroup N) (id : TransferId) (request : SingleTransferRequest)

/-- The number of bytes in the shard that an operation is made for. -/
private def shardLength (op : Posted N) : Nat :=
  match op.op with
  | .write _ (.single op) => op.length
  | _ => 0

private theorem shardLengths : (singleOps group id request).map shardLength =
    (shardSingleTransfer request.length (numShards request.domain)).map (·.2) := by
  have lengths : (singleOps group id request).map shardLength =
      ((shardSingleTransfer request.length (numShards request.domain)).zipIdx.map Prod.fst).map (·.2) := by
    rw [singleOps, map_map, map_map]
    rfl
  rw [lengths, zipIdx_map_fst]

private theorem singleOps_op {op : Posted N} (member : op ∈ singleOps group id request) :
    ∃ addr write, op.op = .write addr (.single write) := by
  obtain ⟨_, _, rfl⟩ := mem_map.mp member
  exact ⟨_, _, rfl⟩

private theorem efa_writeInAll (fiAddr : DomainAddress → FiAddr) (total : Nat) :
    WriteInAll (efaWrites fiAddr) Efa.remoteWrite (singleOps group id request) total ↔
      ((shardSingleTransfer request.length (numShards request.domain)).map (·.2)).sum = total := by
  rw [← shardLengths group id request]
  apply writeInAll_iff
  intro op member count
  obtain ⟨addr, write, same⟩ := singleOps_op group id request member
  simp only [WritesBytes, efaWrites, shardLength, same,
    efaYields_singleton (.write (.single write) (fiAddr addr)) trivial rfl, exists_eq_left, map_cons, map_nil,
    sum_singleton, Efa.remoteWrite, Efa.SingleWriteOpIter.newSingle, Option.map_some, Option.getD_some]
  exact eq_comm

private theorem verbs_writeInAll (qp : DomainAddress → Qp) (total : Nat) :
    WriteInAll (verbsWrites qp) (fun wr => Verbs.remoteWrite wr.2) (singleOps group id request) total ↔
      (((shardSingleTransfer request.length (numShards request.domain)).map (·.2)).map asU32).sum = total := by
  rw [← shardLengths group id request, map_map]
  apply writeInAll_iff
  intro op member count
  obtain ⟨addr, write, same⟩ := singleOps_op group id request member
  simp only [WritesBytes, verbsWrites, shardLength, same, Function.comp_apply,
    verbsYields_singleton (.write (.single write) (qp addr)) trivial rfl, exists_eq_left, map_cons, map_nil,
    sum_singleton, Verbs.remoteWrite, Verbs.SingleWriteOpIter.newSingle, Option.map_some, Option.getD_some]
  exact eq_comm

end

private theorem whole_short_iff (totalSize : Nat) {numShards : Nat} (positive : 0 < numShards) :
    (((shardSingleTransfer totalSize numShards).map (·.2)).map asU32).sum = totalSize ↔
      Reaches totalSize numShards ∧ ShortShards totalSize numShards := by
  obtain ⟨bound, whole⟩ := sum_asU32 ((shardSingleTransfer totalSize numShards).map (·.2))
  have most : ((shardSingleTransfer totalSize numShards).map (·.2)).sum ≤ totalSize := by
    rw [shardSingleTransfer, shards_bytes]
    omega
  rw [← whole_iff positive, ← shards_short_iff totalSize positive, ← forall_mem_map (f :=
    Prod.snd) (P := (· < 2 ^ 32)), ← whole]
  omega

theorem shards_partition_iff (totalSize numShards : Nat) (positive : 0 < numShards) :
    (Partition totalSize numShards (shardSingleTransfer totalSize numShards) ↔
      Reaches totalSize numShards) ∧
      ∀ (N : Nat) (group after : DomainGroup
        N) (id : TransferId) (request : SingleTransferRequest) (txCounter : Bool),
        submitTransferRequest group id (.single request) txCounter = some (.ok (), after) →
        ∀ (fiAddr : DomainAddress → FiAddr) (qp : DomainAddress → Qp),
          (WriteInAll (efaWrites fiAddr) Efa.remoteWrite (after.posted.drop group.posted.length)
            request.length ↔
            Reaches request.length (Proofs.numShards request.domain)) ∧
          (WriteInAll (verbsWrites qp) (fun wr => Verbs.remoteWrite wr.2)
            (after.posted.drop group.posted.length) request.length ↔
            Reaches request.length (Proofs.numShards request.domain) ∧
              ShortShards request.length (Proofs.numShards request.domain)) := by
  refine ⟨⟨fun partition => (whole_iff positive).mp partition.whole, fun reaches => ?_⟩, ?_⟩
  · refine ⟨shardSingleTransfer_length .., ?_, (whole_iff positive).mpr reaches, shards_empty numShards 0⟩
    intro before range after split
    rw [shards_consecutive numShards split, Nat.zero_add]
  · intro N group after id request txCounter accepted fiAddr qp
    rw [accepted_posts accepted, drop_left, acceptedOps]
    constructor
    · rw [efa_writeInAll, whole_iff (numShards_pos _)]
    · rw [verbs_writeInAll, whole_short_iff _ (numShards_pos _)]

theorem shards_partition_uneven : Partition 20001 2 (shardSingleTransfer 20001 2) :=
  (shards_partition_iff 20001 2 (by decide)).1.mpr (.inr (by decide))

/-- One transfer of `length` bytes over two domains. -/
def twoShards (length : Nat) : SingleTransferRequest :=
  ⟨5, 0, length, none, ⟨100, [(10, 1), (11, 2)]⟩, 0, .roundRobinSharded ⟨2, Nat.two_pos⟩⟩

def shardedGroup : DomainGroup 2 := .new Nat.two_pos fun _ => .ofRegions fun _ => some 1

/-- A byte that is left over is not written, nor is a transfer with fewer bytes than shards.
A Verbs domain writes nothing of a shard of `2 ^ 32` bytes. -/
theorem shards_fall_short :
    (¬ Partition 1 2 (shardSingleTransfer 1 2) ∧
      ¬ Partition 16385 2 (shardSingleTransfer 16385 2)) ∧
      (∃ after, submitTransferRequest shardedGroup 0 (.single (twoShards 16385)) false =
        some (.ok (), after) ∧
        WriteInAll (efaWrites id) Efa.remoteWrite (after.posted.drop shardedGroup.posted.length)
          16384) ∧
      ∃ after, submitTransferRequest shardedGroup 0 (.single (twoShards (2 ^ 33))) false =
        some (.ok (), after) ∧
        WriteInAll (verbsWrites id) (fun wr => Verbs.remoteWrite wr.2)
          (after.posted.drop shardedGroup.posted.length) 0 := by
  have accepts : ∀ length, ∃ after,
      submitTransferRequest shardedGroup 0 (.single (twoShards length)) false = some (.ok (), after) ∧
        after.posted.drop shardedGroup.posted.length = singleOps shardedGroup 0 (twoShards length) := by
    intro length
    have accepts : Accepts shardedGroup (.single (twoShards length)) := ⟨rfl, Nat.le_refl _, nofun, fun _ _ => rfl⟩
    obtain ⟨after, accepted⟩ := submits_of_accepts shardedGroup 0 false accepts
    refine ⟨after, accepted, ?_⟩
    rw [accepted_posts accepted, drop_left]
    rfl
  refine ⟨⟨fun partition => ?_, fun partition => ?_⟩, ?_, ?_⟩
  · exact absurd partition.whole (by decide)
  · exact absurd partition.whole (by decide)
  · obtain ⟨after, accepted, posted⟩ := accepts 16385
    refine ⟨after, accepted, ?_⟩
    rw [posted, efa_writeInAll]
    decide
  · obtain ⟨after, accepted, posted⟩ := accepts (2 ^ 33)
    refine ⟨after, accepted, ?_⟩
    rw [posted, verbs_writeInAll]
    decide

end PplxGarden.Fabric.Proofs
