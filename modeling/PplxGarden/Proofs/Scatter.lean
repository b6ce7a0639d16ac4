import Mathlib.Data.List.Perm.Basic
import PplxGarden.Proofs.Providers
import PplxGarden.Proofs.Submission

/-! The bytes that a scatter writes. The parts of all domains together write every
target once, unless a length does not fit 32 bits or is not divided by the number of
domains that share it. -/

namespace PplxGarden.Fabric.Proofs
open Library Cursor List Nat
variable {count j n k N i : Nat} {ρ : Type} {yields : ScatterGroupWriteOp → List ρ → Prop}
  {view : ρ → RemoteWrite} {base : ScatterTarget MemoryRegionDescriptor → Nat}
  {target : ScatterTarget MemoryRegionDescriptor} {op : ScatterGroupWriteOp}

/-! How the parts cut the bytes of one target. -/

/-- The bytes of a target that a part writes, counted from the start of the target. -/
def ScatterPart.share (part : ScatterPart) (length : Nat) : List Nat :=
  match byteShard part.byteShards part.byteShardIdx length with
  | some (len, offset) => range' offset len
  | none => []

def shares (parts : List ScatterPart) (j length : Nat) : List Nat :=
  parts.flatMap fun part => if part.dstBeg ≤ j ∧ j < part.dstEnd then ScatterPart.share part length else []

private theorem range'_flatMap_single {α : Type} (list : List α) (first count j : Nat) :
    (range' first count).flatMap (fun k => if k = j then list else []) =
      if first ≤ j ∧ j < first + count then list else [] := by
  induction count generalizing first with
  | zero => rw [if_neg (by omega)]; rfl
  | succ count ih =>
    rw [range'_succ, flatMap_cons, ih]
    by_cases here : first = j
    · rw [if_pos here, if_neg (by omega), if_pos (by omega), append_nil]
    · rw [if_neg here, nil_append]
      exact if_congr (by omega) rfl rfl

private theorem take_range' {first taken : Nat} (short : taken ≤ count) :
    (range' first count).take taken = range' first taken := by
  rw [← add_sub_of_le short, ← range'_append_1, take_left' length_range']

private theorem go_inside (rounds beg remainder : Nat) (ends : beg + remainder ≤ n) :
    ∀ range ∈ divideEvenly.go n k rounds beg remainder, range.1 < range.2 ∧ range.2 ≤ n := by
  induction rounds generalizing beg remainder with
  | zero =>
    intro range member
    cases member
  | succ rounds ih =>
    intro range member
    rw [divideEvenly.go] at member
    split at member
    next => cases member
    next some_ =>
      cases member with
      | head => exact ⟨Nat.lt_add_of_pos_right (Nat.pos_of_ne_zero some_), by simp only; omega⟩
      | tail _ later => exact ih _ _ (by omega) range later

theorem divideEvenly_inside : ∀ range ∈ divideEvenly n k, range.1 < range.2 ∧ range.2 ≤ n :=
  go_inside k 0 n (by omega)

theorem divideEvenly_flatMap {α : Type} (positive : 0 < k) (list : List α) (inside : j < count) :
    (divideEvenly count k).flatMap (fun range => if range.1 ≤ j ∧ j < range.2 then list else []) = list := by
  have slices := divideEvenly_slices positive (List.range count)
  rw [length_range] at slices
  have found := congrArg (flatMap fun k => if k = j then list else []) slices
  rw [flatMap_assoc, range_eq_range', range'_flatMap_single, if_pos (by omega)] at found
  refine Eq.trans (flatMap_congr fun range member => ?_) found
  obtain ⟨some_, fits⟩ := divideEvenly_inside range member
  obtain ⟨first, last⟩ := range
  simp only at some_ fits ⊢
  rw [drop_range', take_range' (by omega), range'_flatMap_single]
  exact if_congr (by omega) rfl rfl

private theorem asU32_zero : asU32 0 = 0 := rfl

private theorem asU32_one : asU32 1 = 1 := rfl

private theorem share_whole (domainIdx dstBeg dstEnd length : Nat) :
    ScatterPart.share ⟨domainIdx, dstBeg, dstEnd, 1, 0⟩ length = List.range (asU32 length) := by
  simp [ScatterPart.share, byteShard, asU32_zero, asU32_one, range_eq_range']

private theorem range_perm_iff {m : Nat} : (List.range m).Perm (List.range n) ↔ m = n := by
  constructor
  · intro perm
    simpa using perm.length_eq
  · rintro rfl
    exact .refl _

private theorem range_blocks (len count : Nat) :
    (List.range count).flatMap (fun i => range' (len * i) len) = List.range (len * count) := by
  induction count with
  | zero => rfl
  | succ count ih =>
    rw [range_succ, flatMap_append, ih, Nat.mul_add_one, range_eq_range', range_eq_range', ← range'_append_1]
    simp

/-- A target cut by bytes is written once exactly if the domains divide its length. -/
theorem shares_bytes {length : Nat} (positive : 0 < N) (narrow : asU32 N ≠ 0) :
    ((List.range N).flatMap fun i => range' (asU32 (asU32 length / asU32 N * asU32 i))
      (asU32 length / asU32 N)).Perm (List.range length) ↔
      length < 2 ^ 32 ∧ N ∣ length := by
  generalize known : asU32 length / asU32 N = len
  constructor
  · intro perm
    have size := perm.length_eq
    have distinct := perm.nodup_iff.mpr nodup_range
    simp only [length_flatMap, length_range', map_const', length_range, sum_replicate_nat] at size
    by_cases few : N < 2 ^ 32
    · rw [asU32_eq_iff.mpr few] at known
      have fits : N * len ≤ asU32 length := by
        rw [← known]
        exact mul_div_le ..
      have below : asU32 length < 2 ^ 32 := mod_lt _ (by decide)
      exact ⟨by omega, ⟨len, size.symm⟩⟩
    · -- shards whose numbers agree modulo 2^32 write the same bytes
      have more : 2 ^ 32 < N := by
        refine Nat.lt_of_le_of_ne (Nat.le_of_not_lt few) ?_
        rintro rfl
        exact narrow rfl
      have empty : len = 0 := by
        by_contra some_
        have apart := pairwise_iff_getElem.mp (nodup_flatMap.mp distinct).2 0 (2 ^ 32)
          (by simpa using positive) (by simpa using more)
          (by decide)
        simp only [Function.onFun, getElem_range] at apart
        have first : asU32 (len * asU32 0) = asU32 (len * asU32 (2 ^ 32)) := rfl
        rw [first] at apart
        have member := mem_range'_1.mpr ⟨Nat.le_refl (asU32 (len * asU32 (2 ^ 32))),
          Nat.lt_add_of_pos_right (Nat.pos_of_ne_zero some_)⟩
        exact apart member member
      subst empty
      rw [mul_zero] at size
      rw [← size]
      exact ⟨by decide, 0, rfl⟩
  · rintro ⟨short, count, rfl⟩
    rw [asU32_eq_iff.mpr short] at known
    by_cases few : N < 2 ^ 32
    · rw [asU32_eq_iff.mpr few, Nat.mul_div_cancel_left _ positive] at known
      subst known
      have blocks := range_blocks count N
      rw [Nat.mul_comm] at blocks
      rw [← blocks]
      refine .of_eq (flatMap_congr fun i member => ?_)
      have bound := mem_range.mp member
      have small : count * i < 2 ^ 32 :=
        Nat.lt_of_le_of_lt (Nat.mul_comm count i ▸ Nat.mul_le_mul_right count (Nat.le_of_lt bound))
        short
      rw [asU32_eq_iff.mpr (Nat.lt_trans bound few), asU32_eq_iff.mpr small]
    · have zero : count = 0 := by
        by_contra some_
        have large := Nat.le_mul_of_pos_right N (Nat.pos_of_ne_zero some_)
        omega
      subst zero
      rw [mul_zero, Nat.zero_div] at known
      subst known
      simp

theorem shares_peers (positive : 0 < N) (inside : j < count) (length : Nat) :
    shares (scatterParts .allDomainsShardPeers N count) j length = List.range (asU32 length) := by
  have ranges : ((List.range N).zip (divideEvenly count N)).map Prod.snd = divideEvenly count N :=
    map_snd_zip (by simpa using divideEvenly_length count N)
  calc shares (scatterParts .allDomainsShardPeers N count) j length
      = (((List.range N).zip (divideEvenly count N)).map Prod.snd).flatMap
          (fun range => if range.1 ≤ j ∧ j < range.2 then List.range (asU32 length) else []) := by
        simp only [shares, scatterParts, flatMap_map, share_whole]
    _ = List.range (asU32 length) := by rw [ranges, divideEvenly_flatMap positive _ inside]

/-- A target is written once exactly if its length fits 32 bits and the domains that
share its bytes divide it. -/
theorem shares_perm_iff (positive : 0 < N) (inside : j < count) {routing : GroupTransferRouting}
    (narrow : routing = .allDomainsShardBytes → asU32 N ≠ 0) (length : Nat) :
    (shares (scatterParts routing N count) j length).Perm (List.range length) ↔
      length < 2 ^ 32 ∧ (routing = .allDomainsShardBytes → N ∣ length) := by
  cases routing with
  | allDomainsShardPeers =>
    rw [shares_peers positive inside, range_perm_iff, asU32_eq_iff]
    simp
  | single domainIdx =>
    have whole : shares (scatterParts (.single domainIdx) N count) j length = List.range (asU32 length) := by
      simp [shares, scatterParts, share_whole, inside]
    rw [whole, range_perm_iff, asU32_eq_iff]
    simp
  | allDomainsShardBytes =>
    have cut : shares (scatterParts .allDomainsShardBytes N count) j length =
        (List.range N).flatMap fun i => range' (asU32 (asU32 length / asU32 N * asU32 i)) (asU32 length / asU32 N) := by
      simp only [shares, scatterParts, flatMap_map]
      refine flatMap_congr fun i _ => ?_
      rw [if_pos ⟨Nat.zero_le j, inside⟩, ScatterPart.share, byteShard, if_neg (narrow rfl)]
    rw [cut, shares_bytes positive (narrow rfl)]
    simp

/-! What the iterators write. -/

/-- The bytes a write moves, each from its source address to its remote address. -/
def RemoteWrite.bytes (write : RemoteWrite) : List (Nat × Nat) :=
  (List.range write.length).map fun x => (write.source.getD 0 + x, write.remoteAddr + x)

/-- The bytes of a target, where remote addresses count from `base`. -/
def targetBytes (srcPtr base : Nat) (target : ScatterTarget MemoryRegionDescriptor)
    (shares : List Nat) : List (Nat × Nat) :=
  shares.map fun x => (srcPtr + target.srcOffset + x, base + target.dstOffset + x)

/-- The writes a domain carries out for a scatter operation: an operation without a
handle reads the addresses of all its targets first. -/
structure Scatters {ρ : Type} (handle : Option PeerGroupHandle)
    (yields : ScatterGroupWriteOp → List ρ → Prop) (view : ρ → RemoteWrite)
    (op : ScatterGroupWriteOp) (writes : List RemoteWrite) : Prop where
  addressed : handle = none → op.peerAddrs.isSome
  yielded : ∃ requests, yields op requests ∧ writes = requests.map view

def writeTo (op : ScatterGroupWriteOp) (writes : List RemoteWrite) (j : Nat) : Option RemoteWrite :=
  if op.dstBeg ≤ j ∧ j < op.dstEnd then writes[j - op.dstBeg]? else none

/-- Every target is written completely and once by the operations together. -/
def Covers (scatters : ScatterGroupWriteOp → List RemoteWrite → Prop)
    (base : ScatterTarget MemoryRegionDescriptor → Nat) (request : ScatterTransferRequest)
    (ops : List ScatterGroupWriteOp) : Prop :=
  ∃ writes : ScatterGroupWriteOp → List RemoteWrite, (∀ op ∈ ops, scatters op (writes op)) ∧
    ∀ j target, request.dsts[j]? = some target →
      (ops.flatMap fun op => ((writeTo op (writes op) j).map RemoteWrite.bytes).getD []).Perm
        (targetBytes request.srcMr (base target) target (List.range target.length))

def partBytes (op : ScatterGroupWriteOp) (base : ScatterTarget MemoryRegionDescriptor → Nat)
    (part : TargetShard) : List (Nat × Nat) :=
  targetBytes op.srcPtr (base part.target) part.target (range' part.offset part.len)

def InRange (op : ScatterGroupWriteOp) : Prop := op.dstBeg < op.dstEnd ∧ op.dstEnd ≤ op.dsts.length

/-- What an iterator yields: the parts of all targets in range, in order. -/
structure Provides {ρ : Type} (yields : ScatterGroupWriteOp → List ρ → Prop) (view : ρ → RemoteWrite)
    (base : ScatterTarget MemoryRegionDescriptor → Nat) : Prop where
  sound : ∀ {op requests}, yields op requests → ∃ parts : List TargetShard,
    (range' op.dstBeg (op.dstEnd - op.dstBeg)).map op.shard = parts.map some ∧
      requests.map (fun request => RemoteWrite.bytes (view request)) = parts.map (partBytes op base)
  complete : ∀ {op} {parts : List TargetShard}, InRange op →
    (range' op.dstBeg (op.dstEnd - op.dstBeg)).map op.shard = parts.map some → ∃ requests, yields op requests

def destinations (dest : Nat → Nat → Nat) (op : ScatterGroupWriteOp) : List Nat :=
  (List.range op.dsts.length).map (dest op.domainIdx)

def efaScatter (addr : Nat → Nat → FiAddr) (op : ScatterGroupWriteOp) : List (Efa.FiMsgRma × Bool) → Prop :=
  EfaYields (.scatter op (destinations addr op))

def verbsScatter (qp : Nat → Nat → Qp) (op : ScatterGroupWriteOp) : List (Qp × Verbs.WorkRequest) → Prop :=
  VerbsYields (.scatter op (destinations qp op))

private theorem efa_provides (addr : Nat → Nat → FiAddr) :
    Provides (efaScatter addr) Efa.remoteWrite (fun _ => 0) where
  sound {op requests} yielded := by
    obtain ⟨-, parts, known, rfl⟩ := (efaYields_scatter op _ requests).mp yielded
    refine ⟨parts, known, ext_getElem (by simp) fun k _ inside => ?_⟩
    simp [partBytes, targetBytes, RemoteWrite.bytes, Efa.remoteWrite, Efa.targetMsg, range'_eq_map_range, Nat.add_assoc]
  complete {op parts} ranged known :=
    ⟨_, (efaYields_scatter op _ _).mpr ⟨⟨ranged.1, ranged.2, by simp [destinations]⟩, parts, known, rfl⟩⟩

private theorem verbs_provides (qp : Nat → Nat → Qp) :
    Provides (verbsScatter qp) (fun wr => Verbs.remoteWrite wr.2) (·.dstMr.ptr) where
  sound {op requests} yielded := by
    obtain ⟨-, parts, known, rfl⟩ := (verbsYields_scatter op _ requests).mp yielded
    refine ⟨parts, known, ext_getElem (by simp) fun k _ inside => ?_⟩
    simp [partBytes, targetBytes, RemoteWrite.bytes, Verbs.remoteWrite, Verbs.targetWr, range'_eq_map_range, Nat.add_assoc]
  complete {op parts} ranged known :=
    ⟨_, (verbsYields_scatter op _ _).mpr ⟨⟨ranged.1, ranged.2, by simp [destinations]⟩, parts, known, rfl⟩⟩

section
variable {N : Nat} {group : DomainGroup N} {request : ScatterTransferRequest} {part : ScatterPart}

theorem shard_isSome_iff (op : ScatterGroupWriteOp) (found : op.dsts[i]? = some target) :
    (op.shard i).isSome ↔ asU32 op.byteShards ≠ 0 ∧ op.domainIdx < target.dstMr.addrRkeyList.length := by
  simp only [ScatterGroupWriteOp.shard, found, byteShard, Option.bind_eq_bind, Option.bind_some]
  split
  next zero => simp [zero]
  next nonzero =>
    by_cases keyed : op.domainIdx < target.dstMr.addrRkeyList.length <;> simp [nonzero, keyed]

private theorem shard_share {piece : TargetShard} (found : op.shard i = some piece)
    (dstBeg dstEnd : Nat) :
    ScatterPart.share ⟨op.domainIdx, dstBeg, dstEnd, op.byteShards, op.byteShardIdx⟩
      piece.target.length = range' piece.offset piece.len := by
  simp only [ScatterGroupWriteOp.shard, Option.bind_eq_bind, Option.bind_eq_some_iff] at found
  obtain ⟨target, present, shard, cut, entry, keyed, built⟩ := found
  cases built
  simp only [ScatterPart.share, cut]

theorem share_bytes (provides : Provides yields view base) {writes : List RemoteWrite}
    (scatters : Scatters request.dstHandle yields view (scatterWrite group request part) writes)
    (found : request.dsts[j]? = some target) :
    ((writeTo (scatterWrite group request part) writes j).map RemoteWrite.bytes).getD [] =
      targetBytes request.srcMr (base target) target
        (if part.dstBeg ≤ j ∧ j < part.dstEnd then ScatterPart.share part target.length
          else []) := by
  obtain ⟨requests, yielded, rfl⟩ := scatters.yielded
  obtain ⟨parts, known, same⟩ := provides.sound yielded
  have size := congrArg List.length known
  simp only [length_map, length_range'] at size
  have ranged : (scatterWrite group request part).dstBeg = part.dstBeg ∧
    (scatterWrite group request part).dstEnd = part.dstEnd := ⟨rfl, rfl⟩
  rw [ranged.1, ranged.2] at size
  unfold writeTo
  rw [ranged.1, ranged.2]
  split
  next inside =>
    have bound : j - part.dstBeg < parts.length := by omega
    have piece := shard_of_parts known bound
    rw [ranged.1, add_sub_of_le inside.1] at piece
    have this_ : target = parts[j - part.dstBeg].target := Option.some.inj (found.symm.trans (shard_target piece))
    have bytes := congrArg (·[j - part.dstBeg]?) same
    rw [getElem?_map, getElem?_map, List.getElem?_eq_getElem bound] at bytes
    rw [getElem?_map, Option.map_map]
    refine (congrArg (·.getD []) bytes).trans ?_
    rw [this_]
    exact (congrArg (targetBytes request.srcMr _ _) (shard_share piece part.dstBeg part.dstEnd)).symm
  next outside => rfl

theorem shares_bytes_all (provides : Provides yields view base) (parts : List ScatterPart)
    {writes : ScatterGroupWriteOp → List RemoteWrite}
    (scatters : ∀ op ∈ parts.map (scatterWrite group request),
      Scatters request.dstHandle yields view op (writes op))
    (found : request.dsts[j]? = some target) :
    ((parts.map (scatterWrite group request)).flatMap fun op =>
      ((writeTo op (writes op) j).map RemoteWrite.bytes).getD []) =
      targetBytes request.srcMr (base target) target (shares parts j target.length) := by
  rw [flatMap_map, shares, targetBytes, map_flatMap]
  exact flatMap_congr fun part member => share_bytes provides (scatters _ (mem_map_of_mem member)) found

private theorem targetBytes_perm_iff {srcPtr base : Nat} {first second : List Nat} :
    (targetBytes srcPtr base target first).Perm (targetBytes srcPtr base target second) ↔ first.Perm second := by
  apply map_perm_map_iff
  intro x y same
  simp only [Prod.mk.injEq] at same
  omega

theorem scatterParts_ranged (routing : GroupTransferRouting) (some_ : 0 < count) :
    ∀ part ∈ scatterParts routing N count, part.dstBeg < part.dstEnd ∧ part.dstEnd ≤ count := by
  intro part member
  cases routing with
  | allDomainsShardPeers =>
    obtain ⟨⟨domainIdx, range⟩, paired, rfl⟩ := mem_map.mp member
    exact divideEvenly_inside range (of_mem_zip paired).2
  | allDomainsShardBytes =>
    obtain ⟨domainIdx, -, rfl⟩ := mem_map.mp member
    exact ⟨some_, Nat.le_refl count⟩
  | single domainIdx =>
    obtain rfl := mem_singleton.mp member
    exact ⟨some_, Nat.le_refl count⟩

private theorem scatterParts_byteShards {routing : GroupTransferRouting}
    (member : part ∈ scatterParts routing N count) :
    part.byteShards = 1 ∨ routing = .allDomainsShardBytes ∧ part.byteShards = N := by
  cases routing with
  | allDomainsShardPeers =>
    obtain ⟨_, -, rfl⟩ := mem_map.mp member
    exact .inl rfl
  | allDomainsShardBytes =>
    obtain ⟨_, -, rfl⟩ := mem_map.mp member
    exact .inr ⟨rfl, rfl⟩
  | single domainIdx =>
    obtain rfl := mem_singleton.mp member
    exact .inl rfl

/-- The domains of a group find an address and a key for every target they carry, and
for every target at all if the request has no handle. -/
def Keyed (N : Nat) (request : ScatterTransferRequest) : Prop :=
  ∀ part ∈ scatterParts request.domain N request.dsts.length, ∀ i target, request.dsts[i]? = some target →
    request.dstHandle = none ∨ part.dstBeg ≤ i ∧ i < part.dstEnd → part.domainIdx < target.dstMr.addrRkeyList.length

/-- Lengths fit 32 bits; domains that share bytes divide the lengths, and their number
does not vanish in 32 bits. -/
structure Divisible (N : Nat) (request : ScatterTransferRequest) : Prop where
  short : ∀ target ∈ request.dsts, target.length < 2 ^ 32
  divides : request.domain = .allDomainsShardBytes → ∀ target ∈ request.dsts, N ∣ target.length
  counted : request.domain = .allDomainsShardBytes → asU32 N ≠ 0

theorem peerAddrs_isSome_iff (op : ScatterGroupWriteOp) :
    op.peerAddrs.isSome ↔ ∀ target ∈ op.dsts, op.domainIdx < target.dstMr.addrRkeyList.length := by
  unfold ScatterGroupWriteOp.peerAddrs
  induction op.dsts with
  | nil => simp
  | cons target targets ih =>
    rw [mapM_cons, forall_mem_cons, ← ih]
    by_cases keyed : op.domainIdx < target.dstMr.addrRkeyList.length
    · rw [List.getElem?_eq_getElem keyed]
      cases mapM (fun dst : ScatterTarget MemoryRegionDescriptor =>
        (dst.dstMr.addrRkeyList[op.domainIdx]?).map Prod.fst) targets <;>
        simp [keyed]
    · rw [getElem?_eq_none (Nat.le_of_not_lt keyed)]
      simp [keyed]

private theorem buildable_of_scatters (provides : Provides yields view base)
    {writes : List RemoteWrite} (scatters : Scatters request.dstHandle yields view op writes) (low : op.dstBeg ≤ i)
    (high : i < op.dstEnd) : (op.shard i).isSome := by
  obtain ⟨requests, yielded, -⟩ := scatters.yielded
  obtain ⟨parts, known, -⟩ := provides.sound yielded
  have size := congrArg List.length known
  simp only [length_map, length_range'] at size
  have piece := shard_of_parts known (show i - op.dstBeg < parts.length by omega)
  rw [add_sub_of_le low] at piece
  rw [piece]
  rfl

theorem scatters_of_buildable (provides : Provides yields view base) (ranged : InRange op)
    (addressed : request.dstHandle = none → op.peerAddrs.isSome)
    (buildable : ∀ i, op.dstBeg ≤ i → i < op.dstEnd → (op.shard i).isSome) :
    ∃ writes, Scatters request.dstHandle yields view op writes := by
  obtain ⟨parts, known⟩ := exists_map_some
    (show ∀ item ∈ (range' op.dstBeg (op.dstEnd - op.dstBeg)).map op.shard, item.isSome by
    intro item member
    obtain ⟨i, listed, rfl⟩ := mem_map.mp member
    obtain ⟨low, high⟩ := mem_range'_1.mp listed
    exact buildable i low (by omega))
  obtain ⟨requests, yielded⟩ := provides.complete ranged known
  exact ⟨_, addressed, requests, yielded, rfl⟩

theorem covers_iff_of_provides (provides : Provides yields view base) (positive : 0 < N)
    (nonempty : request.dsts ≠ []) :
    Covers (Scatters request.dstHandle yields view) base request
        ((scatterParts request.domain N request.dsts.length).map (scatterWrite group request)) ↔
          Keyed N request ∧ Divisible N request := by
  have some_ : 0 < request.dsts.length := length_pos_iff.mpr nonempty
  have ranged := scatterParts_ranged (N := N) request.domain some_
  constructor
  · rintro ⟨writes, scatters, covered⟩
    have built : ∀ part ∈ scatterParts request.domain N request.dsts.length, ∀ i target, request.dsts[i]? = some target →
        part.dstBeg ≤ i → i < part.dstEnd → asU32 part.byteShards ≠ 0 ∧
          part.domainIdx < target.dstMr.addrRkeyList.length := by
      intro part member i target found low high
      have piece := buildable_of_scatters provides (scatters _ (mem_map_of_mem member)) low high
      exact (shard_isSome_iff (scatterWrite group request part) found).mp piece
    have counted : request.domain = .allDomainsShardBytes → asU32 N ≠ 0 := by
      intro routing
      have first : (⟨0, 0, request.dsts.length, N, 0⟩ : ScatterPart) ∈ scatterParts request.domain N
          request.dsts.length := by
        rw [routing]
        exact mem_map_of_mem (mem_range.mpr positive)
      exact (built _ first 0 _ (List.getElem?_eq_getElem some_) (Nat.zero_le 0) some_).1
    have whole : ∀ target ∈ request.dsts, target.length < 2 ^ 32 ∧
        (request.domain = .allDomainsShardBytes → N ∣ target.length) := by
      intro target member
      obtain ⟨j, found⟩ := mem_iff_getElem?.mp member
      have inside : j < request.dsts.length := (List.getElem?_eq_some_iff.mp found).1
      have perm := covered j target found
      rw [shares_bytes_all provides _ scatters found, targetBytes_perm_iff, shares_perm_iff positive inside counted] at perm
      exact perm
    refine ⟨?_, fun target member => (whole target member).1, fun routing target member =>
      (whole target member).2 routing, counted⟩
    rintro part member i target found (loose | inside)
    · have addressed := (scatters _ (mem_map_of_mem member)).addressed loose
      exact (peerAddrs_isSome_iff _).mp addressed target (mem_of_getElem? found)
    · exact (built part member i target found inside.1 inside.2).2
  · rintro ⟨keyed, divisible⟩
    have nonzero : ∀ part ∈ scatterParts request.domain N request.dsts.length, asU32 part.byteShards ≠ 0 := by
      intro part member
      obtain one | ⟨routing, all⟩ := scatterParts_byteShards member
      · rw [one]
        decide
      · rw [all]
        exact divisible.counted routing
    have each : ∀ op ∈ (scatterParts request.domain N request.dsts.length).map (scatterWrite group request),
        ∃ writes, Scatters request.dstHandle yields view op writes := by
      intro op listed
      obtain ⟨part, member, rfl⟩ := mem_map.mp listed
      obtain ⟨below, fits⟩ := ranged part member
      refine scatters_of_buildable provides ⟨below, fits⟩ ?_ ?_
      · intro loose
        refine (peerAddrs_isSome_iff _).mpr fun target present => ?_
        obtain ⟨i, found⟩ := mem_iff_getElem?.mp present
        exact keyed part member i target found (.inl loose)
      · intro i low high
        have bound : i < request.dsts.length := Nat.lt_of_lt_of_le high fits
        have found := List.getElem?_eq_getElem bound
        exact (shard_isSome_iff (scatterWrite group request part) found).mpr
          ⟨nonzero part member, keyed part member i _ found (.inr ⟨low, high⟩)⟩
    choose! writes scatters using each
    refine ⟨writes, scatters, fun j target found => ?_⟩
    have inside : j < request.dsts.length := (List.getElem?_eq_some_iff.mp found).1
    have member := mem_of_getElem? found
    rw [shares_bytes_all provides _ scatters found, targetBytes_perm_iff, shares_perm_iff positive inside divisible.counted]
    exact ⟨divisible.short target member, fun routing => divisible.divides routing target member⟩

/-- The scatter operations that a submission added. -/
def addedScatters (before after : DomainGroup N) : List ScatterGroupWriteOp :=
  (after.posted.drop before.posted.length).filterMap fun posted =>
    match posted.op with
    | .groupWrite _ op => some op
    | .write _ _ => none

private theorem addedScatters_eq {id : TransferId} {txCounter : Bool} {next : DomainGroup N}
    (accepted : submitScatterTransferRequest group id request txCounter = some (.ok (), next)) :
    request.dsts ≠ [] ∧ addedScatters group next =
      (scatterParts request.domain N request.dsts.length).map (scatterWrite group request) := by
  have outcome := submitScatter_outcome group id txCounter request
  rw [accepted] at outcome
  cases outcome with
  | accepted turn holds =>
    refine ⟨holds.1, ?_⟩
    simp [addedScatters, moved, DomainGroup.insert, scatterPosts, filterMap_map]

end

/-- The iterators of either provider write every target of an accepted scatter
completely and once, exactly if the request is keyed and divisible. -/
theorem scatter_covers_iff {N : Nat} (group : DomainGroup N) (id : TransferId)
    (request : ScatterTransferRequest) (txCounter : Bool) (next : DomainGroup N)
    (accepted : submitScatterTransferRequest group id request txCounter = some (.ok (), next))
    (addr : Nat → Nat → FiAddr) (qp : Nat → Nat → Qp) :
    (Covers (Scatters request.dstHandle (efaScatter addr) Efa.remoteWrite) (fun _ => 0) request
      (addedScatters group next) ↔
      Keyed N request ∧ Divisible N request) ∧
    (Covers (Scatters request.dstHandle (verbsScatter qp) fun wr => Verbs.remoteWrite wr.2)
      (·.dstMr.ptr) request (addedScatters group next) ↔
      Keyed N request ∧ Divisible N request) := by
  obtain ⟨nonempty, added⟩ := addedScatters_eq accepted
  have positive := zero_lt_of_lt group.rrNext.isLt
  rw [added]
  exact ⟨covers_iff_of_provides (efa_provides addr) positive nonempty,
    covers_iff_of_provides (verbs_provides qp) positive nonempty⟩

/-- Two domains that share the bytes of one target. -/
def sharedScatter (length : Nat) : ScatterTransferRequest where
  srcMr := 100
  dstHandle := none
  dsts := [⟨⟨5000, [(1, 11), (2, 12)]⟩, length, 0, 0⟩]
  immData := none
  domain := .allDomainsShardBytes

def sharedGroup : DomainGroup 2 := .new Nat.two_pos fun _ => .ofRegions fun _ => some 1

/-- The last byte of an odd length is not written. -/
theorem odd_length_uncovered :
    ∃ next, submitScatterTransferRequest sharedGroup 0 (sharedScatter 3) false =
      some (.ok (), next) ∧
      ¬ Covers (Scatters none (efaScatter fun _ _ => 0) Efa.remoteWrite) (fun _ => 0)
        (sharedScatter 3) (addedScatters sharedGroup next) ∧
      ¬ Covers (Scatters none (verbsScatter fun _ _ => 0) fun wr => Verbs.remoteWrite wr.2)
        (·.dstMr.ptr) (sharedScatter 3)
        (addedScatters sharedGroup next) := by
  have accepted : submitScatterTransferRequest sharedGroup 0 (sharedScatter 3) false = some (.ok (), _) := rfl
  refine ⟨_, accepted, ?_⟩
  have uneven : ¬ (Keyed 2 (sharedScatter 3) ∧ Divisible 2 (sharedScatter 3)) := by
    rintro ⟨-, divisible⟩
    exact absurd (divisible.divides rfl _ (mem_singleton_self _)) (show ¬ 2 ∣ 3 by decide)
  rw [(addedScatters_eq accepted).2]
  exact ⟨fun covers => uneven ((covers_iff_of_provides (efa_provides _) (by decide) (by decide)).mp covers),
    fun covers => uneven ((covers_iff_of_provides (verbs_provides _) (by decide) (by decide)).mp covers)⟩

theorem scatter_covers_iff_even :
    ∃ next, submitScatterTransferRequest sharedGroup 0 (sharedScatter 4) false =
      some (.ok (), next) ∧
      Covers (Scatters none (efaScatter fun _ _ => 0) Efa.remoteWrite) (fun _ => 0)
        (sharedScatter 4) (addedScatters sharedGroup next) := by
  refine ⟨_, rfl, (scatter_covers_iff sharedGroup 0 (sharedScatter 4) false _ rfl (fun _ _ => 0)
    (fun _ _ => 0)).1.mpr ⟨?_, ?_, ?_, ?_⟩⟩
  · intro part member i target found _
    obtain rfl := mem_singleton.mp (mem_of_getElem? found)
    exact scatterParts_inside 1 (fun _ single => GroupTransferRouting.noConfusion single) part member
  · decide
  · decide
  · decide

end PplxGarden.Fabric.Proofs
