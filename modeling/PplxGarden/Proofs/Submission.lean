import PplxGarden.Proofs.Sharding

/-! What a submission leaves behind: which operations it posts to which domains, and
when it is refused or panics. -/

namespace PplxGarden.Fabric.Proofs
open List Option Nat

variable {N : Nat}
variable {α : Type} {dstMrs : List MemoryRegionDescriptor}

/-- The domain with a number, counted round and round. -/
def slot (group : DomainGroup N) (number : Nat) : Fin N := ⟨number % N, mod_lt _ (zero_lt_of_lt group.rrNext.isLt)⟩

def moved (group : DomainGroup N) (turn : Nat) (ops : List (Posted N)) : DomainGroup N :=
  { group with rrNext := slot group turn, posted := group.posted ++ ops }

theorem slot_of_lt (group : DomainGroup N) {number : Nat} (inside : number < N) :
    slot group number = ⟨number, inside⟩ :=
  Fin.ext (mod_eq_of_lt inside)

private theorem slot_turn (group : DomainGroup N) (turn count : Nat) :
    slot group ((slot group turn).val + count) = slot group (turn + count) :=
  Fin.ext (mod_add_mod _ _ _)

private theorem moved_stay (group : DomainGroup N) (ops : List (Posted N)) :
    moved group group.rrNext ops = { group with posted := group.posted ++ ops } := by
  rw [moved, slot_of_lt group group.rrNext.isLt]

theorem moved_nil (group : DomainGroup N) : moved group group.rrNext [] = group := by
  rw [moved_stay, append_nil]

private theorem moved_moved (group : DomainGroup N) (turn next : Nat) (ops more : List (Posted N)) :
    moved (moved group turn ops) next more = moved group next (ops ++ more) := by
  simp [moved, slot]

theorem advance_eq (group : DomainGroup N) (count : Nat) :
    group.advance count = moved group (group.rrNext + count) [] := by
  simp [DomainGroup.advance, moved, slot]

theorem advance_moved (group : DomainGroup N) (turn count : Nat) (ops : List (Posted N)) :
    (moved group turn ops).advance count = moved group (turn + count) ops := by
  rw [advance_eq, moved_moved, append_nil, moved, moved]
  exact congrArg (fun next =>
    ({ group with rrNext := next, posted := group.posted ++ ops } : DomainGroup N))
    (slot_turn group turn count)

private theorem post_moved (group : DomainGroup N) (turn : Nat) (ops : List (Posted N))
    (domain : Fin N) (id : TransferId) (op : DomainOp) :
    (moved group turn ops).post domain id op = moved group turn (ops ++ [⟨domain, id, op⟩]) := by
  simp [DomainGroup.post, moved]

private theorem foldl_post (items : List α) (place : α → Fin N) (build : α → DomainOp)
    (id : TransferId) (group : DomainGroup N) :
    items.foldl (fun group item => group.post (place item) id (build item)) group =
      { group with posted := group.posted ++ items.map fun item => ⟨place item, id, build item⟩ } := by
  induction items generalizing group with
  | nil => simp
  | cons item items ih =>
    rw [foldl_cons, ih]
    simp [DomainGroup.post]

private theorem foldlM_post {body : DomainGroup N → α → Option (DomainGroup N)} (op : α → Posted N)
    (items : List α)
    (posts : ∀ item ∈ items, ∀ group, body group item =
      some { group with posted := group.posted ++ [op item] }) (group : DomainGroup N) :
    items.foldlM body group = some { group with posted := group.posted ++ items.map op } := by
  induction items generalizing group with
  | nil => simp
  | cons item items ih =>
    rw [foldlM_cons, posts item (mem_cons_self ..)]
    refine (ih (fun other member => posts other (mem_cons_of_mem _ member)) _).trans ?_
    simp

def entryFor (dstMr : MemoryRegionDescriptor) (domain : Nat) : DomainAddress × RemoteKey :=
  dstMr.addrRkeyList.getD domain (0, 0)

theorem entryFor_eq {dstMr : MemoryRegionDescriptor} {domain : Nat} (inside : domain < dstMr.addrRkeyList.length) :
    dstMr.addrRkeyList[domain]? = some (entryFor dstMr domain) := by
  rw [entryFor, getD_eq_getElem?_getD, List.getElem?_eq_getElem inside]
  rfl

def descriptorIn (domain : Domain) (ptr : MemoryPtr) : LocalDescriptor := (domain.localMrMap ptr).getD 0

def Registered (group : DomainGroup N) (ptr : MemoryPtr) (domain : Fin N) : Prop :=
  ((group.domains domain).localMrMap ptr).isSome

instance (group : DomainGroup N) (ptr : MemoryPtr) (domain : Fin N) : Decidable (Registered group ptr domain) :=
  inferInstanceAs (Decidable (_ = true))

theorem getMemDesc_registered {group : DomainGroup N} {ptr : MemoryPtr} {domain : Fin N}
    (registered : Registered group ptr domain) :
    (group.domains domain).getMemDesc ptr = .ok (descriptorIn (group.domains domain) ptr) := by
  obtain ⟨desc, found⟩ := isSome_iff_exists.mp registered
  rw [Domain.getMemDesc, descriptorIn, found]
  rfl

theorem getMemDesc_unregistered {group : DomainGroup N} {ptr : MemoryPtr} {domain : Fin N}
    (missing : ¬ Registered group ptr domain) :
    (group.domains domain).getMemDesc ptr = .error (.custom "Local MR not found") := by
  rw [Registered, Bool.not_eq_true, isSome_eq_false_iff, isNone_iff_eq_none] at missing
  rw [Domain.getMemDesc, missing]

section
variable (group : DomainGroup N) (id : TransferId)

def immOp (immData first perDomain : Nat) (dstMr : MemoryRegionDescriptor) (index : Nat) : Posted N :=
  ⟨slot group (first + index / perDomain), id, .write (entryFor dstMr (index / perDomain)).1
    (.imm { immData, dstPtr := dstMr.ptr, dstRkey := (entryFor dstMr (index / perDomain)).2 })⟩

private theorem postImms_eq (immData first : Nat) {perDomain : Nat} (positive : perDomain ≠ 0)
    (known : ∀ index dstMr, dstMrs[index]? = some dstMr →
      index / perDomain < dstMr.addrRkeyList.length) :
    postImms id immData first perDomain dstMrs group = some { group with
      posted := group.posted ++ dstMrs.zipIdx.map fun (dstMr, index) =>
        immOp group id immData first perDomain dstMr index } := by
  rw [postImms, if_neg positive]
  apply foldlM_post
  intro item member start
  have entry := entryFor_eq (known item.2 item.1 (mem_zipIdx_iff_getElem?.mp member))
  simp only [entry, bind_eq_bind, bind_some]
  rfl

/-- The domain for which the shard with an index of a single transfer is built. -/
def builtFor (routing : DomainGroupRouting) (index : Nat) : Fin N :=
  match routing with
  | .roundRobinSharded _ => slot group (group.rrNext + index)
  | .pinned domainIdx => slot group domainIdx

def singleWrite (request : SingleTransferRequest) (domain : Fin N) (range : Nat × Nat) :
    DomainAddress × SingleWriteOp :=
  ((entryFor request.dstMr domain).1, {
    srcPtr := request.srcMr
    srcDesc := descriptorIn (group.domains domain) request.srcMr
    srcOffset := request.srcOffset + range.1
    length := range.2
    immData := request.immData
    dstPtr := request.dstMr.ptr
    dstRkey := (entryFor request.dstMr domain).2
    dstOffset := request.dstOffset + range.1 })

/-- What is known about the pinned domain once the request was checked. -/
def PinnedInside (N : Nat) (routing : DomainGroupRouting) : Prop :=
  ∀ domainIdx, routing = .pinned domainIdx → domainIdx < N

theorem shardDomain_eq {routing : DomainGroupRouting} (pinned : PinnedInside N routing) {index turn : Nat}
    (place : ∀ numShards, routing = .roundRobinSharded numShards → turn = group.rrNext + index) :
    ∃ after, shardDomain (moved group turn []) routing = some (builtFor group routing index, moved group after []) ∧
      ∀ numShards, routing = .roundRobinSharded numShards → after = group.rrNext + (index + 1) := by
  cases routing with
  | roundRobinSharded numShards =>
    have reached := place numShards rfl
    refine ⟨turn + 1, ?_, fun _ _ => by omega⟩
    rw [shardDomain, advance_moved, builtFor, ← reached]
    rfl
  | pinned domainIdx =>
    have inside := pinned domainIdx rfl
    refine ⟨turn, ?_, fun _ impossible => by cases impossible⟩
    rw [shardDomain, dif_pos inside, builtFor, slot_of_lt group inside]

/-- Building goes on from whatever turn was reached and stops at the first domain
that does not know the source. -/
theorem buildSingleOps_eq {request : SingleTransferRequest}
    (long : request.dstMr.addrRkeyList.length = N) (pinned : PinnedInside N request.domain)
    (ranges : List (Nat × Nat)) (index turn : Nat)
    (place : ∀ numShards, request.domain = .roundRobinSharded numShards →
      turn = group.rrNext + index) :
    ∃ next, buildSingleOps request ranges (moved group turn []) =
      some (if ∀ k, k < ranges.length → Registered group request.srcMr (builtFor group
        request.domain (index + k)) then
          .ok ((ranges.zipIdx index).map fun (range, k) =>
            singleWrite group request (builtFor group request.domain k) range)
        else .error (.custom "Local MR not found"), moved group next []) := by
  induction ranges generalizing index turn with
  | nil => exact ⟨turn, by simp [buildSingleOps]⟩
  | cons range ranges ih =>
    obtain ⟨after, chosen, follows⟩ := shardDomain_eq group pinned place
    obtain ⟨next, rest⟩ := ih (index + 1) after follows
    have entry := entryFor_eq (show (builtFor group request.domain index).val <
      request.dstMr.addrRkeyList.length by rw [long]; exact Fin.isLt _)
    have shift (k : Nat) : index + 1 + k = index + (k + 1) := by omega
    by_cases registered : Registered group request.srcMr (builtFor group request.domain index)
    · refine ⟨next, ?_⟩
      have described := getMemDesc_registered registered
      have same : (moved group after []).domains = group.domains := rfl
      simp only [buildSingleOps, chosen, bind_eq_bind, bind_some, entry, same, described, rest, Option.pure_def, shift]
      by_cases others : ∀ k, k < ranges.length →
        Registered group request.srcMr (builtFor group request.domain (index + (k + 1)))
      · have all : ∀ k, k < (range :: ranges).length →
            Registered group request.srcMr (builtFor group request.domain (index + k)) :=
          forall_lt_succ_left.mpr ⟨registered, others⟩
        rw [if_pos others, if_pos all]
        rfl
      · rw [if_neg others, if_neg fun all => others fun k bound => all (k + 1) (succ_lt_succ bound)]
        rfl
    · refine ⟨after, ?_⟩
      have missing := getMemDesc_unregistered registered
      have same : (moved group after []).domains = group.domains := rfl
      simp only [buildSingleOps, chosen, bind_eq_bind, bind_some, entry, same, missing, Option.pure_def]
      rw [if_neg]
      intro all
      exact registered (all 0 (zero_lt_succ _))

def pageWrite (request : PagedTransferRequest) (domain : Fin N) (range : Nat × Nat) : Posted N :=
  ⟨domain, id, .write (entryFor request.dstMr domain).1 (.paged {
    srcPageIndices := request.srcPageIndices
    dstPageIndices := request.dstPageIndices
    pageIndicesBeg := range.1
    pageIndicesEnd := range.2
    length := request.length
    srcPtr := request.srcMr
    srcDesc := descriptorIn (group.domains domain) request.srcMr
    srcStride := request.srcStride
    srcOffset := request.srcOffset
    dstPtr := request.dstMr.ptr
    dstRkey := (entryFor request.dstMr domain).2
    dstStride := request.dstStride
    dstOffset := request.dstOffset
    immData := request.immData })⟩

/-- Pages are posted one range after another until a domain does not know the source. -/
theorem postPages_eq {request : PagedTransferRequest} (long : request.dstMr.addrRkeyList.length = N)
    (ranges : List (Nat × Nat)) (index : Nat) (ops : List (Posted N)) :
    ∃ count, count ≤ ranges.length ∧
      (count = ranges.length ↔ ∀ k, k < ranges.length →
        Registered group request.srcMr (slot group (group.rrNext + (index + k)))) ∧
      ∃ next, postPages id request ranges (moved group (group.rrNext + index) ops) =
        some (if count = ranges.length then .ok () else .error (.custom "Local MR not found"),
          moved group next (ops ++ ((ranges.take count).zipIdx index).map fun (range, k) =>
            pageWrite group id request (slot group (group.rrNext + k)) range)) := by
  induction ranges generalizing index ops with
  | nil => exact ⟨0, Nat.le_refl _, by simp, group.rrNext + index, by simp [postPages]⟩
  | cons range ranges ih =>
    have entry := entryFor_eq (show (slot group (group.rrNext + index)).val <
      request.dstMr.addrRkeyList.length by rw [long]; exact Fin.isLt _)
    have turn : (moved group (group.rrNext + index) ops).rrNext = slot group (group.rrNext + index) := rfl
    have same : (moved group (group.rrNext + index + 1) ops).domains = group.domains := rfl
    by_cases registered : Registered group request.srcMr (slot group (group.rrNext + index))
    · obtain ⟨count, bound, complete, next, rest⟩ :=
        ih (index + 1) (ops ++ [pageWrite group id request (slot group (group.rrNext + index))
        range])
      have described := getMemDesc_registered registered
      refine ⟨count + 1, succ_le_succ bound, ?_, next, ?_⟩
      · have shift (k : Nat) : index + 1 + k = index + (k + 1) := by omega
        simp only [shift] at complete
        rw [length_cons, Nat.add_right_cancel_iff, complete, forall_lt_succ_left]
        exact (and_iff_right registered).symm
      · simp only [postPages, advance_moved, turn, entry, same, described, bind_eq_bind, bind_some, post_moved]
        refine (rest.trans ?_)
        simp [zipIdx_cons, pageWrite]
    · have missing := getMemDesc_unregistered registered
      refine ⟨0, Nat.zero_le _, ?_, group.rrNext + index + 1, ?_⟩
      · constructor
        · intro none
          cases none
        · intro all
          exact absurd (all 0 (zero_lt_succ _)) registered
      · simp [postPages, advance_moved, turn, entry, same, missing]

def scatterWrite (request : ScatterTransferRequest) (part : ScatterPart) : ScatterGroupWriteOp where
  domainIdx := part.domainIdx
  srcPtr := request.srcMr
  srcDesc := descriptorIn (group.domains (slot group part.domainIdx)) request.srcMr
  immData := request.immData
  dsts := request.dsts
  dstBeg := part.dstBeg
  dstEnd := part.dstEnd
  byteShards := part.byteShards
  byteShardIdx := part.byteShardIdx

theorem scatterOps_eq {request : ScatterTransferRequest} (parts : List ScatterPart)
    (inside : ∀ part ∈ parts, part.domainIdx < N) :
    scatterOps group request parts =
      some (if ∀ part ∈ parts, Registered group request.srcMr (slot group part.domainIdx) then
          .ok (parts.map fun part => (slot group part.domainIdx, scatterWrite group request part))
        else .error (.custom "Local MR not found")) := by
  induction parts with
  | nil => simp [scatterOps]
  | cons part parts ih =>
    have bound := inside part (mem_cons_self ..)
    have rest := ih fun other member => inside other (mem_cons_of_mem _ member)
    have place := slot_of_lt group bound
    have every : (∀ other ∈ part :: parts, Registered group request.srcMr (slot group other.domainIdx)) ↔
        Registered group request.srcMr (slot group part.domainIdx) ∧
          ∀ other ∈ parts, Registered group request.srcMr (slot group other.domainIdx) := by
      simp
    by_cases registered : Registered group request.srcMr (slot group part.domainIdx)
    · have described := getMemDesc_registered registered
      rw [place] at described
      simp only [scatterOps, scatterOp, dif_pos bound, described, Except.map, bind_eq_bind,
        bind_some, rest, Option.pure_def]
      by_cases others : ∀ other ∈ parts, Registered group request.srcMr (slot group other.domainIdx)
      · rw [if_pos others, if_pos (every.mpr ⟨registered, others⟩)]
        simp [scatterWrite, place]
      · rw [if_neg others, if_neg fun all => others (every.mp all).2]
    · have missing := getMemDesc_unregistered registered
      rw [place] at missing
      simp only [scatterOps, scatterOp, dif_pos bound, missing, Except.map, bind_eq_bind, bind_some, Option.pure_def]
      rw [if_neg fun all => registered (every.mp all).1]

end

/-! When a request is accepted, and what it posts then. -/

def immRouting (N : Nat) : DomainGroupRouting → Prop
  | .roundRobinSharded numShards => numShards.val = 1
  | .pinned domainIdx => domainIdx < N

def firstDomain (group : DomainGroup N) : DomainGroupRouting → Nat
  | .roundRobinSharded _ => group.rrNext
  | .pinned domainIdx => domainIdx

def immPerDomain (N count : Nat) : DomainGroupRouting → Nat
  | .roundRobinSharded _ => divCeil count N
  | .pinned _ => count

def numShards : DomainGroupRouting → Nat
  | .roundRobinSharded numShards => numShards
  | .pinned _ => 1

def AcceptsImms (N : Nat) (dstMrs : List MemoryRegionDescriptor) (routing : DomainGroupRouting) : Prop :=
  dstMrs ≠ [] ∧ (∀ dstMr ∈ dstMrs, dstMr.addrRkeyList.length = N) ∧ immRouting N routing

/-- The peer group of a handle has as many peers as the request has targets. -/
def HandleFits (group : DomainGroup N) (request : ScatterTransferRequest) : Prop :=
  ∀ handle, request.dstHandle = some handle → (group.peerGroups handle).map List.length = some request.dsts.length

/-- A request that no check refuses and that panics nowhere. -/
def Accepts (group : DomainGroup N) : TransferRequest → Prop
  | .imm request => AcceptsImms N [request.dstMr] request.domain
  | .barrier request => AcceptsImms N request.dstMrs request.domain
  | .single request =>
    request.dstMr.addrRkeyList.length = N ∧ numShards request.domain ≤ N ∧ PinnedInside N request.domain ∧
      ∀ k, k < numShards request.domain → Registered group request.srcMr (builtFor group request.domain k)
  | .paged request =>
    request.dstMr.addrRkeyList.length = N ∧ request.srcPageIndices.length = request.dstPageIndices.length ∧
      ∀ k, k < (divideEvenly request.srcPageIndices.length N).length →
        Registered group request.srcMr (slot group (group.rrNext + k))
  | .scatter request =>
    request.dsts ≠ [] ∧ HandleFits group request ∧
      (∀ part ∈ scatterParts request.domain N request.dsts.length, part.domainIdx < N) ∧
      ∀ part ∈ scatterParts request.domain N request.dsts.length, Registered group request.srcMr (slot group part.domainIdx)

def PanicsImms (N : Nat) (dstMrs : List MemoryRegionDescriptor) (routing : DomainGroupRouting) : Prop :=
  dstMrs = [] ∧ immRouting N routing

/-- A request that brings the worker down: a barrier without targets that no check
refuses, or a scatter through a domain that does not exist. -/
def Panics (group : DomainGroup N) : TransferRequest → Prop
  | .imm request => PanicsImms N [request.dstMr] request.domain
  | .barrier request => PanicsImms N request.dstMrs request.domain
  | .single _ => False
  | .paged _ => False
  | .scatter request =>
    request.dsts ≠ [] ∧ HandleFits group request ∧
      ∃ domainIdx, request.domain = .single domainIdx ∧ N ≤ domainIdx

section
variable (group : DomainGroup N) (id : TransferId)

def immOps (immData : Nat) (dstMrs : List MemoryRegionDescriptor) (routing : DomainGroupRouting) : List (Posted N) :=
  dstMrs.zipIdx.map fun (dstMr, index) =>
    immOp group id immData (firstDomain group routing) (immPerDomain N dstMrs.length routing) dstMr index

/-- Shards are built for one domain and posted to the domain of their index. -/
def singleOps (request : SingleTransferRequest) : List (Posted N) :=
  (shardSingleTransfer request.length (numShards request.domain)).zipIdx.map fun (range, index) =>
    let write := singleWrite group request (builtFor group request.domain index) range
    ⟨slot group index, id, .write write.1 (.single write.2)⟩

def pageOps (request : PagedTransferRequest) : List (Posted N) :=
  (divideEvenly request.srcPageIndices.length N).zipIdx.map fun (range, index) =>
    pageWrite group id request (slot group (group.rrNext + index)) range

def scatterPosts (request : ScatterTransferRequest) : List (Posted N) :=
  (scatterParts request.domain N request.dsts.length).map fun part =>
    ⟨slot group part.domainIdx, id, .groupWrite request.dstHandle (scatterWrite group request part)⟩

def acceptedOps : TransferRequest → List (Posted N)
  | .imm request => immOps group id request.immData [request.dstMr] request.domain
  | .barrier request => immOps group id request.immData request.dstMrs request.domain
  | .single request => singleOps group id request
  | .paged request => pageOps group id request
  | .scatter request => scatterPosts group id request

end

/-- What a refused request may leave behind: nothing, or a record that is never
completed because fewer operations were posted than it counts. -/
inductive Refusal (group : DomainGroup N) (id : TransferId) (txCounter : Bool) : DomainGroup N → Prop where
  | early (turn : Nat) : Refusal group id txCounter (moved group turn [])
  | late (turn count : Nat) (ops : List (Posted N)) (own : ∀ op ∈ ops, op.transferId = id)
    (short : ops.length < count ∨ ops = []) :
      Refusal group id txCounter ((moved group turn ops).insert id count txCounter)

/-- The outcome of a submission, given whether the request is acceptable. -/
inductive Outcome (group : DomainGroup N) (id : TransferId) (txCounter : Bool) (accepts panics : Prop) (ops : List (Posted N)) :
    Option (Submitted N) → Prop where
  | accepted (turn : Nat) (holds : accepts) : Outcome group id txCounter accepts panics ops
      (some (.ok (), (moved group turn ops).insert id ops.length txCounter))
  | panicked (fails : ¬ accepts) (holds : panics) : Outcome group id txCounter accepts panics ops none
  | refused (error : FabricLibError) {after : DomainGroup N} (fails : ¬ accepts) (survives : ¬ panics)
      (left : Refusal group id txCounter after) : Outcome group id txCounter accepts panics ops (some (.error error, after))

section
variable {group : DomainGroup N} {id : TransferId} {txCounter : Bool} {accepts panics : Prop} {ops : List (Posted N)}

theorem Outcome.of_eq {result : Option (Submitted N)} (holds : accepts) (turn : Nat)
    (equal : result = some (.ok (), (moved group turn ops).insert id ops.length txCounter)) :
    Outcome group id txCounter accepts panics ops result := by
  rw [equal]
  exact .accepted turn holds

theorem Outcome.unchanged {error : FabricLibError} (fails : ¬ accepts) (survives : ¬ panics) :
    Outcome group id txCounter accepts panics ops (some (.error error, group)) := by
  have early : Refusal group id txCounter (moved group group.rrNext []) := .early _
  rw [moved_nil] at early
  exact .refused error fails survives early

theorem Outcome.recorded {error : FabricLibError} {count : Nat} (fails : ¬ accepts) (survives : ¬ panics) :
    Outcome group id txCounter accepts panics ops (some (.error error, group.insert id count txCounter)) := by
  have late : Refusal group id txCounter
    ((moved group group.rrNext []).insert id count txCounter) := .late _ _ _ (by simp) (.inr rfl)
  rw [moved_nil] at late
  exact .refused error fails survives late

end

section
variable (group : DomainGroup N) (id : TransferId) (txCounter : Bool)

theorem chunk_lt {count : Nat} (positive : 0 < N) {index : Nat} (inside : index < count)
    (routing : DomainGroupRouting) : index / immPerDomain N count routing < N := by
  cases routing with
  | roundRobinSharded numShards =>
    have room : count ≤ N * divCeil count N := divCeil_mul positive
    exact Nat.div_lt_of_lt_mul (by rw [immPerDomain, Nat.mul_comm]; omega)
  | pinned domainIdx => exact (div_eq_of_lt inside).symm ▸ positive

theorem postImms_accepted (start : DomainGroup N) (immData : Nat) (some : dstMrs ≠ [])
    (long : ∀ dstMr ∈ dstMrs, dstMr.addrRkeyList.length = N) (routing : DomainGroupRouting) :
    postImms id immData (firstDomain group routing) (immPerDomain N dstMrs.length routing) dstMrs start =
      .some { start with posted := start.posted ++ immOps group id immData dstMrs routing } := by
  have positive : 0 < N := zero_lt_of_lt group.rrNext.isLt
  have count : 0 < dstMrs.length := length_pos_iff.mpr some
  have chunk : immPerDomain N dstMrs.length routing ≠ 0 := by
    cases routing with
    | roundRobinSharded numShards => exact Nat.pos_iff_ne_zero.mp (divCeil_pos positive count)
    | pinned domainIdx => exact Nat.pos_iff_ne_zero.mp count
  refine postImms_eq start id immData _ chunk ?_
  intro index dstMr listed
  rw [long dstMr (mem_of_getElem? listed)]
  exact chunk_lt positive (List.getElem?_eq_some_iff.mp listed).1 routing

private theorem postImms_empty (start : DomainGroup N) (immData first : Nat) (routing : DomainGroupRouting) :
    postImms id immData first (immPerDomain N 0 routing) [] start = none := by
  have positive : 0 < N := zero_lt_of_lt start.rrNext.isLt
  have chunk : immPerDomain N 0 routing = 0 := by
    cases routing with
    | roundRobinSharded numShards => exact div_eq_of_lt (by omega)
    | pinned domainIdx => rfl
  rw [postImms, if_pos chunk]

theorem postImms_outcome (immData : Nat) (routing : DomainGroupRouting) (turn : Nat)
    (long : ∀ dstMr ∈ dstMrs, dstMr.addrRkeyList.length = N) (fits : immRouting N routing) :
    Outcome group id txCounter (AcceptsImms N dstMrs routing) (PanicsImms N dstMrs routing)
      (immOps group id immData dstMrs routing)
      ((postImms id immData (firstDomain group routing) (immPerDomain N dstMrs.length routing)
        dstMrs
        (moved (group.insert id dstMrs.length txCounter) turn [])).bind fun after =>
          some (.ok (), after)) := by
  by_cases empty : dstMrs = []
  · subst empty
    rw [length_nil, postImms_empty]
    exact .panicked (fun accepts => accepts.1 rfl) ⟨rfl, fits⟩
  · refine .of_eq ⟨empty, long, fits⟩ turn ?_
    have size : (immOps group id immData dstMrs routing).length = dstMrs.length := by simp [immOps]
    rw [postImms_accepted group id _ immData empty long, size]
    simp [moved, DomainGroup.insert, slot]

theorem submitImm_outcome (immData : Nat) (dstMrs : List MemoryRegionDescriptor)
    (routing : DomainGroupRouting) :
    Outcome group id txCounter (AcceptsImms N dstMrs routing) (PanicsImms N dstMrs routing)
      (immOps group id immData dstMrs routing)
      (submitImmTransferRequest group id immData dstMrs routing txCounter) := by
  unfold submitImmTransferRequest
  split
  next mismatch =>
    obtain ⟨dstMr, member, short⟩ := List.any_eq_true.mp mismatch
    refine .unchanged (fun accepts => ?_) fun panics => ?_
    · simp [accepts.2.1 dstMr member] at short
    · rw [panics.1] at member
      cases member
  next matching =>
    have long : ∀ dstMr ∈ dstMrs, dstMr.addrRkeyList.length = N := by
      intro dstMr member
      by_contra other
      exact matching (List.any_eq_true.mpr ⟨dstMr, member, by simp [other]⟩)
    cases routing with
    | roundRobinSharded numShards =>
      simp only
      split
      next other => exact .recorded (fun accepts => other accepts.2.2) fun panics => other panics.2
      next one =>
        have outcome := postImms_outcome group id txCounter immData (.roundRobinSharded numShards)
          (group.rrNext + min N dstMrs.length) long (not_not.mp one)
        rw [advance_eq]
        exact outcome
    | pinned domainIdx =>
      simp only
      split
      next outside =>
        exact .recorded (fun accepts => Nat.not_lt.mpr outside accepts.2.2) fun panics =>
          Nat.not_lt.mpr outside panics.2
      next inside =>
        have outcome := postImms_outcome group id txCounter immData (.pinned domainIdx) group.rrNext
          long (Nat.not_le.mp inside)
        have same : moved (group.insert id dstMrs.length txCounter) group.rrNext [] =
            group.insert id dstMrs.length txCounter :=
          moved_nil (group.insert id dstMrs.length txCounter)
        rw [same] at outcome
        exact outcome

theorem shardSingleTransfer_length (totalSize count : Nat) : (shardSingleTransfer totalSize count).length = count := by
  have rounds : ∀ rest offset, (shardSingleTransfer.go totalSize count rest offset).length = rest := by
    intro rest
    induction rest with
    | zero => exact fun _ => rfl
    | succ rest ih =>
      intro offset
      rw [shardSingleTransfer.go]
      split
      next => rw [length_cons, ih]
      next => rw [length_cons, ih]
  exact rounds count 0

theorem numShards_pos (routing : DomainGroupRouting) : 0 < numShards routing := by
  cases routing with
  | roundRobinSharded numShards => exact numShards.property
  | pinned domainIdx => exact Nat.one_pos

private theorem zip_domains {β : Type} (items : List α) (short : items.length ≤ N)
    (write : α → Nat → β) (build : β → DomainOp) :
    ((finRange N).zip (items.zipIdx.map fun (item, index) => write item index)).map
        (fun item => (⟨item.1, id, build item.2⟩ : Posted N)) =
      items.zipIdx.map fun (item, index) => ⟨slot group index, id, build (write item index)⟩ := by
  apply ext_getElem
  · simp [short]
  · intro index left right
    have bound : index < N := by simp at left; omega
    simp [slot_of_lt group bound]

theorem single_outcome {request : SingleTransferRequest}
    (long : request.dstMr.addrRkeyList.length = N) (few : numShards request.domain ≤ N)
    (pinned : PinnedInside N request.domain) :
    Outcome group id txCounter (Accepts group (.single request)) (Panics group (.single request))
      (singleOps group id request)
      (do
        let (result, group) ← buildSingleOps request (shardSingleTransfer request.length
          (numShards request.domain)) group
        match result with
        | .error error => return (.error error, group)
        | .ok rdmaOps =>
          let group := group.insert id rdmaOps.length txCounter
          return (.ok (), ((finRange N).zip rdmaOps).foldl
            (fun group (domain, dstAddr, op) => group.post domain id (.write dstAddr (.single op)))
              group)) := by
  have count := shardSingleTransfer_length request.length (numShards request.domain)
  obtain ⟨next, built⟩ := buildSingleOps_eq group long pinned (shardSingleTransfer request.length
    (numShards request.domain)) 0 group.rrNext
    fun _ _ => rfl
  simp only [moved_nil, count, Nat.zero_add] at built
  rw [built]
  by_cases registered : ∀ k, k < numShards request.domain → Registered group request.srcMr (builtFor group request.domain k)
  · refine .of_eq ⟨long, few, pinned, registered⟩ next ?_
    rw [if_pos registered]
    have size : (singleOps group id request).length =
      ((shardSingleTransfer request.length (numShards request.domain)).zipIdx.map
        fun (range, k) => singleWrite group request (builtFor group request.domain k) range).length := by simp [singleOps]
    have posted := zip_domains group id (shardSingleTransfer request.length (numShards request.domain)) (by omega)
      (fun range k => singleWrite group request (builtFor group request.domain k) range)
        fun write => .write write.1 (.single write.2)
    rw [size]
    refine congrArg (fun after => some (Except.ok (), after)) ((foldl_post _ Prod.fst
      (fun item : Fin N × DomainAddress × SingleWriteOp => .write item.2.1 (.single item.2.2)) id _).trans ?_)
    rw [posted]
    simp [moved, DomainGroup.insert, singleOps, slot]
  · rw [if_neg registered]
    exact .refused _ (fun accepts => registered accepts.2.2.2) not_false (.early next)

theorem submitSingle_outcome (request : SingleTransferRequest) :
    Outcome group id txCounter (Accepts group (.single request)) (Panics group (.single request))
      (singleOps group id request)
      (submitSingleTransferRequest group id request txCounter) := by
  unfold submitSingleTransferRequest
  split
  next mismatch => exact .unchanged (fun accepts => mismatch accepts.1) not_false
  next matching =>
    have long := not_not.mp matching
    cases routing : request.domain with
    | roundRobinSharded count =>
      by_cases many : N < count
      · simp only [if_pos many]
        refine .unchanged (fun accepts => ?_) not_false
        have few := accepts.2.1
        rw [routing] at few
        exact Nat.not_le.mpr many few
      · simp only [if_neg many]
        have outcome := single_outcome group id txCounter long (by rw [routing]; exact Nat.not_lt.mp many)
          (by rw [routing]; intro _ impossible; cases impossible)
        rw [routing] at outcome
        exact outcome
    | pinned domainIdx =>
      by_cases outside : N ≤ domainIdx
      · simp only [if_pos outside]
        exact .unchanged (fun accepts => Nat.not_lt.mpr outside (accepts.2.2.1 domainIdx routing)) not_false
      · simp only [if_neg outside]
        have outcome := single_outcome group id txCounter long
          (by rw [routing]; exact zero_lt_of_lt group.rrNext.isLt)
          (by rw [routing]; intro _ same; cases same; exact Nat.not_le.mp outside)
        rw [routing] at outcome
        exact outcome

theorem submitPaged_outcome (request : PagedTransferRequest) :
    Outcome group id txCounter (Accepts group (.paged request)) (Panics group (.paged request))
      (pageOps group id request)
      (submitPagedTransferRequest group id request txCounter) := by
  unfold submitPagedTransferRequest
  split
  next mismatch => exact .unchanged (fun accepts => mismatch accepts.1) not_false
  next matching =>
    split
    next uneven => exact .unchanged (fun accepts => uneven accepts.2.1) not_false
    next even =>
      have long := not_not.mp matching
      generalize size : divideEvenly request.srcPageIndices.length N = ranges
      obtain ⟨count, bound, complete, next, posted⟩ :=
        postPages_eq (group.insert id ranges.length txCounter) id long ranges 0 []
      rw [Nat.add_zero, moved_nil, nil_append] at posted
      simp only [Nat.zero_add] at complete
      simp only [posted]
      by_cases full : count = ranges.length
      · refine .of_eq ⟨long, not_not.mp even, ?_⟩ next ?_
        · rw [size]
          exact complete.mp full
        · have all : pageOps group id request = ranges.zipIdx.map fun (range, index) =>
              pageWrite group id request (slot group (group.rrNext + index)) range := by rw [pageOps, size]
          rw [if_pos full, full, take_length, all, length_map, length_zipIdx]
          rfl
      · rw [if_neg full]
        refine .refused _ (fun accepts => full (complete.mpr ?_)) not_false (.late next ranges.length _ ?_ (.inl ?_))
        · have registered := accepts.2.2
          rw [size] at registered
          exact registered
        · intro op member
          obtain ⟨_, _, rfl⟩ := List.mem_map.mp member
          rfl
        · simp only [length_map, length_zipIdx, length_take]
          omega

/-- Parts name existing domains unless the caller picked the domain. -/
theorem scatterParts_inside (count : Nat) {routing : GroupTransferRouting}
    (known : ∀ domainIdx, routing = .single domainIdx → domainIdx < N) :
    ∀ part ∈ scatterParts routing N count, part.domainIdx < N := by
  intro part member
  cases routing with
  | allDomainsShardPeers =>
    obtain ⟨item, listed, rfl⟩ := List.mem_map.mp member
    exact mem_range.mp (of_mem_zip listed).1
  | allDomainsShardBytes =>
    obtain ⟨domainIdx, listed, rfl⟩ := List.mem_map.mp member
    exact mem_range.mp listed
  | single domainIdx =>
    rw [scatterParts, mem_singleton] at member
    rw [member]
    exact known domainIdx rfl

/-- Once its targets are checked, a scatter is built completely before it is posted. -/
theorem scatter_outcome {request : ScatterTransferRequest} (nonempty : request.dsts ≠ [])
    (known : HandleFits group request) :
    Outcome group id txCounter (Accepts group (.scatter request)) (Panics group (.scatter request))
      (scatterPosts group id request)
      (do
        match ← scatterOps group request (scatterParts request.domain N request.dsts.length) with
        | .error error => return (.error error, group)
        | .ok rdmaOps =>
          let group := group.insert id rdmaOps.length txCounter
          return (.ok (), rdmaOps.foldl (fun group (domain, op) =>
            group.post domain id (.groupWrite request.dstHandle op)) group)) := by
  by_cases inside : ∀ domainIdx, request.domain = .single domainIdx → domainIdx < N
  · have parts := scatterParts_inside request.dsts.length inside
    rw [scatterOps_eq group _ parts]
    by_cases registered : ∀ part ∈ scatterParts request.domain N request.dsts.length,
      Registered group request.srcMr (slot group part.domainIdx)
    · rw [if_pos registered]
      refine .of_eq ⟨nonempty, known, parts, registered⟩ group.rrNext ?_
      refine congrArg (fun after => some (Except.ok (), after)) ((foldl_post _ Prod.fst
        (fun item : Fin N × ScatterGroupWriteOp => .groupWrite request.dstHandle item.2) id _).trans ?_)
      rw [moved_stay]
      simp [DomainGroup.insert, scatterPosts]
    · rw [if_neg registered]
      refine .unchanged (fun accepts => registered accepts.2.2.2) fun panics => ?_
      obtain ⟨domainIdx, routing, outside⟩ := panics.2.2
      exact Nat.not_lt.mpr outside (inside domainIdx routing)
  · obtain ⟨domainIdx, failing⟩ := not_forall.mp inside
    obtain ⟨routing, outside⟩ := Classical.not_imp.mp failing
    have panics : scatterOps group request (scatterParts request.domain N request.dsts.length) = none := by
      simp [routing, scatterParts, scatterOps, scatterOp, outside]
    rw [panics]
    refine .panicked (fun accepts => ?_) ⟨nonempty, known, domainIdx, routing, Nat.not_lt.mp outside⟩
    have bound := accepts.2.2.1 ⟨domainIdx, 0, request.dsts.length, 1, 0⟩ (by rw [routing]; exact mem_singleton_self _)
    exact outside bound

theorem submitScatter_outcome (request : ScatterTransferRequest) :
    Outcome group id txCounter (Accepts group (.scatter request)) (Panics group (.scatter request))
      (scatterPosts group id request)
      (submitScatterTransferRequest group id request txCounter) := by
  unfold submitScatterTransferRequest
  split
  next empty => exact .unchanged (fun accepts => accepts.1 empty) fun panics => panics.1 empty
  next nonempty =>
    cases handle : request.dstHandle with
    | none =>
      have fits : HandleFits group request := by
        intro _ given
        rw [handle] at given
        cases given
      have outcome := scatter_outcome group id txCounter nonempty fits
      rw [handle] at outcome
      exact outcome
    | some handle' =>
      cases found : group.peerGroups handle' with
      | none =>
        have unknown : ¬ HandleFits group request := by
          intro known
          have size := known handle' handle
          rw [found] at size
          cases size
        simp only [found]
        exact .unchanged (fun accepts => unknown accepts.2.1) fun panics => unknown panics.2.1
      | some addrs =>
        by_cases other : request.dsts.length ≠ addrs.length
        · have unknown : ¬ HandleFits group request := by
            intro known
            have size := known handle' handle
            rw [found] at size
            exact other (Option.some.inj size).symm
          simp only [found, if_pos other]
          exact .unchanged (fun accepts => unknown accepts.2.1) fun panics => unknown panics.2.1
        · simp only [found, if_neg other]
          have fits : HandleFits group request := by
            intro _ given
            rw [handle] at given
            cases given
            rw [found, not_not.mp other]
            rfl
          have outcome := scatter_outcome group id txCounter nonempty fits
          rw [handle] at outcome
          exact outcome

theorem submit_outcome (request : TransferRequest) :
    Outcome group id txCounter (Accepts group request) (Panics group request) (acceptedOps group id request)
      (submitTransferRequest group id request txCounter) := by
  cases request with
  | imm request => exact submitImm_outcome group id txCounter request.immData [request.dstMr] request.domain
  | barrier request => exact submitImm_outcome group id txCounter request.immData request.dstMrs request.domain
  | single request => exact submitSingle_outcome group id txCounter request
  | paged request => exact submitPaged_outcome group id txCounter request
  | scatter request => exact submitScatter_outcome group id txCounter request

theorem submits_of_accepts {request : TransferRequest} (accepts : Accepts group request) :
    ∃ after, submitTransferRequest group id request txCounter = some (.ok (), after) := by
  have outcome := submit_outcome group id txCounter request
  generalize submitTransferRequest group id request txCounter = submitted at outcome
  cases outcome with
  | accepted turn _ => exact ⟨_, rfl⟩
  | panicked fails _ => exact absurd accepts fails
  | refused _ fails _ _ => exact absurd accepts fails

theorem accepted_posts {group after : DomainGroup N} {id : TransferId} {request : TransferRequest} {txCounter : Bool}
    (accepted : submitTransferRequest group id request txCounter = some (.ok (), after)) :
    after.posted = group.posted ++ acceptedOps group id request := by
  have outcome := submit_outcome group id txCounter request
  rw [accepted] at outcome
  cases outcome with
  | accepted turn accepts => rfl

end

end PplxGarden.Fabric.Proofs
