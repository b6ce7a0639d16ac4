import PplxGarden.Proofs.Rejections
import PplxGarden.Proofs.Scatter

/-! Requests that bring a worker down. Submitting panics for a barrier without targets and
for a scatter through a domain that does not exist; an operation that was posted panics
when a target of a scatter has no address in the domain. -/

namespace PplxGarden.Fabric.Proofs
open List Option

variable {N : Nat}
variable {group after : DomainGroup N} {request : TransferRequest} {id : TransferId}
  {txCounter : Bool} {error : FabricLibError}

def Constructs (op : RdmaOp (FiAddr × Qp)) : Prop :=
  (Efa.WriteOpIter.new (op.map Prod.fst)).isSome ∧ (Verbs.WriteOpIter.new (op.map Prod.snd)).isSome

def peerCount (group : DomainGroup N) (handle : Option PeerGroupHandle) (op : ScatterGroupWriteOp) : Nat :=
  match handle with
  | none => op.dsts.length
  | some handle => ((group.peerGroups handle).map List.length).getD 0

/-- What a domain does with an operation goes on without a panic, wherever the peers are. -/
def GoesOn (group : DomainGroup N) : DomainOp → Prop
  | .write _ op => ∀ dest, Constructs (.write op dest)
  | .groupWrite handle op =>
    (handle = none → op.peerAddrs.isSome) ∧ ∀ dests, dests.length = peerCount group handle op →
      Constructs (.scatter op dests)

/-- A submission returns, and all that it posts goes on. -/
def Survives (group : DomainGroup N) (id : TransferId) (request : TransferRequest) (txCounter : Bool) : Prop :=
  ∃ result after, submitTransferRequest group id request txCounter = some (result, after) ∧
    ∀ op ∈ after.posted.drop group.posted.length, GoesOn group op.op

/-- The targets of a part have an address in its domain: all of them where the addresses
are read from the targets, otherwise the first. -/
def PartKnown (request : ScatterTransferRequest) (part : ScatterPart) : Prop :=
  asU32 part.byteShards ≠ 0 ∧
    (request.dstHandle = none → ∀ dst ∈ request.dsts, part.domainIdx < dst.dstMr.addrRkeyList.length) ∧
    ∀ dst, request.dsts[part.dstBeg]? = some dst → part.domainIdx < dst.dstMr.addrRkeyList.length

/-- The targets of a scatter have addresses. -/
def TargetsKnown (N : Nat) : TransferRequest → Prop
  | .scatter request => ∀ part ∈ scatterParts request.domain N request.dsts.length, PartKnown request part
  | _ => True

theorem pages_construct {op : PagedWriteOp} (asserted : (WriteOp.paged op).Asserted)
    (dest : FiAddr × Qp) : Constructs (.write (.paged op) dest) := by
  constructor
  · refine isSome_iff_exists.mpr (Efa.new_goes asserted fun request member => ?_)
    obtain ⟨i, listed, rfl⟩ := List.mem_map.mp member
    rw [isSome_map]
    rw [mem_range'_1] at listed
    exact PagedWriteOp.pages_isSome asserted (by omega)
  · refine isSome_iff_exists.mpr (Verbs.new_goes asserted fun request member => ?_)
    obtain ⟨i, listed, rfl⟩ := List.mem_map.mp member
    rw [isSome_map]
    rw [mem_range'_1, Verbs.numPages] at listed
    exact PagedWriteOp.pages_isSome asserted (by omega)

theorem scatter_construct_iff {op : ScatterGroupWriteOp} {dests : List (FiAddr × Qp)}
    (asserted : (RdmaOp.scatter op dests).Asserted) :
    Constructs (.scatter op dests) ↔ (op.shard op.dstBeg).isSome := by
  obtain ⟨some_, inside, sized⟩ := asserted
  have first : (RdmaOp.scatter op (dests.map Prod.fst)).Asserted := ⟨some_, inside, by rw [length_map, sized]⟩
  have second : (RdmaOp.scatter op (dests.map Prod.snd)).Asserted := ⟨some_, inside, by rw [length_map, sized]⟩
  have place : op.dstBeg < (dests.map Prod.fst).length := by
    rw [length_map]
    omega
  rw [Constructs, RdmaOp.map, RdmaOp.map, Efa.new_eq _ first, Verbs.new_eq _ second, Efa.start,
    Verbs.start, isSome_map, isSome_map,
    Efa.targetPart, List.getElem?_eq_getElem place]
  cases op.shard op.dstBeg <;> simp

theorem pageOps_goOn (group : DomainGroup N) (id : TransferId) {request : PagedTransferRequest}
    (even : request.srcPageIndices.length = request.dstPageIndices.length) :
    ∀ op ∈ pageOps group id request, GoesOn group op.op := by
  intro op member
  obtain ⟨⟨range, index⟩, listed, rfl⟩ := List.mem_map.mp member
  intro dest
  have inside := divideEvenly_inside range (mem_of_getElem? (mem_zipIdx_iff_getElem?.mp listed))
  exact pages_construct ⟨inside.1, even, inside.2⟩ dest

theorem scatterPosts_goOn_iff (id : TransferId) {request : ScatterTransferRequest}
    (accepts : Accepts group (.scatter request)) :
    (∀ op ∈ scatterPosts group id request, GoesOn group op.op) ↔
      TargetsKnown N (.scatter request) := by
  obtain ⟨nonempty, known, -, -⟩ := accepts
  have counts : ∀ part, peerCount group request.dstHandle (scatterWrite group request part) = request.dsts.length := by
    intro part
    cases handle : request.dstHandle with
    | none => rfl
    | some handle' => rw [peerCount, known handle' handle, getD_some]
  have each : ∀ part ∈ scatterParts request.domain N request.dsts.length,
      GoesOn group (.groupWrite request.dstHandle (scatterWrite group request part)) ↔ PartKnown request part := by
    intro part member
    obtain ⟨some_, inside⟩ := scatterParts_ranged request.domain (length_pos_iff.mpr nonempty) part member
    obtain ⟨dst, found⟩ : ∃ dst, request.dsts[part.dstBeg]? = some dst := ⟨_, List.getElem?_eq_getElem (by omega)⟩
    have shard := shard_isSome_iff (scatterWrite group request part) found
    have asserted : ∀ dests : List (FiAddr × Qp), dests.length = request.dsts.length →
        (RdmaOp.scatter (scatterWrite group request part) dests).Asserted := fun _ sized => ⟨some_, inside, sized⟩
    rw [GoesOn, counts, peerAddrs_isSome_iff, PartKnown, found]
    constructor
    · rintro ⟨addressed, constructs⟩
      have made := (scatter_construct_iff (asserted _ length_replicate)).mp
        (constructs (replicate request.dsts.length (0, 0)) length_replicate)
      obtain ⟨narrow, held⟩ := shard.mp made
      exact ⟨narrow, addressed, fun _ same => Option.some.inj same ▸ held⟩
    · rintro ⟨narrow, addressed, held⟩
      exact ⟨addressed, fun dests sized => (scatter_construct_iff (asserted dests sized)).mpr
        (shard.mpr ⟨narrow, held dst rfl⟩)⟩
  constructor
  · intro goes part member
    exact (each part member).mp (goes _ (List.mem_map_of_mem member))
  · intro targets op member
    obtain ⟨part, listed, rfl⟩ := List.mem_map.mp member
    exact (each part listed).mpr (targets part listed)

section
variable (refused : submitTransferRequest group id request txCounter = some (.error error, after))
include refused

theorem refused_posts {op : Posted N} (posted : op ∈ after.posted.drop group.posted.length) :
    ∃ pages : PagedTransferRequest, pages.srcPageIndices.length = pages.dstPageIndices.length ∧
      op ∈ pageOps group id pages := by
  have unposted : after.posted ≠ group.posted := by
    intro same
    rw [same, drop_length] at posted
    cases posted
  cases request with
  | imm request => exact absurd (submitImm_clears refused).1 unposted
  | barrier request => exact absurd (submitImm_clears refused).1 unposted
  | single request => exact absurd (submitSingle_clears refused).2 unposted
  | scatter request => exact absurd (submitScatter_clears refused).2 unposted
  | paged request =>
    obtain ⟨⟨ops, posts, own⟩, -⟩ := submitPaged_clears refused
    rw [posts, drop_left] at posted
    exact ⟨request, (own op posted).2, (own op posted).1⟩

private theorem refused_goOn :
    ∀ op ∈ after.posted.drop group.posted.length, GoesOn group op.op := by
  intro op member
  obtain ⟨pages, even, listed⟩ := refused_posts refused member
  exact pageOps_goOn group id even op listed

end

theorem accepted_goOn_iff (id : TransferId) (accepts : Accepts group request) :
    (∀ op ∈ acceptedOps group id request, GoesOn group op.op) ↔ TargetsKnown N request := by
  have imms : ∀ immData dstMrs routing, ∀ op ∈ immOps group id immData dstMrs routing, GoesOn group op.op := by
    intro immData dstMrs routing op member
    obtain ⟨item, -, rfl⟩ := List.mem_map.mp member
    exact fun dest => ⟨rfl, rfl⟩
  cases request with
  | imm request => exact iff_of_true (imms _ _ _) trivial
  | barrier request => exact iff_of_true (imms _ _ _) trivial
  | single request =>
    refine iff_of_true (fun op member => ?_) trivial
    obtain ⟨item, -, rfl⟩ := List.mem_map.mp member
    exact fun dest => ⟨rfl, rfl⟩
  | paged request => exact iff_of_true (pageOps_goOn group id accepts.2.1) trivial
  | scatter request => exact scatterPosts_goOn_iff id accepts

/-! What the domains take while a request is submitted. -/

def resolution (resolve : DomainAddress → Resolution) (domainIdx : Nat)
    (dst : ScatterTarget MemoryRegionDescriptor) : Option Resolution :=
  dst.dstMr.addrRkeyList[domainIdx]?.map fun entry => resolve entry.1

private theorem resolution_isSome_iff (resolve : DomainAddress → Resolution) (domainIdx : Nat)
    (dst : ScatterTarget MemoryRegionDescriptor) :
    (resolution resolve domainIdx dst).isSome ↔ domainIdx < dst.dstMr.addrRkeyList.length := by
  rw [resolution, isSome_map, isSome_getElem?]

section
variable (op : ScatterGroupWriteOp) (resolve : DomainAddress → Resolution)

private theorem go_cons (dst : ScatterTarget MemoryRegionDescriptor)
    (dsts : List (ScatterTarget MemoryRegionDescriptor)) (sofar : Resolution) :
    ScatterGroupWriteOp.resolveTargets.go op resolve (dst :: dsts) sofar =
      match resolution resolve op.domainIdx dst with
      | none => none
      | some .failed => some .failed
      | some .connecting => ScatterGroupWriteOp.resolveTargets.go op resolve dsts .connecting
      | some .found => ScatterGroupWriteOp.resolveTargets.go op resolve dsts sofar := by
  rw [ScatterGroupWriteOp.resolveTargets.go, resolution]
  cases dst.dstMr.addrRkeyList[op.domainIdx]? with
  | none => rfl
  | some entry =>
    simp only [bind_eq_bind, bind_some, map_some]
    cases resolve entry.1 with
    | found => rfl
    | connecting => rfl
    | failed => rfl

private theorem go_isSome_iff (dsts : List (ScatterTarget MemoryRegionDescriptor)) (sofar : Resolution) :
    (ScatterGroupWriteOp.resolveTargets.go op resolve dsts sofar).isSome ↔
      ∀ dst ∈ dsts.takeWhile (resolution resolve op.domainIdx · ≠ some .failed),
        (resolution resolve op.domainIdx dst).isSome := by
  induction dsts generalizing sofar with
  | nil => simp [ScatterGroupWriteOp.resolveTargets.go]
  | cons dst dsts ih =>
    rw [go_cons, takeWhile_cons]
    cases found : resolution resolve op.domainIdx dst with
    | none => simp [found]
    | some answer =>
      cases answer with
      | failed => simp
      | connecting => simpa [found] using ih .connecting
      | found => simpa [found] using ih sofar

private theorem go_found_iff (dsts : List (ScatterTarget MemoryRegionDescriptor)) (sofar : Resolution) :
    ScatterGroupWriteOp.resolveTargets.go op resolve dsts sofar = some .found ↔
      sofar = .found ∧ ∀ dst ∈ dsts, resolution resolve op.domainIdx dst = some .found := by
  induction dsts generalizing sofar with
  | nil => simp [ScatterGroupWriteOp.resolveTargets.go]
  | cons dst dsts ih =>
    rw [go_cons, forall_mem_cons]
    cases found : resolution resolve op.domainIdx dst with
    | none => simp
    | some answer =>
      cases answer with
      | failed => simp
      | connecting => simp [ih]
      | found => simp [ih]

private theorem resolveTargets_isSome_iff : (op.resolveTargets resolve).isSome ↔
    ∀ dst ∈ op.dsts.takeWhile (resolution resolve op.domainIdx · ≠ some .failed),
      op.domainIdx < dst.dstMr.addrRkeyList.length := by
  refine (go_isSome_iff op resolve op.dsts .found).trans ?_
  simp only [resolution_isSome_iff]

private theorem resolveTargets_found_iff : op.resolveTargets resolve = some .found ↔
    ∀ dst ∈ op.dsts, resolution resolve op.domainIdx dst = some .found :=
  (go_found_iff op resolve op.dsts .found).trans (and_iff_right rfl)

end

/-- A scatter is started if there is an endpoint for every target and the first requests can
be built. -/
theorem scatter_starts_iff {op : ScatterGroupWriteOp} (units : List Unit) (taken : Nat)
    (targets : op.dstBeg < op.dstEnd) (inside : op.dstEnd ≤ op.dsts.length) :
    (RdmaOp.scatter op units).starts taken ↔ units.length = op.dsts.length ∧
      ∀ i, op.dstBeg ≤ i → i ≤ op.dstBeg + taken → i < op.dstEnd → (op.shard i).isSome := by
  by_cases sized : units.length = op.dsts.length
  · have first : (RdmaOp.scatter op (units.map fun _ => (0 : FiAddr))).Asserted :=
      ⟨targets, inside, by rw [length_map, sized]⟩
    have second : (RdmaOp.scatter op (units.map fun _ => (0 : Qp))).Asserted := ⟨targets, inside, by rw [length_map, sized]⟩
    have addressed : ∀ i, i < op.dstEnd → (Efa.targetPart op (units.map fun _ => 0) i).isSome = (op.shard i).isSome := by
      intro i below
      have place : i < (units.map fun _ => (0 : FiAddr)).length := by
        rw [length_map]
        omega
      rw [Efa.targetPart, List.getElem?_eq_getElem place]
      cases op.shard i <;> rfl
    have efa := (Efa.scatter_oneByOne op (units.map fun _ => 0)).any_hands_iff targets taken
    have verbs := (Verbs.scatter_oneByOne op (units.map fun _ => 0)).any_hands_iff targets taken
    simp only [RdmaOp.starts, RdmaOp.map, Efa.new_eq _ first, Verbs.new_eq _ second, Efa.start,
      Verbs.start, Bool.and_eq_true]
    rw [efa, verbs]
    constructor
    · intro both
      exact ⟨sized, both.2⟩
    · intro shards
      refine ⟨fun i low high below => ?_, shards.2⟩
      rw [addressed i below]
      exact shards.2 i low high below
  · refine iff_of_false ?_ fun starts => sized starts.1
    intro starts
    rw [RdmaOp.starts, Bool.and_eq_true] at starts
    obtain ⟨iter, made, -⟩ := (Option.any_eq_true _ _).mp starts.1
    have sizes := (Efa.asserted_of_new made).2.2
    rw [length_map] at sizes
    exact sized sizes

/-- The part of a scatter does not panic while its domain is given it. With a group that is
connected there are as many targets, and those of the first requests have an address in the
domain; without a group, those before the first that is not resolved have one. -/
def PartTaken (domain : Domain) (around : Surroundings) (request : ScatterTransferRequest)
    (part : ScatterPart) : Prop :=
  match request.dstHandle with
  | some handle => ∀ addrs, domain.peerGroups handle = some addrs → around.connecting handle = false →
      addrs.length = request.dsts.length ∧ asU32 part.byteShards ≠ 0 ∧
        ∀ i dst, part.dstBeg ≤ i → i ≤ part.dstBeg + around.taken → i < part.dstEnd → request.dsts[i]? = some dst →
          part.domainIdx < dst.dstMr.addrRkeyList.length
  | none =>
    (∀ dst ∈ request.dsts.takeWhile (resolution around.resolve part.domainIdx · ≠ some .failed),
        part.domainIdx < dst.dstMr.addrRkeyList.length) ∧
      ((∀ dst ∈ request.dsts, resolution around.resolve part.domainIdx dst = some .found) → asU32 part.byteShards ≠ 0)

def TakenBy (group : DomainGroup N) (around : Fin N → Surroundings) : TransferRequest → Prop
  | .scatter request => ∀ part ∈ scatterParts request.domain N request.dsts.length,
      PartTaken (group.domains (slot group part.domainIdx)) (around (slot group part.domainIdx)) request part
  | _ => True

private theorem write_taken (domain : Domain) (around : Surroundings) {dstAddr : DomainAddress} {op : WriteOp}
    (goes : GoesOn group (.write dstAddr op)) : domain.takes around (.write dstAddr op) := by
  obtain ⟨efa, verbs⟩ := goes (0, 0)
  have starts : (RdmaOp.write op ()).starts around.taken := Bool.and_eq_true_iff.mpr ⟨efa, verbs⟩
  rw [Domain.takes, starts, Bool.or_true]

private theorem writes_taken (around : Fin N → Surroundings) {α : Type} {items : List α}
    {post : α → Posted N} (goes : ∀ op ∈ items.map post, GoesOn group op.op)
    (writes : ∀ item ∈ items, ∃ dstAddr op, (post item).op = .write dstAddr op) :
    ∀ op ∈ items.map post, (group.domains op.domain).takes (around op.domain) op.op := by
  refine List.forall_mem_map.mpr fun item member => ?_
  obtain ⟨dstAddr, op, write⟩ := writes item member
  have goesOn := goes _ (List.mem_map_of_mem member)
  rw [write] at goesOn ⊢
  exact write_taken _ _ goesOn

private theorem shards_iff (group : DomainGroup N) {request : ScatterTransferRequest}
    {part : ScatterPart} (taken : Nat) (targets : part.dstBeg < part.dstEnd)
    (inside : part.dstEnd ≤ request.dsts.length) :
    (∀ i, part.dstBeg ≤ i → i ≤ part.dstBeg + taken → i < part.dstEnd →
      ((scatterWrite group request part).shard i).isSome) ↔
      asU32 part.byteShards ≠ 0 ∧
        ∀ i dst, part.dstBeg ≤ i → i ≤ part.dstBeg + taken → i < part.dstEnd →
          request.dsts[i]? = some dst →
          part.domainIdx < dst.dstMr.addrRkeyList.length := by
  have exist : ∀ i < part.dstEnd, ∃ dst, request.dsts[i]? = some dst :=
    fun i below => ⟨_, List.getElem?_eq_getElem (by omega)⟩
  constructor
  · intro shards
    obtain ⟨dst, start⟩ := exist part.dstBeg targets
    have first := shards part.dstBeg (Nat.le_refl _) (Nat.le_add_right _ _) targets
    refine ⟨((shard_isSome_iff (scatterWrite group request part) start).mp first).1, ?_⟩
    intro i dst low high below found
    exact ((shard_isSome_iff (scatterWrite group request part) found).mp (shards i low high below)).2
  · intro known i low high below
    obtain ⟨dst, found⟩ := exist i below
    exact (shard_isSome_iff (scatterWrite group request part) found).mpr ⟨known.1, known.2 i dst low high below found⟩

theorem part_taken_iff (group : DomainGroup N) (domain : Domain) (around : Surroundings)
    {request : ScatterTransferRequest} {part : ScatterPart} (targets : part.dstBeg < part.dstEnd)
    (inside : part.dstEnd ≤ request.dsts.length) :
    domain.takes around (.groupWrite request.dstHandle (scatterWrite group request part)) ↔
      PartTaken domain around request part := by
  have starts (units : List Unit) : (RdmaOp.scatter (scatterWrite group request part) units).starts around.taken ↔
      units.length = request.dsts.length ∧ _ :=
    (scatter_starts_iff units around.taken targets inside).trans
      (and_congr_right' (shards_iff group around.taken targets inside))
  cases handled : request.dstHandle with
  | some handle =>
    simp only [PartTaken, handled, Domain.takes]
    cases domain.peerGroups handle with
    | none => simp
    | some addrs =>
      have sized := starts (addrs.map fun _ => ())
      rw [length_map] at sized
      cases around.connecting handle with
      | true => simp
      | false => simpa using sized
  | none =>
    have known := resolveTargets_isSome_iff (scatterWrite group request part) around.resolve
    have allFound := resolveTargets_found_iff (scatterWrite group request part) around.resolve
    simp only [PartTaken, handled, Domain.takes]
    cases answered : (scatterWrite group request part).resolveTargets around.resolve with
    | none =>
      rw [answered] at known
      exact iff_of_false Bool.false_ne_true fun taken => Bool.false_ne_true (known.mpr taken.1)
    | some answer =>
      rw [answered] at known allFound
      refine Iff.trans ?_ (and_iff_right (known.mp rfl)).symm
      cases answer with
      | found =>
        have every : ∀ dst ∈ request.dsts, resolution around.resolve part.domainIdx dst = some .found := allFound.mp rfl
        have addressed (i : Nat) (dst : ScatterTarget MemoryRegionDescriptor) (found : request.dsts[i]? = some dst) :
            part.domainIdx < dst.dstMr.addrRkeyList.length := by
          rw [← resolution_isSome_iff around.resolve, every dst (mem_of_getElem? found)]
          rfl
        rw [starts, length_map, forall_prop_of_true every]
        exact ⟨fun made => made.2.1, fun narrow => ⟨rfl, narrow, fun i dst _ _ _ => addressed i dst⟩⟩
      | connecting => exact iff_of_true rfl fun every => absurd (allFound.mpr every) (by decide)
      | failed => exact iff_of_true rfl fun every => absurd (allFound.mpr every) (by decide)

theorem accepted_taken_iff (id : TransferId) (around : Fin N → Surroundings)
    (accepts : Accepts group request) :
    (∀ op ∈ acceptedOps group id request, (group.domains op.domain).takes (around op.domain)
      op.op) ↔ TakenBy group around request := by
  have goes := accepted_goOn_iff id accepts
  cases request with
  | imm request => exact iff_of_true (writes_taken around (goes.mpr trivial) fun _ _ => ⟨_, _, rfl⟩) trivial
  | barrier request => exact iff_of_true (writes_taken around (goes.mpr trivial) fun _ _ => ⟨_, _, rfl⟩) trivial
  | single request => exact iff_of_true (writes_taken around (goes.mpr trivial) fun _ _ => ⟨_, _, rfl⟩) trivial
  | paged request => exact iff_of_true (writes_taken around (goes.mpr trivial) fun _ _ => ⟨_, _, rfl⟩) trivial
  | scatter request =>
    have ranged := scatterParts_ranged request.domain (N := N) (length_pos_iff.mpr accepts.1)
    constructor
    · intro taken part member
      obtain ⟨targets, inside⟩ := ranged part member
      exact (part_taken_iff group _ _ targets inside).mp (taken _ (List.mem_map_of_mem member))
    · intro taken op member
      obtain ⟨part, listed, rfl⟩ := List.mem_map.mp member
      obtain ⟨targets, inside⟩ := ranged part listed
      exact (part_taken_iff group _ _ targets inside).mpr (taken part listed)

theorem refused_taken (around : Fin N → Surroundings)
    (refused : submitTransferRequest group id request txCounter = some (.error error, after)) :
    ∀ op ∈ after.posted.drop group.posted.length, (group.domains op.domain).takes (around op.domain)
      op.op := by
  intro op member
  obtain ⟨pages, even, listed⟩ := refused_posts refused member
  exact writes_taken around (pageOps_goOn group id even) (fun _ _ => ⟨_, _, rfl⟩) op listed

private theorem accepts_not_panics (accepts : Accepts group request) : ¬ Panics group request := by
  intro panics
  cases request with
  | imm request => exact accepts.1 panics.1
  | barrier request => exact accepts.1 panics.1
  | single request => exact panics
  | paged request => exact panics
  | scatter request =>
    obtain ⟨-, -, domainIdx, routing, outside⟩ := panics
    have inside := accepts.2.2.1
    rw [routing] at inside
    exact Nat.not_lt.mpr outside (inside _ (mem_singleton_self _))

def scatterThrough (addrs : List (DomainAddress × RemoteKey)) (domain : GroupTransferRouting) : TransferRequest :=
  .scatter ⟨5, none, [⟨⟨100, addrs⟩, 64, 0, 0⟩], none, domain⟩

end PplxGarden.Fabric.Proofs
