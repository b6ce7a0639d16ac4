import PplxGarden.Proofs.Scatter

/-! Whether the operations of a request are built for the domain that posts them.
Pages are, and so are scatters without a handle. Immediates take the entry of their chunk and
single transfers are posted in domain order, so both are only right when the first domain is
domain zero. A scatter with a handle goes to the addresses of the peer group, whatever the
entries of its targets are. -/

namespace PplxGarden.Fabric
open List Option Nat

variable {N : Nat}
variable {index : Nat}

/-- The address and the key that an operation uses for one of its targets. -/
structure Lookup where
  target : Nat
  addr : Option DomainAddress
  rkey : Option RemoteKey
deriving Repr, DecidableEq

def Lookup.ofEntry (target : Nat) (entry : Option (DomainAddress × RemoteKey)) : Lookup :=
  ⟨target, entry.map Prod.fst, entry.map Prod.snd⟩

/-- Everything an operation reads from its domain and the descriptors. -/
structure Lookups where
  targets : List Lookup
  source : Option (MemoryPtr × LocalDescriptor)
deriving Repr, DecidableEq

/-- The entry of a target that a group write looks at. -/
def ScatterGroupWriteOp.entry (op : ScatterGroupWriteOp) (target : Nat) : Option (DomainAddress × RemoteKey) :=
  op.dsts[target]?.bind fun dst => dst.dstMr.addrRkeyList[op.domainIdx]?

/-- The targets that a group write uses. Without a handle the addresses of all targets are
looked up in their entries; with one they are those of the domain's peer group, and a domain
without the group looks nothing up. -/
def ScatterGroupWriteOp.lookups (op : ScatterGroupWriteOp) (domain : Domain) : Option PeerGroupHandle → List Lookup
  | none => (List.range op.dsts.length).map fun target => .ofEntry target (op.entry target)
  | some handle => match domain.peerGroups handle with
    | none => []
    | some addrs => (range' op.dstBeg (op.dstEnd - op.dstBeg)).map fun target =>
      ⟨target, addrs[target]?, (op.entry target).map Prod.snd⟩

def DomainOp.lookups (domain : Domain) : DomainOp → Lookups
  | .write dstAddr (.single op) => ⟨[.ofEntry 0 (some (dstAddr, op.dstRkey))], some (op.srcPtr, op.srcDesc)⟩
  | .write dstAddr (.imm op) => ⟨[.ofEntry 0 (some (dstAddr, op.dstRkey))], none⟩
  | .write dstAddr (.paged op) => ⟨[.ofEntry 0 (some (dstAddr, op.dstRkey))], some (op.srcPtr, op.srcDesc)⟩
  | .groupWrite handle op => ⟨op.lookups domain handle, some (op.srcPtr, op.srcDesc)⟩

def Posted.lookups (group : DomainGroup N) (posted : Posted N) : Lookups :=
  posted.op.lookups (group.domains posted.domain)

/-- The targets of the operation with an index. -/
def TransferRequest.targets : TransferRequest → Nat → List MemoryRegionDescriptor
  | .imm request, _ => [request.dstMr]
  | .barrier request, index => request.dstMrs[index]?.toList
  | .single request, _ => [request.dstMr]
  | .paged request, _ => [request.dstMr]
  | .scatter request, _ => request.dsts.map ScatterTarget.dstMr

def TransferRequest.routing : TransferRequest → Option DomainGroupRouting
  | .imm request => some request.domain
  | .barrier request => some request.domain
  | .single request => some request.domain
  | .paged _ => none
  | .scatter _ => none

/-- Every operation uses the entries of the posting domain and the source as that
domain knows it, and a pinned request stays on its domain. -/
structure BuiltForPoster (group : DomainGroup N) (request : TransferRequest) (ops : List (Posted N)) : Prop where
  entries : ∀ index posted, ops[index]? = some posted → ∀ lookup ∈ (posted.lookups group).targets,
    ∃ dstMr, (request.targets index)[lookup.target]? = some dstMr ∧
      lookup = .ofEntry lookup.target dstMr.addrRkeyList[posted.domain.val]?
  source : ∀ posted ∈ ops, ∀ ptr desc, (posted.lookups group).source = some (ptr, desc) →
    (group.domains posted.domain).getMemDesc ptr = .ok desc
  pinned : ∀ domainIdx, request.routing = some (.pinned domainIdx) → ∀ posted ∈ ops, posted.domain.val = domainIdx

/-- The entries of a descriptor can be told apart: the domains of its owner have
different addresses. -/
def TransferRequest.Distinct (request : TransferRequest) : Prop :=
  ∀ index, ∀ dstMr ∈ request.targets index, dstMr.addrRkeyList.Nodup

/-- The first domain is domain zero, for requests that are routed at all. -/
def StartsAtZero (group : DomainGroup N) (request : TransferRequest) : Prop :=
  ∀ routing, request.routing = some routing → Proofs.firstDomain group routing = 0

/-- The peer group of a scatter has the addresses of the targets, in every domain that has the
group and for the targets that the domain writes to. -/
def GroupMatches (group : DomainGroup N) : TransferRequest → Prop
  | .scatter request =>
    ∀ handle, request.dstHandle = some handle →
      ∀ part ∈ scatterParts request.domain N request.dsts.length,
    ∀ addrs, (group.domains (Proofs.slot group part.domainIdx)).peerGroups handle = some addrs →
      ∀ j dst, part.dstBeg ≤ j → j < part.dstEnd → request.dsts[j]? = some dst →
        addrs[j]? = dst.dstMr.addrRkeyList[part.domainIdx]?.map Prod.fst
  | _ => True

namespace Proofs

section
variable {group : DomainGroup N} {id : TransferId}

private theorem accepted_posted {request : TransferRequest} {txCounter : Bool} {after : DomainGroup N}
    (accepted : submitTransferRequest group id request txCounter = some (.ok (), after)) :
    Accepts group request ∧ after.posted.drop group.posted.length = acceptedOps group id request := by
  have outcome := submit_outcome group id txCounter request
  rw [accepted] at outcome
  cases outcome with
  | accepted turn accepts => exact ⟨accepts, drop_left⟩

theorem firstDomain_lt {request : TransferRequest} {routing : DomainGroupRouting} (accepts : Accepts group request)
    (routed : request.routing = some routing) : firstDomain group routing < N := by
  cases routing with
  | roundRobinSharded numShards => exact group.rrNext.isLt
  | pinned domainIdx =>
    cases request with
    | imm request =>
      have fits := accepts.2.2
      rw [Option.some.inj routed] at fits
      exact fits
    | barrier request =>
      have fits := accepts.2.2
      rw [Option.some.inj routed] at fits
      exact fits
    | single request => exact accepts.2.2.1 domainIdx (Option.some.inj routed)
    | paged request => cases routed
    | scatter request => cases routed

theorem made_from {α β : Type} {items : List α} {make : α × Nat → β} {made : β}
    (listed : (items.zipIdx.map make)[index]? = some made) :
    ∃ item, items[index]? = some item ∧ make (item, index) = made := by
  rw [getElem?_map, getElem?_zipIdx, Nat.zero_add, Option.map_map, map_eq_some_iff] at listed
  exact listed

private theorem immOp_entries (immData first perDomain : Nat) {dstMr : MemoryRegionDescriptor}
    (inside : index / perDomain < dstMr.addrRkeyList.length) :
    ((immOp group id immData first perDomain dstMr index).lookups group).targets =
      [.ofEntry 0 dstMr.addrRkeyList[index / perDomain]?] := by
  rw [entryFor_eq inside]
  rfl

private theorem single_entries (group : DomainGroup N) (request : SingleTransferRequest)
    (long : request.dstMr.addrRkeyList.length = N) (domain : Fin N) (range : Nat × Nat)
    (poster : Domain) :
    ((DomainOp.write (singleWrite group request domain range).1
      (.single (singleWrite group request domain range).2)).lookups poster).targets =
        [.ofEntry 0 request.dstMr.addrRkeyList[domain.val]?] := by
  rw [entryFor_eq (by rw [long]; exact domain.isLt)]
  rfl

section
variable {request : TransferRequest} {routing : DomainGroupRouting}

/-- What the first operation of a routed request shows: it carries one entry, and
that is the entry of the posting domain only if the first domain is domain zero. -/
def FirstTells (group : DomainGroup N) (request : TransferRequest) (routing : DomainGroupRouting)
    (ops : List (Posted N)) : Prop :=
  ∃ dstMr posted entry, request.targets 0 = [dstMr] ∧ ops[0]? = some posted ∧ entry < dstMr.addrRkeyList.length ∧
    (posted.lookups group).targets = [.ofEntry 0 dstMr.addrRkeyList[entry]?] ∧
    (entry = posted.domain.val → firstDomain group routing = 0)

theorem imms_tell (id : TransferId) (immData : Nat) {dstMr : MemoryRegionDescriptor}
    (rest : List MemoryRegionDescriptor) (targets : request.targets 0 = [dstMr])
    (long : dstMr.addrRkeyList.length = N) (inside : firstDomain group routing < N) :
    FirstTells group request routing (immOps group id immData (dstMr :: rest) routing) := by
  have positive : 0 < N := zero_lt_of_lt inside
  have chunk : 0 / immPerDomain N (dstMr :: rest).length routing < dstMr.addrRkeyList.length := by
    rw [long]
    exact chunk_lt positive (zero_lt_succ _) routing
  refine ⟨dstMr, _, _, targets, rfl, chunk, immOp_entries immData _ _ chunk, ?_⟩
  intro own
  have place : 0 / immPerDomain N (dstMr :: rest).length routing =
      (slot group (firstDomain group routing + 0 / immPerDomain N (dstMr :: rest).length routing)).val := own
  rw [Nat.zero_div, Nat.add_zero, slot_of_lt group inside] at place
  exact place.symm

theorem single_tells {request : SingleTransferRequest} (accepts : Accepts group (.single request)) :
    FirstTells group (.single request) request.domain (singleOps group id request) := by
  have inside : firstDomain group request.domain < N := firstDomain_lt accepts rfl
  have built : builtFor group request.domain 0 = ⟨firstDomain group request.domain, inside⟩ := by
    rw [← slot_of_lt group inside]
    cases request.domain <;> rfl
  obtain ⟨range, ranges, cut⟩ := exists_cons_of_length_pos
    ((shardSingleTransfer_length request.length (numShards request.domain)).symm ▸ numShards_pos request.domain)
  have carried := single_entries group request accepts.1 (builtFor group request.domain 0) range
    (group.domains (slot group 0))
  refine ⟨request.dstMr, ⟨slot group 0, id, _⟩, _, rfl, ?_, ?_, carried, ?_⟩
  · rw [singleOps, cut]
    rfl
  · rw [accepts.1]
    exact Fin.isLt _
  · intro own
    rw [built] at own
    exact own.trans (zero_mod N)

theorem first_tells (id : TransferId) (accepts : Accepts group request) (routed : request.routing = some routing) :
    FirstTells group request routing (acceptedOps group id request) := by
  have inside := firstDomain_lt accepts routed
  cases request with
  | imm request =>
    cases routed
    exact imms_tell id request.immData [] rfl (accepts.2.1 _ (mem_singleton_self _)) inside
  | barrier request =>
    cases routed
    obtain ⟨dstMr, rest, targets⟩ := exists_cons_of_ne_nil accepts.1
    have first : (TransferRequest.barrier request).targets 0 = [dstMr] := by
      rw [TransferRequest.targets, targets]
      rfl
    have tells := imms_tell id request.immData rest first (accepts.2.1 _ (targets ▸ mem_cons_self ..)) inside
    rw [← targets] at tells
    exact tells
  | single request =>
    cases routed
    exact single_tells accepts
  | paged request => cases routed
  | scatter request => cases routed

private theorem ofEntry_injective {target : Nat} {first second : Option (DomainAddress × RemoteKey)}
    (same : Lookup.ofEntry target first = .ofEntry target second) : first = second := by
  have addrs : first.map Prod.fst = second.map Prod.fst := congrArg Lookup.addr same
  have rkeys : first.map Prod.snd = second.map Prod.snd := congrArg Lookup.rkey same
  cases first with
  | none => exact (map_eq_none_iff.mp addrs.symm).symm
  | some first =>
    obtain ⟨second, rfl, addr⟩ := map_eq_some_iff.mp addrs.symm
    exact congrArg some (Prod.ext addr.symm (Option.some.inj rkeys))

private theorem startsAtZero_of_built (distinct : request.Distinct) (accepts : Accepts group request)
    (built : BuiltForPoster group request (acceptedOps group id request)) : StartsAtZero group request := by
  intro routing routed
  obtain ⟨dstMr, posted, entry, targets, first, inside, carried, zero⟩ := first_tells id accepts routed
  obtain ⟨target, found, own⟩ := built.entries 0 posted first _ (carried ▸ mem_singleton_self _)
  rw [targets] at found
  cases found
  exact zero ((getElem?_inj inside (distinct 0 dstMr (targets ▸ mem_singleton_self _))).mp (ofEntry_injective own))

theorem imm_built {immData : Nat} {dstMrs : List MemoryRegionDescriptor}
    (accepts : AcceptsImms N dstMrs routing) (zero : firstDomain group routing = 0)
    {posted : Posted N} (listed : (immOps group id immData dstMrs routing)[index]? = some posted) :
    ∃ dstMr, dstMrs[index]? = some dstMr ∧
      (posted.lookups group).targets = [.ofEntry 0 dstMr.addrRkeyList[posted.domain.val]?] ∧
      (posted.lookups group).source = none ∧ ∀ domainIdx, routing = .pinned domainIdx →
        posted.domain.val = domainIdx := by
  obtain ⟨dstMr, target, rfl⟩ := made_from listed
  have positive : 0 < N := zero_lt_of_lt group.rrNext.isLt
  have inside := chunk_lt positive (List.getElem?_eq_some_iff.mp target).1 routing
  have place : slot group (firstDomain group routing + index / immPerDomain N dstMrs.length routing) = ⟨_, inside⟩ := by
    rw [zero, Nat.zero_add, slot_of_lt group inside]
  refine ⟨dstMr, target, ?_, rfl, ?_⟩
  · refine (immOp_entries immData _ _ ?_).trans ?_
    · rw [accepts.2.1 dstMr (mem_of_getElem? target)]
      exact inside
    · simp only [immOp, place]
  · intro domainIdx pinned
    subst pinned
    have first : domainIdx = 0 := zero
    have alone : index / dstMrs.length = 0 := div_eq_of_lt (List.getElem?_eq_some_iff.mp target).1
    simp only [immOp, place]
    rw [first]
    exact alone

theorem imms_built {immData : Nat} {dstMrs : List MemoryRegionDescriptor}
    (accepts : AcceptsImms N dstMrs routing) (zero : firstDomain group routing = 0)
    (targets : ∀ index dstMr, dstMrs[index]? = some dstMr → request.targets index = [dstMr])
    (routed : request.routing = some routing) :
    BuiltForPoster group request (immOps group id immData dstMrs routing) := by
  constructor
  case entries =>
    intro index posted listed lookup member
    obtain ⟨dstMr, target, carried, _⟩ := imm_built accepts zero listed
    rw [carried, mem_singleton] at member
    subst member
    exact ⟨dstMr, by rw [targets index dstMr target]; rfl, rfl⟩
  case source =>
    intro posted member ptr desc source
    obtain ⟨index, listed⟩ := mem_iff_getElem?.mp member
    obtain ⟨_, _, _, none, _⟩ := imm_built accepts zero listed
    rw [none] at source
    cases source
  case pinned =>
    intro domainIdx pinned posted member
    obtain ⟨index, listed⟩ := mem_iff_getElem?.mp member
    obtain ⟨_, _, _, _, stays⟩ := imm_built accepts zero listed
    exact stays domainIdx (Option.some.inj (routed.symm.trans pinned))

private theorem builtFor_zero {routing : DomainGroupRouting} (zero : firstDomain group routing = 0)
    (inside : index < numShards routing) : builtFor group routing index = slot group index := by
  cases routing with
  | roundRobinSharded numShards =>
    have turn : group.rrNext.val = 0 := zero
    rw [builtFor, turn, Nat.zero_add]
  | pinned domainIdx =>
    have first : domainIdx = 0 := zero
    rw [builtFor, first, lt_one_iff.mp inside]

theorem single_built {request : SingleTransferRequest} (accepts : Accepts group (.single request))
    (zero : firstDomain group request.domain = 0) :
    BuiltForPoster group (.single request) (singleOps group id request) := by
  have shard {index : Nat} {posted : Posted N} (listed : (singleOps group id request)[index]? = some posted) :
      index < numShards request.domain ∧ ∃ range, posted = ⟨slot group index, id,
        .write (singleWrite group request (slot group index) range).1
          (.single (singleWrite group request (slot group index) range).2)⟩ := by
    obtain ⟨range, cut, rfl⟩ := made_from listed
    have inside := (List.getElem?_eq_some_iff.mp cut).1
    rw [shardSingleTransfer_length] at inside
    exact ⟨inside, range, by simp only [builtFor_zero zero inside]⟩
  constructor
  case entries =>
    intro index posted listed lookup member
    obtain ⟨inside, range, rfl⟩ := shard listed
    rw [Posted.lookups, single_entries group request accepts.1 _ range, mem_singleton] at member
    subst member
    exact ⟨request.dstMr, rfl, rfl⟩
  case source =>
    intro posted member ptr desc source
    obtain ⟨index, listed⟩ := mem_iff_getElem?.mp member
    obtain ⟨inside, range, rfl⟩ := shard listed
    cases source
    have registered := accepts.2.2.2 index inside
    rw [builtFor_zero zero inside] at registered
    exact getMemDesc_registered registered
  case pinned =>
    intro domainIdx pinned posted member
    have routed : request.domain = .pinned domainIdx := Option.some.inj pinned
    obtain ⟨index, listed⟩ := mem_iff_getElem?.mp member
    obtain ⟨inside, range, rfl⟩ := shard listed
    rw [routed] at inside zero
    have first : domainIdx = 0 := zero
    rw [first, lt_one_iff.mp inside]
    exact zero_mod N

theorem paged_built {request : PagedTransferRequest} (accepts : Accepts group (.paged request)) :
    BuiltForPoster group (.paged request) (pageOps group id request) := by
  constructor
  case entries =>
    intro index posted listed lookup member
    obtain ⟨range, cut, rfl⟩ := made_from listed
    have inside : (slot group (group.rrNext + index)).val < request.dstMr.addrRkeyList.length := by
      rw [accepts.1]
      exact Fin.isLt _
    cases mem_singleton.mp member
    exact ⟨request.dstMr, rfl, congrArg (Lookup.ofEntry 0) (entryFor_eq inside).symm⟩
  case source =>
    intro posted member ptr desc source
    obtain ⟨index, listed⟩ := mem_iff_getElem?.mp member
    obtain ⟨range, cut, rfl⟩ := made_from listed
    cases source
    exact getMemDesc_registered (accepts.2.2 index (List.getElem?_eq_some_iff.mp cut).1)
  case pinned =>
    intro domainIdx pinned
    cases pinned

private theorem scatterWrite_entry (request : ScatterTransferRequest) (part : ScatterPart) (target : Nat) :
    (scatterWrite group request part).entry target =
      request.dsts[target]?.bind fun dst => dst.dstMr.addrRkeyList[part.domainIdx]? := rfl

theorem scatter_built {request : ScatterTransferRequest}
    (accepts : Accepts group (.scatter request))
    (matches_ : GroupMatches group (.scatter request)) :
    BuiltForPoster group (.scatter request) (scatterPosts group id request) := by
  constructor
  case entries =>
    intro index posted listed lookup looked
    obtain ⟨part, member, rfl⟩ := List.mem_map.mp (mem_of_getElem? listed)
    have own : (slot group part.domainIdx).val = part.domainIdx := by rw [slot_of_lt group (accepts.2.2.1 part member)]
    have used : ∀ target, target < request.dsts.length → ∃ dst, request.dsts[target]? = some dst ∧
        (TransferRequest.scatter request).targets index = request.dsts.map ScatterTarget.dstMr :=
      fun target inside => ⟨_, List.getElem?_eq_getElem inside, rfl⟩
    simp only [Posted.lookups, DomainOp.lookups, ScatterGroupWriteOp.lookups] at looked
    cases given : request.dstHandle with
    | none =>
      rw [given] at looked
      obtain ⟨target, inside, rfl⟩ := List.mem_map.mp looked
      obtain ⟨dst, found, targets⟩ := used target (mem_range.mp inside)
      refine ⟨dst.dstMr, ?_, ?_⟩
      · simp only [targets, Lookup.ofEntry, getElem?_map, found, map_some]
      · simp only [scatterWrite_entry, found, bind_some, own]
        rfl
    | some handle =>
      rw [given] at looked
      cases held : (group.domains (slot group part.domainIdx)).peerGroups handle with
      | none =>
        simp only [held] at looked
        cases looked
      | some addrs =>
        simp only [held] at looked
        obtain ⟨target, inside, rfl⟩ := List.mem_map.mp looked
        obtain ⟨ordered, bound⟩ := scatterParts_ranged request.domain (length_pos_iff.mpr accepts.1) part member
        obtain ⟨low, high⟩ := mem_range'_1.mp inside
        simp only [scatterWrite] at low high
        obtain ⟨dst, found, targets⟩ := used target (by omega)
        refine ⟨dst.dstMr, ?_, ?_⟩
        · simp only [targets, getElem?_map, found, map_some]
        · simp only [scatterWrite_entry, found, bind_some, own,
            matches_ handle given part member addrs held target dst low (by omega) found]
          rfl
  case source =>
    intro posted listed ptr desc source
    obtain ⟨part, member, rfl⟩ := List.mem_map.mp listed
    cases source
    exact getMemDesc_registered (accepts.2.2.2 part member)
  case pinned =>
    intro domainIdx pinned
    cases pinned

theorem groupMatches_of_built (accepts : Accepts group request)
    (built : BuiltForPoster group request (acceptedOps group id request)) : GroupMatches group request := by
  cases request with
  | imm request => trivial
  | barrier request => trivial
  | single request => trivial
  | paged request => trivial
  | scatter request =>
    intro handle given part member addrs held j dst low high found
    obtain ⟨index, listed⟩ := mem_iff_getElem?.mp
      (List.mem_map_of_mem (f := fun part => (⟨slot group part.domainIdx, id,
        .groupWrite request.dstHandle (scatterWrite group request part)⟩ : Posted N)) member)
    have own : (slot group part.domainIdx).val = part.domainIdx := by rw [slot_of_lt group (accepts.2.2.1 part member)]
    have looked : (⟨j, addrs[j]?, ((scatterWrite group request part).entry j).map Prod.snd⟩ : Lookup) ∈
        (scatterWrite group request part).lookups (group.domains (slot group part.domainIdx)) request.dstHandle := by
      simp only [given, ScatterGroupWriteOp.lookups, held]
      refine List.mem_map.mpr ⟨j, mem_range'_1.mpr ⟨low, ?_⟩, rfl⟩
      simp only [scatterWrite]
      omega
    obtain ⟨dstMr, target, same⟩ := built.entries index _ listed _ looked
    have entry : dstMr = dst.dstMr := by
      simp only [TransferRequest.targets, getElem?_map, found, map_some, Option.some.injEq] at target
      exact target.symm
    rw [entry] at same
    have addr := congrArg Lookup.addr same
    rw [own] at addr
    exact addr

theorem built_of_startsAtZero (accepts : Accepts group request) (zero : StartsAtZero group request)
    (matches_ : GroupMatches group request) : BuiltForPoster group request (acceptedOps group id request) := by
  cases request with
  | imm request =>
    refine imms_built accepts (zero _ rfl) (fun index dstMr target => ?_) rfl
    rw [mem_singleton.mp (mem_of_getElem? target)]
    rfl
  | barrier request =>
    refine imms_built accepts (zero _ rfl) (fun index dstMr target => ?_) rfl
    rw [TransferRequest.targets, target]
    rfl
  | single request => exact single_built accepts (zero _ rfl)
  | paged request => exact paged_built accepts
  | scatter request => exact scatter_built accepts matches_

end

end

/-- The operations of an accepted request are built for the domains that post them
exactly if the request is not routed, or is routed from domain zero on, and the peer group of a
scatter has the addresses of its targets. -/
theorem builtForPoster_iff {group after : DomainGroup N} {id : TransferId}
    {request : TransferRequest} {txCounter : Bool}
    (accepted : submitTransferRequest group id request txCounter = some (.ok (), after))
    (distinct : request.Distinct) :
    BuiltForPoster group request (after.posted.drop group.posted.length) ↔
      StartsAtZero group request ∧ GroupMatches group request := by
  obtain ⟨accepts, posted⟩ := accepted_posted accepted
  rw [posted]
  constructor
  · intro built
    exact ⟨startsAtZero_of_built distinct accepts built, groupMatches_of_built accepts built⟩
  · rintro ⟨zero, matches_⟩
    exact built_of_startsAtZero accepts zero matches_

/-- A new group of two domains that know one local region under their own names. -/
def twoDomains : DomainGroup 2 :=
  .new Nat.two_pos fun domain => .ofRegions fun ptr => if ptr = 5 then some domain else none

def farRegion : MemoryRegionDescriptor := ⟨100, [(10, 1), (11, 2)]⟩

def roundRobinImm : TransferRequest := .imm ⟨3, farRegion, .roundRobinSharded ⟨1, Nat.one_pos⟩⟩

def pinnedSingle : TransferRequest := .single ⟨5, 0, 64, none, farRegion, 0, .pinned 1⟩

private theorem roundRobinImm_distinct : roundRobinImm.Distinct := by
  intro index dstMr member
  rw [mem_singleton.mp member]
  decide

/-- The first immediate of a new group is right. -/
theorem builtForPoster_iff_new :
    ∃ after, submitTransferRequest twoDomains 0 roundRobinImm false = some (.ok (), after) ∧
      BuiltForPoster twoDomains roundRobinImm (after.posted.drop twoDomains.posted.length) := by
  have accepted : submitTransferRequest twoDomains 0 roundRobinImm false = some (.ok (), _) := rfl
  refine ⟨_, accepted, (builtForPoster_iff accepted roundRobinImm_distinct).mpr ⟨?_, trivial⟩⟩
  intro routing routed
  cases routed
  rfl

/-- A group with a peer at other addresses than those of the far region. -/
def otherPeer : DomainGroup 2 :=
  { twoDomains with
    domains domain := { twoDomains.domains domain with peerGroups _ := some [20 + domain] }
    peerGroups _ := some [[20, 21]] }

def scatterToPeer : TransferRequest := .scatter ⟨5, some 0, [⟨farRegion, 64, 0, 0⟩], none, .single 0⟩

/-- The second immediate goes out on domain one with the entry of domain zero, a single
transfer pinned to domain one goes out on domain zero, and a scatter goes to the addresses of
its peer group. -/
theorem second_imm_misplaced :
    ∃ second after, submitTransferRequest twoDomains 0 roundRobinImm false = some (.ok (), second) ∧
      submitTransferRequest second 1 roundRobinImm false = some (.ok (), after) ∧
      ¬ BuiltForPoster second roundRobinImm (after.posted.drop second.posted.length) ∧
      (∃ pinned, submitTransferRequest twoDomains 0 pinnedSingle false = some (.ok (), pinned) ∧
        ¬ BuiltForPoster twoDomains pinnedSingle (pinned.posted.drop twoDomains.posted.length)) ∧
      ∃ scattered, submitTransferRequest otherPeer 0 scatterToPeer false =
        some (.ok (), scattered) ∧
        ¬ BuiltForPoster otherPeer scatterToPeer
          (scattered.posted.drop otherPeer.posted.length) := by
  refine ⟨_, _, rfl, rfl, ?_, ⟨_, rfl, ?_⟩, _, rfl, ?_⟩
  · intro built
    obtain ⟨_, target, same⟩ := built.entries 0 _ rfl _ (mem_singleton_self _)
    cases target
    revert same
    decide
  · intro built
    have stays := built.pinned 1 rfl _ (mem_singleton_self _)
    revert stays
    decide
  · intro built
    obtain ⟨_, target, same⟩ := built.entries 0 _ rfl _ (mem_singleton_self _)
    cases target
    revert same
    decide

end Proofs

end PplxGarden.Fabric
