import PplxGarden.Proofs.Submission

/-! What a transfer that is refused leaves behind. Immediates are recorded before their
routing is checked, and pages before their region is looked up; the other requests are
checked to the end first. -/

namespace PplxGarden.Fabric.Proofs
open Option

variable {N : Nat}

def NoEffect (group after : DomainGroup N) : Prop := after.writeOps = group.writeOps ∧ after.posted = group.posted

def ImmsChecked (N : Nat) (dstMrs : List MemoryRegionDescriptor) (routing : DomainGroupRouting) : Prop :=
  (∀ dstMr ∈ dstMrs, dstMr.addrRkeyList.length = N) → immRouting N routing

def ChecksEarly (group : DomainGroup N) : TransferRequest → Prop
  | .imm request => ImmsChecked N [request.dstMr] request.domain
  | .barrier request => ImmsChecked N request.dstMrs request.domain
  | .single _ => True
  | .paged request =>
    request.dstMr.addrRkeyList.length = N → request.srcPageIndices.length = request.dstPageIndices.length →
      ∀ k, k < (divideEvenly request.srcPageIndices.length N).length →
        Registered group request.srcMr (slot group (group.rrNext + k))
  | .scatter _ => True

def Clears (group after : DomainGroup N) (id : TransferId) (checked : Prop) : Prop :=
  (checked → NoEffect group after) ∧ (group.writeOps id = none → NoEffect group after → checked)

section
variable {group after : DomainGroup N} {id : TransferId} {txCounter : Bool} {error : FabricLibError}

theorem Clears.early {checked : Prop} (kept : NoEffect group after) (holds : checked) :
    Clears group after id checked :=
  ⟨fun _ => kept, fun _ _ => holds⟩

theorem Clears.late {checked : Prop} {ctx : WriteOpContext}
    (recorded : after.writeOps id = some ctx) (fails : ¬ checked) :
    Clears group after id checked := by
  refine ⟨fun holds => absurd holds fails, fun fresh kept => ?_⟩
  rw [← kept.1, recorded] at fresh
  cases fresh

theorem submitImm_clears {immData : Nat} {dstMrs : List MemoryRegionDescriptor} {routing : DomainGroupRouting}
    (refused : submitImmTransferRequest group id immData dstMrs routing txCounter = some (.error error, after)) :
    after.posted = group.posted ∧ Clears group after id (ImmsChecked N dstMrs routing) := by
  unfold submitImmTransferRequest at refused
  split at refused
  next mismatch =>
    cases refused
    refine ⟨rfl, .early ⟨rfl, rfl⟩ fun long => ?_⟩
    obtain ⟨dstMr, member, differs⟩ := List.any_eq_true.mp mismatch
    exact absurd (long dstMr member) (of_decide_eq_true differs)
  next matching =>
    have long : ∀ dstMr ∈ dstMrs, dstMr.addrRkeyList.length = N := by simpa using matching
    cases routing with
    | roundRobinSharded numShards =>
      simp only at refused
      split at refused
      next several =>
        cases refused
        exact ⟨rfl, .late (if_pos rfl) fun checked => several (checked long)⟩
      next =>
        obtain ⟨posted, -, ended⟩ := bind_eq_some_iff.mp refused
        cases ended
    | pinned domainIdx =>
      simp only at refused
      split at refused
      next outside =>
        cases refused
        exact ⟨rfl, .late (if_pos rfl) fun checked => Nat.not_lt.mpr outside (checked long)⟩
      next =>
        obtain ⟨posted, -, ended⟩ := bind_eq_some_iff.mp refused
        cases ended

theorem buildSingleOps_kept {request : SingleTransferRequest} {ranges : List (Nat × Nat)}
    {result : Except FabricLibError (List (DomainAddress × SingleWriteOp))}
    (built : buildSingleOps request ranges group = some (result, after)) :
    NoEffect group after := by
  induction ranges generalizing group result with
  | nil =>
    cases built
    exact ⟨rfl, rfl⟩
  | cons range ranges ih =>
    obtain ⟨⟨i, next⟩, chosen, rest⟩ := bind_eq_some_iff.mp built
    have kept : NoEffect group next := by
      cases routing : request.domain with
      | roundRobinSharded numShards =>
        rw [routing] at chosen
        cases chosen
        exact ⟨rfl, rfl⟩
      | pinned domainIdx =>
        rw [routing, shardDomain] at chosen
        split at chosen
        next =>
          cases chosen
          exact ⟨rfl, rfl⟩
        next => cases chosen
    obtain ⟨⟨dstAddr, dstRkey⟩, -, rest⟩ := bind_eq_some_iff.mp rest
    dsimp only at rest
    split at rest
    next =>
      cases rest
      exact kept
    next =>
      obtain ⟨⟨others, last⟩, later, ended⟩ := bind_eq_some_iff.mp rest
      cases ended
      have more := ih later
      exact ⟨more.1.trans kept.1, more.2.trans kept.2⟩

theorem submitSingle_clears {request : SingleTransferRequest}

    (refused : submitSingleTransferRequest group id request txCounter = some (.error error, after)) :
    NoEffect group after := by
  unfold submitSingleTransferRequest at refused
  split at refused
  next =>
    cases refused
    exact ⟨rfl, rfl⟩
  next =>
    simp only at refused
    split at refused
    next =>
      cases refused
      exact ⟨rfl, rfl⟩
    next =>
      obtain ⟨⟨result, next⟩, built, rest⟩ := bind_eq_some_iff.mp refused
      dsimp only at rest
      split at rest
      next =>
        cases rest
        exact buildSingleOps_kept built
      next => cases rest

theorem submitPaged_clears {request : PagedTransferRequest}
    (refused : submitPagedTransferRequest group id request txCounter = some (.error error, after)) :
    (∃ ops, after.posted = group.posted ++ ops ∧
      ∀ op ∈ ops, op ∈ pageOps group id request ∧ request.srcPageIndices.length = request.dstPageIndices.length) ∧
      Clears group after id (ChecksEarly group (.paged request)) := by
  have unposted : ∃ ops, group.posted = group.posted ++ ops ∧
      ∀ op ∈ ops, op ∈ pageOps group id request ∧ request.srcPageIndices.length = request.dstPageIndices.length :=
    ⟨[], (List.append_nil _).symm, fun _ member => by cases member⟩
  unfold submitPagedTransferRequest at refused
  split at refused
  next mismatch =>
    cases refused
    exact ⟨unposted, .early ⟨rfl, rfl⟩ fun long => absurd long mismatch⟩
  next matching =>
    split at refused
    next uneven =>
      cases refused
      exact ⟨unposted, .early ⟨rfl, rfl⟩ fun _ even => absurd even uneven⟩
    next even =>
      have long := not_not.mp matching
      generalize size : divideEvenly request.srcPageIndices.length N = ranges at refused
      obtain ⟨count, -, complete, next, posted⟩ :=
        postPages_eq (group.insert id ranges.length txCounter) id long ranges 0 []
      rw [Nat.add_zero, moved_nil] at posted
      simp only [Nat.zero_add] at complete
      simp only [posted] at refused
      by_cases full : count = ranges.length
      · rw [if_pos full] at refused
        cases refused
      · rw [if_neg full] at refused
        cases refused
        refine ⟨⟨_, rfl, fun op member => ?_⟩, .late (if_pos rfl) fun checked => full (complete.mpr ?_)⟩
        · obtain ⟨⟨range, index⟩, listed, rfl⟩ := List.mem_map.mp member
          rw [pageOps, size]
          have found := List.mem_zipIdx_iff_getElem?.mp listed
          rw [List.getElem?_take] at found
          split at found
          next => exact ⟨List.mem_map.mpr ⟨(range, index), List.mem_zipIdx_iff_getElem?.mpr found, rfl⟩, not_not.mp even⟩
          next => cases found
        have registered := checked long (not_not.mp even)
        rw [size] at registered
        exact registered

theorem submitScatter_clears {request : ScatterTransferRequest}

    (refused : submitScatterTransferRequest group id request txCounter = some (.error error, after)) :
    NoEffect group after := by
  unfold submitScatterTransferRequest at refused
  split at refused
  next =>
    cases refused
    exact ⟨rfl, rfl⟩
  next =>
    simp only at refused
    split at refused
    next =>
      cases refused
      exact ⟨rfl, rfl⟩
    next =>
      obtain ⟨result, -, rest⟩ := bind_eq_some_iff.mp refused
      split at rest
      next =>
        cases rest
        exact ⟨rfl, rfl⟩
      next => cases rest

end

theorem refused_clears_iff (group after : DomainGroup N) (id : TransferId)
    (request : TransferRequest) (txCounter : Bool) (error : FabricLibError)
    (refused : submitTransferRequest group id request txCounter = some (.error error, after)) :
    (ChecksEarly group request → NoEffect group after) ∧
      (group.writeOps id = none → NoEffect group after → ChecksEarly group request) := by
  cases request with
  | imm request => exact (submitImm_clears refused).2
  | barrier request => exact (submitImm_clears refused).2
  | single request => exact Clears.early (submitSingle_clears refused) trivial
  | paged request => exact (submitPaged_clears refused).2
  | scatter request => exact Clears.early (submitScatter_clears refused) trivial

/-- A region that is registered in the first of two domains. -/
def halfRegistered : DomainGroup 2 :=
  .new Nat.two_pos fun domain => .ofRegions fun _ => if domain.val = 0 then some 1 else none

def bothDomains : MemoryRegionDescriptor := ⟨100, [(10, 1), (11, 2)]⟩

def twoPagesTo (dstMr : MemoryRegionDescriptor) : TransferRequest :=
  .paged ⟨64, 5, [0, 1], 64, 0, dstMr, [0, 1], 64, 0, none⟩

theorem refused_clears_unknown :
    ∃ error after, submitTransferRequest halfRegistered 7 (twoPagesTo ⟨100, []⟩) false =
      some (.error error, after) ∧
      NoEffect halfRegistered after :=
  ⟨_, _, rfl, (refused_clears_iff halfRegistered _ 7 (twoPagesTo ⟨100, []⟩) false _ rfl).1
    fun long => absurd long (by decide)⟩

/-- An immediate with two shards leaves a record, and pages leave one besides what was
posted before the region was missed. -/
theorem refused_leaves_effect :
    (∃ error after, submitTransferRequest halfRegistered 7
      (.imm ⟨3, bothDomains, .roundRobinSharded ⟨2, Nat.two_pos⟩⟩) false =
      some (.error error, after) ∧ after.writeOps 7 = some ⟨1, 0, false⟩ ∧
        ¬ NoEffect halfRegistered after) ∧
    ∃ error after, submitTransferRequest halfRegistered 7 (twoPagesTo bothDomains) false =
      some (.error error, after) ∧
      after.writeOps 7 = some ⟨2, 0, false⟩ ∧ after.posted.length = 1 ∧
        ¬ NoEffect halfRegistered after := by
  refine ⟨⟨_, _, rfl, rfl, fun kept => ?_⟩, _, _, rfl, rfl, rfl, fun kept => ?_⟩
  · exact absurd (congrFun kept.1 7) (by decide)
  · exact absurd (congrFun kept.1 7) (by decide)

end PplxGarden.Fabric.Proofs
