import PplxGarden.Proofs.Rejections
import PplxGarden.Proofs.Scatter

/-! `divide_evenly` cuts a range into consecutive parts of about the same size, and what is
posted for them passes the assertions of the iterators. -/

namespace PplxGarden.Fabric.Proofs
open List

variable {k rounds remainder n : Nat}

def Consecutive : Nat → Nat → List (Nat × Nat) → Prop
  | beg, last, [] => beg = last
  | beg, last, range :: ranges => range.1 = beg ∧ Consecutive range.2 last ranges

/-- Ranges for `n` items and `k` parts, which the debug build returns too. -/
structure EvenlyDivided (n k : Nat) (ranges : List (Nat × Nat)) : Prop where
  asserted : divideEvenlyDebug n k = some ranges
  few : ranges.length ≤ k
  consecutive : Consecutive 0 n ranges
  balanced : ∀ range ∈ ranges, range.1 < range.2 ∧ range.2 - range.1 ≤ divCeil n k
  none : n = 0 → ranges = []

/-- The ranges of an operation as its iterator asserts them. -/
def RangeAsserted : DomainOp → Prop
  | .write _ (.paged op) =>
    op.pageIndicesBeg < op.pageIndicesEnd ∧ op.srcPageIndices.length = op.dstPageIndices.length ∧
      op.pageIndicesEnd ≤ op.srcPageIndices.length
  | .groupWrite _ op => op.dstBeg < op.dstEnd ∧ op.dstEnd ≤ op.dsts.length
  | _ => True

/-- The requests that are cut by `divide_evenly`. -/
def DividedEvenly : TransferRequest → Prop
  | .paged _ => True
  | .scatter request => request.domain = .allDomainsShardPeers
  | _ => False

/-- Nothing is left when the loop stops, since the rounds that are left would have sufficed. -/
theorem remainder_zero (positive : 0 < k) (enough : remainder ≤ rounds * divCeil n k) (whole : remainder ≤ n)
    (stops : rounds = 0 ∨ min remainder (divCeil n k) = 0) : remainder = 0 := by
  rcases stops with rfl | empty
  · omega
  · by_contra some_
    have width := divCeil_pos positive (show 0 < n by omega)
    omega

private theorem remainder_enough {step : Nat} (enough : remainder ≤ (rounds + 1) * step) :
    remainder - min remainder step ≤ rounds * step := by
  rw [Nat.succ_mul] at enough
  omega

theorem goDebug_eq (positive : 0 < k) {beg : Nat} (result : List (Nat × Nat))
    (enough : remainder ≤ rounds * divCeil n k) (whole : remainder ≤ n) :
    divideEvenlyDebug.go n k rounds beg remainder result =
      some (result ++ divideEvenly.go n k rounds beg remainder) := by
  induction rounds generalizing beg remainder result with
  | zero =>
    rw [divideEvenlyDebug.go, if_pos (remainder_zero positive enough whole (.inl rfl)), divideEvenly.go, append_nil]
  | succ rounds ih =>
    rw [divideEvenlyDebug.go, divideEvenly.go]
    split
    next empty => rw [if_pos (remainder_zero positive enough whole (.inr empty)), append_nil]
    next => rw [ih _ (remainder_enough enough) (by omega), append_assoc, singleton_append]

theorem go_consecutive (positive : 0 < k) (beg : Nat) (enough : remainder ≤ rounds * divCeil n k)
    (whole : remainder ≤ n) :
    Consecutive beg (beg + remainder) (divideEvenly.go n k rounds beg remainder) := by
  induction rounds generalizing beg remainder with
  | zero =>
    rw [divideEvenly.go, remainder_zero positive enough whole (.inl rfl)]
    rfl
  | succ rounds ih =>
    rw [divideEvenly.go]
    split
    next empty =>
      rw [remainder_zero positive enough whole (.inr empty)]
      rfl
    next =>
      refine ⟨rfl, ?_⟩
      have rest := ih (beg + min remainder (divCeil n k)) (remainder_enough enough)
        (show remainder - min remainder (divCeil n k) ≤ n by omega)
      rwa [Nat.add_assoc, Nat.add_sub_of_le (Nat.min_le_left _ _)] at rest

private theorem go_balanced {beg : Nat} :
    ∀ range ∈ divideEvenly.go n k rounds beg remainder, range.2 - range.1 ≤ divCeil n k := by
  induction rounds generalizing beg remainder with
  | zero =>
    intro range member
    cases member
  | succ rounds ih =>
    intro range member
    rw [divideEvenly.go] at member
    split at member
    next => cases member
    next =>
      rcases mem_cons.mp member with rfl | later
      · simp only [Nat.add_sub_cancel_left]
        exact Nat.min_le_right _ _
      · exact ih range later

theorem divideEvenly_evenly (n : Nat) (positive : 0 < k) : EvenlyDivided n k (divideEvenly n k) := by
  have enough : n ≤ k * divCeil n k := divCeil_mul positive
  refine ⟨?_, divideEvenly_length n k, ?_, ?_, ?_⟩
  · rw [divideEvenlyDebug, if_neg (Nat.ne_of_gt positive),
      goDebug_eq positive [] enough (Nat.le_refl _), nil_append, divideEvenly]
  · have whole := go_consecutive positive 0 enough (Nat.le_refl _)
    rwa [Nat.zero_add] at whole
  · exact fun range member => ⟨(divideEvenly_inside range member).1, go_balanced range member⟩
  · rintro rfl
    apply eq_nil_iff_forall_not_mem.mpr
    intro range member
    obtain ⟨some_, inside⟩ := divideEvenly_inside range member
    omega

section
variable {N : Nat} {group after : DomainGroup N} {id : TransferId} {txCounter : Bool}

private theorem pageOps_asserted {request : PagedTransferRequest}
    (even : request.srcPageIndices.length = request.dstPageIndices.length) :
    ∀ posted ∈ pageOps group id request, RangeAsserted posted.op := by
  intro posted member
  obtain ⟨⟨range, index⟩, listed, rfl⟩ := mem_map.mp member
  have inside := divideEvenly_inside range (mem_of_getElem? (mem_zipIdx_iff_getElem?.mp listed))
  exact ⟨inside.1, even, inside.2⟩

/-- The operations of a request that is cut, also of one that is refused half way. -/
theorem divided_asserted {request : TransferRequest} (divided : DividedEvenly request)
    {result : Except FabricLibError Unit}
    (done : submitTransferRequest group id request txCounter = some (result, after)) :
    ∀ posted ∈ after.posted.drop group.posted.length, RangeAsserted posted.op := by
  intro posted member
  cases result with
  | ok =>
    have outcome := submit_outcome group id txCounter request
    rw [accepted_posts done, drop_left] at member
    rw [done] at outcome
    cases outcome with
    | accepted turn accepts =>
      cases request with
      | imm request => cases divided
      | barrier request => cases divided
      | single request => cases divided
      | paged request => exact pageOps_asserted accepts.2.1 posted member
      | scatter request =>
        obtain ⟨part, listed, rfl⟩ := mem_map.mp member
        exact scatterParts_ranged request.domain (length_pos_iff.mpr accepts.1) part listed
  | error error =>
    cases request with
    | imm request => cases divided
    | barrier request => cases divided
    | single request => cases divided
    | paged request =>
      obtain ⟨⟨ops, posts, own⟩, _⟩ := submitPaged_clears done
      rw [posts, drop_left] at member
      exact pageOps_asserted (own posted member).2 posted (own posted member).1
    | scatter request =>
      rw [(submitScatter_clears done).2, drop_length] at member
      cases member

end

/-- A balanced partition for every number of items and parts, and ranges that the iterators
accept in whatever a group posts for them. -/
theorem evenly_divided : (∀ n k : Nat, 1 ≤ k → EvenlyDivided n k (divideEvenly n k)) ∧
    ∀ (N : Nat) (group after : DomainGroup
      N) (id : TransferId) (request : TransferRequest) (txCounter : Bool)
      (result : Except FabricLibError Unit),
      DividedEvenly request → submitTransferRequest group id request txCounter =
        some (result, after) →
        ∀ posted ∈ after.posted.drop group.posted.length, RangeAsserted posted.op :=
  ⟨fun n _ positive => divideEvenly_evenly n positive, fun _ _ _ _ _ _ _ divided done => divided_asserted divided done⟩

/-- Seven items in three parts, and two pages of which the second domain refuses its own. -/
theorem evenly_divided_seven : EvenlyDivided 7 3 (divideEvenly 7 3) ∧
    ∃ result after, submitTransferRequest halfRegistered 7 (twoPagesTo bothDomains) false = some (result, after) ∧
      (after.posted.drop halfRegistered.posted.length).length = 1 ∧
      ∀ posted ∈ after.posted.drop halfRegistered.posted.length, RangeAsserted posted.op :=
  ⟨evenly_divided.1 7 3 (by decide), _, _, rfl, rfl, evenly_divided.2 2 halfRegistered _ 7
    (twoPagesTo bothDomains) false _ trivial rfl⟩

end PplxGarden.Fabric.Proofs
