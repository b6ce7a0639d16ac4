import Mathlib.Algebra.Order.Monoid.Prod
import Mathlib.Data.Multiset.OrderedMonoid
import PplxGarden.Library.FanOut
import PplxGarden.Proofs.WriteOps

/-! The books of one transfer in one domain. As long as none of its requests has failed,
every request of its contexts was completed, is in flight or is still to be posted, and
every context was reported or has requests that are not completed. -/

namespace PplxGarden.Fabric
open Library Function List

namespace Provider.Writes

variable {ω ι ρ : Type} {room : Nat} {posting : Posting ι ρ} {request : ρ}

def flying (state : Writes ι ρ) (slot : Nat) : List ρ := (state.inFlight.filter (·.1 = slot)).map (·.2)

/-- What is owed to a transfer: requests that succeed, and reports of contexts. -/
abbrev Debt (ρ : Type) := Multiset (Option ρ × Bool) × Nat

def bill (requests : ω → List (Option ρ)) (op : ω) : Debt ρ := (↑((requests op).map (·, false)), 1)

def settledOf (state : Writes ι ρ) (id : TransferId) (reports : Nat) : Debt ρ :=
  (↑((state.completed.filter (·.1 = id)).map fun entry => (some entry.2.1, entry.2.2)), reports)

/-- What a context still owes: its requests in flight and the rest of its iterator. -/
def owes (state : Writes ι ρ) (slot : Nat) (context : WriteOpContext ι) (rest : List (Option ρ)) : Debt ρ :=
  (↑(((state.flying slot).map some ++ rest).map (·, false)), if context.cntFinishedOps < context.totalOps then 1 else 0)

/-- The share of a context that has not failed, if it is one of the transfer. -/
def Share (left : ω → ι → List (Option ρ) → Prop) (id : TransferId) (state : Writes ι ρ)
    (slot : Nat) (debt : Debt ρ) : Prop :=
  match state.objpoolWriteOp.read slot with
  | none => debt = 0
  | some context =>
    if context.transferId = id then context.bad = false ∧ ∃ op rest, left op context.rdmaOpIter rest ∧
      rest.length + context.cntPostedOps = context.totalOps ∧ debt = state.owes slot context rest
    else debt = 0

/-- The books of a transfer with the operations it has contexts for. -/
def Tally (requests : ω → List (Option ρ)) (left : ω → ι → List (Option ρ) → Prop) (id : TransferId)
    (ops : List ω) (reports : Nat) (state : Writes ι ρ) : Prop :=
  Balanced (Share left id state) (ops.map (bill requests)).sum (state.settledOf id reports)

variable {requests : ω → List (Option ρ)} {left : ω → ι → List (Option ρ) → Prop} {id : TransferId} {ops : List ω} {reports : Nat}
  {state after : Writes ι ρ} {slot : Nat} {context next : WriteOpContext ι} {debt : Debt ρ}

theorem share_vacant (vacant : state.objpoolWriteOp.read slot = none) : Share left id state slot debt ↔ debt = 0 := by
  simp only [Share, vacant]

theorem share_other (held : state.objpoolWriteOp.read slot = some context) (other : context.transferId ≠ id) :
    Share left id state slot debt ↔ debt = 0 := by
  simp only [Share, held, if_neg other]

theorem share_own (held : state.objpoolWriteOp.read slot = some context) (own : context.transferId = id) :
    Share left id state slot debt ↔ context.bad = false ∧ ∃ op rest, left op context.rdmaOpIter rest ∧
      rest.length + context.cntPostedOps = context.totalOps ∧ debt = state.owes slot context rest := by
  simp only [Share, held, if_pos own]

private theorem share_frame
    (contexts : after.objpoolWriteOp.read slot = state.objpoolWriteOp.read slot)
    (flights : after.flying slot = state.flying slot) :
    Share left id after slot debt ↔ Share left id state slot debt := by
  simp only [Share, contexts, owes, flights]

theorem Tally.new : Tally requests left id [] 0 (Writes.new : Writes ι ρ) :=
  Balanced.new fun slot => (share_vacant (by simp [Writes.new])).mpr rfl

theorem Tally.replace {ops' : List ω} {reports' : Nat} (tally : Tally requests left id ops reports state) (slot : Nat)
    (contexts : ∀ other, other ≠ slot → after.objpoolWriteOp.read other = state.objpoolWriteOp.read other)
    (flights : ∀ other, other ≠ slot → after.flying other = state.flying other)
    (here : ∀ debt, Share left id state slot debt → ∃ next, Share left id after slot next ∧
      (ops'.map (bill requests)).sum + (state.settledOf id reports + debt) =
        (ops.map (bill requests)).sum + (after.settledOf id reports' + next)) :
    Tally requests left id ops' reports' after :=
  tally.change slot (fun other apart _ share => (share_frame (contexts other apart) (flights other apart)).mpr share) here

theorem Tally.keep (tally : Tally requests left id ops reports state) (slot : Nat)
    (contexts : ∀ other, other ≠ slot →
      after.objpoolWriteOp.read other = state.objpoolWriteOp.read other)
    (flights : ∀ other, other ≠ slot → after.flying other = state.flying other)
    (completed : after.completed.filter (·.1 = id) = state.completed.filter (·.1 = id))
    (here : ∀ debt, Share left id state slot debt → Share left id after slot debt) :
    Tally requests left id ops reports after := by
  refine tally.replace slot contexts flights fun debt share => ⟨debt, here debt share, ?_⟩
  rw [settledOf, settledOf, completed]

theorem flying_length (state : Writes ι ρ) (slot : Nat) : (state.flying slot).length = state.waiting slot := by
  rw [flying, length_map, waiting, countP_eq_length_filter]

private theorem sum_bills (ops : List ω) :
    (ops.map (bill requests)).sum = (↑(ops.flatMap fun op => (requests op).map (·, false)),
      ops.length) := by
  induction ops with
  | nil => rfl
  | cons op rest ih =>
    rw [map_cons, sum_cons, ih, bill, flatMap_cons, length_cons, Nat.add_comm]
    rfl

section
variable (tally : Tally requests left id ops reports state)
include tally

theorem Tally.owed :
    ∃ owed : Nat →₀ Debt ρ, (∀ slot, Share left id state slot (owed slot)) ∧
      ops.length = reports + owed.degree.2 ∧
      (↑(ops.flatMap fun op => (requests op).map (·, false)) : Multiset (Option ρ × Bool)) =
        (state.settledOf id reports).1 + owed.degree.1 := by
  obtain ⟨owed, shares, total⟩ := tally
  rw [sum_bills] at total
  exact ⟨owed, shares, congrArg Prod.snd total, congrArg Prod.fst total⟩

theorem Tally.bound : reports ≤ ops.length := by
  obtain ⟨owed, -, total, -⟩ := tally.owed
  omega

theorem Tally.unreported (held : state.objpoolWriteOp.read slot = some context) (own : context.transferId = id)
    (unfinished : context.cntFinishedOps < context.totalOps) : reports < ops.length := by
  obtain ⟨owed, shares, total, -⟩ := tally.owed
  obtain ⟨-, op, rest, -, -, same⟩ := (share_own held own).mp (shares slot)
  have most : (owed slot).2 ≤ owed.degree.2 := (Finsupp.le_degree slot owed).2
  rw [same, owes, if_pos unfinished] at most
  omega

theorem Tally.finished (inv : Inv left state) (all : reports = ops.length) :
    ((state.completed.filter (·.1 = id)).map fun entry => (some entry.2.1, entry.2.2)).Perm
      (ops.flatMap fun op => (requests op).map (·, false)) := by
  obtain ⟨owed, shares, total, covered⟩ := tally.owed
  have nothing : owed = 0 := by
    apply Finsupp.ext
    intro slot
    have share := shares slot
    have most : (owed slot).2 ≤ owed.degree.2 := (Finsupp.le_degree slot owed).2
    cases held : state.objpoolWriteOp.read slot with
    | none => exact (share_vacant held).mp share
    | some context =>
      by_cases own : context.transferId = id
      · obtain ⟨-, op, rest, -, size, same⟩ := (share_own held own).mp share
        have complete : ¬ context.cntFinishedOps < context.totalOps := by
          intro unfinished
          rw [same, owes, if_pos unfinished] at most
          omega
        -- All requests were posted and none is in flight.
        have waits := (inv.tracked held).waits
        have grounded : state.flying slot = [] := eq_nil_of_length_eq_zero (by rw [flying_length]; omega)
        have empty : rest = [] := eq_nil_of_length_eq_zero (by omega)
        rw [same, owes, if_neg complete, grounded, empty]
        rfl
      · exact (share_other held own).mp share
  rw [nothing, map_zero, Prod.fst_zero, add_zero] at covered
  exact (Multiset.coe_eq_coe.mp covered).symm

end

theorem flying_hand (state : Writes ι ρ) (slot other : Nat) (posting : Posting ι ρ) :
    (state.hand slot posting).flying other = state.flying other ++ if other = slot then posting.posted else [] := by
  simp only [flying, hand, filter_append, map_append, filter_map]
  congr 1
  by_cases same : other = slot
  · subst same
    simp [comp_def]
  · simp [comp_def, same, Ne.symm same]

private theorem owes_posted {rest later : List (Option ρ)} (split : rest = posting.posted.map some ++ later) :
    (state.hand slot posting).owes slot (context.advanced posting) later = state.owes slot context rest := by
  simp only [owes, flying_hand, split, if_true, map_append, append_assoc]
  rfl

private theorem read_pushed (held : state.objpoolWriteOp.read slot = some context) (rest : List Nat)
    (posting : Posting ι ρ) :
    (state.pushed slot rest context posting).objpoolWriteOp.read =
      update state.objpoolWriteOp.read slot (some (context.advanced posting)) := by
  unfold pushed
  split <;> exact read_put (state.hand slot posting) held _

private theorem flying_pushed (state : Writes ι ρ) (slot other : Nat) (rest : List Nat)
    (context : WriteOpContext ι) (posting : Posting ι ρ) :
    (state.pushed slot rest context posting).flying other =
      (state.hand slot posting).flying other := by
  unfold pushed
  split <;> rfl

theorem Tally.pushed {post : ι → Nat → Option (Posting ι ρ)}
    (lawful : ∀ op, PostsNext post (left op)) (tally : Tally requests left id ops reports state)
    (held : state.objpoolWriteOp.read slot = some context) (rest : List Nat)
    (posted : post context.rdmaOpIter room = some posting) :
    Tally requests left id ops reports (state.pushed slot rest context posting) := by
  have read := read_pushed held rest posting
  refine tally.keep slot ?_ ?_ ?_ ?_
  · intro other apart
    rw [read, update_of_ne apart]
  · intro other apart
    rw [flying_pushed, flying_hand, if_neg apart, append_nil]
  · unfold Writes.pushed
    split <;> rfl
  · intro debt share
    have here : (state.pushed slot rest context posting).objpoolWriteOp.read slot = some (context.advanced posting) := by
      rw [read, update_self]
    by_cases own : context.transferId = id
    · obtain ⟨good, op, todo, remains, size, rfl⟩ := (share_own held own).mp share
      obtain ⟨counted, later, split, after, -⟩ := lawful op remains posted
      refine (share_own here own).mpr ⟨good, op, later, after, ?_, ?_⟩
      · have length := congrArg List.length split
        rw [length_append, length_map] at length
        show later.length + (context.cntPostedOps + posting.count) = context.totalOps
        omega
      · rw [← owes_posted split]
        simp only [owes, flying_pushed]
    · rw [(share_other held own).mp share]
      exact (share_other here own).mpr rfl

theorem read_settle (held : state.objpoolWriteOp.read slot = some context)
    (buffer : state.objpoolMsg.read context.msgBuf = some ()) (other : Nat) :
    (state.settle slot context).objpoolWriteOp.read other =
      if other = slot ∧ context.cntFinishedOps = context.cntPostedOps ∧ context.inQueue = false then
        none
      else state.objpoolWriteOp.read other := by
  unfold settle
  by_cases idle : context.cntFinishedOps = context.cntPostedOps ∧ context.inQueue = false
  · rw [if_pos idle, (read_release held buffer).1]
    by_cases same : other = slot
    · subst same
      rw [update_self, if_pos ⟨rfl, idle⟩]
    · rw [update_of_ne same, if_neg fun both => same both.1]
  · rw [if_neg idle, if_neg fun both => idle both.2]

theorem flying_settle (state : Writes ι ρ) (slot other : Nat) (context : WriteOpContext ι) :
    (state.settle slot context).flying other = state.flying other := by
  unfold settle
  split <;> rfl

private theorem completed_settle (state : Writes ι ρ) (slot : Nat) (context : WriteOpContext ι) :
    (state.settle slot context).completed = state.completed := by
  unfold settle
  split <;> rfl

theorem Tally.settle (inv : Inv left state) (tally : Tally requests left id ops reports state)
    (held : state.objpoolWriteOp.read slot = some context)
    (complete : context.transferId = id → context.totalOps ≤ context.cntFinishedOps) :
    Tally requests left id ops reports (state.settle slot context) := by
  have read := read_settle held (inv.tracked held).buffer
  refine tally.keep slot ?_ ?_ ?_ ?_
  · intro other apart
    rw [read, if_neg fun both => apart both.1]
  · intro other apart
    exact flying_settle ..
  · rw [completed_settle]
  · intro debt share
    have here := read slot
    split at here
    next dropped =>
      refine (share_vacant here).mpr ?_
      by_cases own : context.transferId = id
      · obtain ⟨-, op, rest, -, size, rfl⟩ := (share_own held own).mp share
        have waits := (inv.tracked held).waits
        have enough := complete own
        have grounded : state.flying slot = [] := eq_nil_of_length_eq_zero (by rw [flying_length]; omega)
        have empty : rest = [] := eq_nil_of_length_eq_zero (by omega)
        rw [owes, if_neg (Nat.not_lt.mpr enough), grounded, empty]
        rfl
      · exact (share_other held own).mp share
    next => exact (share_frame here (flying_settle ..)).mpr share

theorem Tally.foreign (tally : Tally requests left id ops reports state)
    (held : state.objpoolWriteOp.read slot = some context) (failed : context.bad = true) :
    context.transferId ≠ id := by
  intro own
  obtain ⟨owed, shares, -⟩ := tally
  have good := ((share_own held own).mp (shares slot)).1
  rw [failed] at good
  cases good

theorem Tally.discarded (inv : Inv left state) (tally : Tally requests left id ops reports state) (rest : List Nat)
    (held : state.objpoolWriteOp.read slot = some context) (failed : context.bad = true) :
    Tally requests left id ops reports (state.discarded slot rest context) := by
  have foreign := tally.foreign held failed
  have dequeued : (state.dequeued slot rest context).objpoolWriteOp.read =
      update state.objpoolWriteOp.read slot (some { context with inQueue := false }) := read_dequeued held
  have present : (state.dequeued slot rest context).objpoolWriteOp.read slot = some { context with inQueue := false } := by
    rw [dequeued, update_self]
  have read : ∀ other, (state.discarded slot rest context).objpoolWriteOp.read other = _ :=
    read_settle present (inv.tracked held).buffer
  refine tally.keep slot ?_ ?_ ?_ ?_
  · intro other apart
    rw [read, if_neg fun both => apart both.1, dequeued, update_of_ne apart]
  · intro other apart
    exact flying_settle ..
  · rw [Writes.discarded, completed_settle]
    rfl
  · intro debt share
    rw [(share_other held foreign).mp share]
    have here := read slot
    split at here
    next => exact (share_vacant here).mpr rfl
    next => exact (share_other (here.trans present) foreign).mpr rfl

variable {provider : Provider ω ι ρ} {given : ω → Prop}

section
variable (lawful : Lawful provider requests left given)
include lawful

theorem Tally.progress (inv : Inv left state) (tally : Tally requests left id ops reports state)
    {rounds : Nat} (done : progressLoop provider rounds room state = .ok after) :
    Tally requests left id ops reports after := by
  induction rounds generalizing state room with
  | zero =>
    cases done
    exact tally
  | succ rounds ih =>
    cases head : state.writeOps with
    | nil =>
      simp only [progressLoop, head] at done
      cases done
      exact tally
    | cons slot rest =>
      obtain ⟨context, held⟩ := inv.listed slot (by simp [head])
      rw [progressLoop_cons inv head held] at done
      split at done
      next failed => exact ih (inv.discarded head held failed) (tally.discarded inv rest held failed) done
      next =>
        split at done
        next => cases done
        next posting posted =>
          have kept := tally.pushed lawful.progress held rest posted
          split at done
          next =>
            cases done
            exact kept
          next => exact ih (inv.pushed lawful.progress head held posted) kept done

theorem Tally.opens (inv : Inv left state) (tally : Tally requests left id ops reports state)
    {transferId : TransferId} {op : ω} {iter : ι} (valid : given op)
    (made : provider.construct op = some iter) (posted : provider.eager iter room = some posting)
    (opens : Opens provider state transferId iter posting after) :
    Tally requests left id (ops ++ if transferId = id then [op] else []) reports after := by
  have here := opens.read_top
  have flights : ∀ other, after.flying other = (state.hand state.objpoolWriteOp.top posting).flying other := by
    intro other
    rw [flying, flying, opens.flights]
  refine tally.replace state.objpoolWriteOp.top ?_ ?_ ?_
  · intro other apart
    exact opens.read_other apart
  · intro other apart
    rw [flights, flying_hand, if_neg apart, append_nil]
  · intro debt share
    rw [(share_vacant Pool.read_top).mp share]
    have settled : after.settledOf id reports = state.settledOf id reports := by rw [settledOf, settledOf, opens.completed]
    by_cases own : transferId = id
    · obtain ⟨counted, later, split, remains, -⟩ := lawful.eager op (lawful.starts valid made) posted
      have total := lawful.total made
      have nonempty := length_pos_iff.mpr (lawful.nonempty made)
      have size := congrArg List.length split
      rw [length_append, length_map] at size
      have grounded : state.flying state.objpoolWriteOp.top = [] :=
        eq_nil_of_length_eq_zero (by rw [flying_length]; exact inv.fresh_top.2)
      refine ⟨bill requests op, (share_own here own).mpr ⟨rfl, op, later, remains, ?_, ?_⟩, ?_⟩
      · show later.length + (0 + posting.count) = provider.totalOps iter
        omega
      · have unfinished : 0 < provider.totalOps iter := by omega
        simp only [owes, flights, flying_hand, grounded, if_true, nil_append, ← split, bill, opened,
          newContext, WriteOpContext.advanced,
          unfinished]
      · rw [if_pos own, map_append, sum_append, settled]
        simp only [map_cons, map_nil, sum_cons, sum_nil]
        abel
    · refine ⟨0, (share_other here own).mpr rfl, ?_⟩
      rw [if_neg own, append_nil, settled]

theorem Tally.submit (inv : Inv left state) (tally : Tally requests left id ops reports state)
    {transferId : TransferId} {op : ω} (valid : given op)
    (done : state.doSubmitWrite provider transferId op room = .ok after) :
    Inv left after ∧ Tally requests left id (ops ++ if transferId = id then [op] else []) reports after := by
  rcases doSubmitWrite_cases provider state transferId op room with stopped | ⟨iter, posting, next,
    made, posted, ended, opens⟩
  · rw [stopped] at done
    cases done
  · rw [ended] at done
    cases done
    exact ⟨inv.opens lawful valid made posted opens, tally.opens lawful inv valid made posted opens⟩

end

section
variable [DecidableEq ρ]

private theorem flying_landed (request : ρ) (failed : Bool) {other : Nat} (apart : other ≠ slot) :
    (state.landed slot context request failed).flying other = state.flying other := by
  show ((state.inFlight.erase (slot, request)).filter _).map _ = _
  rw [← erase_filter, erase_of_not_mem]
  · rfl
  · simp [Ne.symm apart]

private theorem owes_landed (context : WriteOpContext ι) (member : (slot, request) ∈ state.inFlight)
    (rest : List (Option ρ)) :
    (state.owes slot context rest).1 =
      (some request, false) ::ₘ ((state.landed slot context request false).owes slot
        (context.counted false) rest).1 := by
  have taken : (state.flying slot).Perm (request :: (state.landed slot context request false).flying slot) := by
    have perm := ((perm_cons_erase member).filter (·.1 = slot)).map (·.2)
    rw [filter_cons_of_pos (by simp)] at perm
    exact perm
  rw [owes, owes, Multiset.cons_coe, Multiset.coe_eq_coe]
  exact ((taken.map some).append_right rest).map (·, false)

private theorem completed_landed (request : ρ) (failed : Bool) : (state.landed slot context request failed).completed =
    state.completed ++ [(context.transferId, request, failed)] := rfl

theorem Tally.landed_other (tally : Tally requests left id ops reports state)
    (held : state.objpoolWriteOp.read slot = some context) (other : context.transferId ≠ id)
    (request : ρ) (failed : Bool) :
    Tally requests left id ops reports (state.landed slot context request failed) := by
  have read := read_landed held request failed
  refine tally.keep slot ?_ ?_ ?_ ?_
  · intro owner apart
    rw [read, update_of_ne apart]
  · intro owner apart
    exact flying_landed request failed apart
  · rw [completed_landed, filter_append, filter_cons_of_neg (by simpa using other), filter_nil, append_nil]
  · intro debt share
    rw [(share_other held other).mp share]
    refine (share_other (by rw [read, update_self]) ?_).mpr rfl
    exact other

/-- A request of the transfer has succeeded; the last one of its context is reported. -/
theorem Tally.landed_own (inv : Inv left state) (tally : Tally requests left id ops reports state)
    (member : (slot, request) ∈ state.inFlight)
    (held : state.objpoolWriteOp.read slot = some context) (own : context.transferId = id) :
    Tally requests left id ops (reports + if context.cntFinishedOps + 1 < context.totalOps then 0
      else 1)
      (state.landed slot context request false) := by
  have read := read_landed held request false
  have here : (state.landed slot context request false).objpoolWriteOp.read slot = some (context.counted false) := by
    rw [read, update_self]
  refine tally.replace slot ?_ ?_ ?_
  · intro other apart
    rw [read, update_of_ne apart]
  · intro other apart
    exact flying_landed request false apart
  · intro debt share
    obtain ⟨good, op, rest, remains, size, rfl⟩ := (share_own held own).mp share
    refine ⟨_, (share_own here own).mpr ⟨by simp [WriteOpContext.counted, good], op, rest, remains, size, rfl⟩, ?_⟩
    have flies : 0 < state.waiting slot := countP_pos_iff.mpr ⟨_, member, by simp⟩
    have waits := (inv.tracked held).waits
    congr 1
    apply Prod.ext
    · have moved := owes_landed context member rest
      simp only [Prod.fst_add, settledOf, moved, completed_landed, filter_append, map_append]
      rw [filter_cons_of_pos (by simpa using own), ← Multiset.coe_add, ← Multiset.singleton_add]
      simp only [filter_nil, map_cons, map_nil, Multiset.coe_singleton]
      abel
    · simp only [Prod.snd_add, settledOf, owes, WriteOpContext.counted]
      rw [if_pos (show context.cntFinishedOps < context.totalOps by omega)]
      by_cases more : context.cntFinishedOps + 1 < context.totalOps <;> simp [more]

/-- The completion of a request: it fails the transfer, or the books say what it reports. -/
theorem Tally.handleCqe (inv : Inv left state) (tally : Tally requests left id ops reports state)
    {failure : Option FabricLibError} {entry : Option DomainCompletionEntry}
    (done : state.handleCqe slot request failure = .ok (entry, after)) :
    Inv left after ∧ ((∃ error, entry = some (.error id error)) ∧ reports < ops.length ∨
      (∀ error, entry ≠ some (.error id error)) ∧
        Tally requests left id ops (reports + entry.toList.count (.transfer id)) after) := by
  by_cases member : (slot, request) ∈ state.inFlight
  · obtain ⟨context, held⟩ := inv.flying member
    rw [handleCqe_eq inv member held] at done
    cases done
    refine ⟨inv.handled member held _, ?_⟩
    have landed := inv.landed member held failure.isSome
    have here : (state.landed slot context request failure.isSome).objpoolWriteOp.read slot =
        some (context.counted failure.isSome) := by
      rw [read_landed held, update_self]
    by_cases own : context.transferId = id
    · cases failure with
      | some error =>
        have good : context.bad = false := Bool.eq_false_of_not_eq_true fun failed => tally.foreign held failed own
        have flies : 0 < state.waiting slot := countP_pos_iff.mpr ⟨_, member, by simp⟩
        have waits := (inv.tracked held).waits
        obtain ⟨_, _, _, size⟩ := (inv.tracked held).iter
        refine .inl ⟨⟨error, by simp [report, good, own]⟩, ?_⟩
        exact tally.unreported held own (by omega)
      | none =>
        have kept := tally.landed_own inv member held own
        right
        simp only [report, handled, Option.isSome_none, true_and]
        by_cases more : context.cntFinishedOps + 1 < context.totalOps
        · rw [if_pos more] at kept
          rw [if_pos more, if_pos more]
          exact ⟨fun _ same => (by cases same), kept⟩
        · rw [if_neg more] at kept
          rw [if_neg more, if_neg more]
          refine ⟨fun _ same => (by cases same), ?_⟩
          simp only [own, Option.toList_some, count_singleton_self]
          exact kept.settle landed here fun _ => Nat.not_lt.mp more
    · right
      have kept := tally.landed_other held own request failure.isSome
      have silent : ∀ item ∈ report context failure, item ≠ .transfer id ∧ ∀ error, item ≠ .error id error := by
        intro item reported
        cases failure with
        | none =>
          simp only [report] at reported
          split at reported
          next => cases reported
          next =>
            cases reported
            exact ⟨fun same => own (DomainCompletionEntry.transfer.inj same), fun _ same => by cases same⟩
        | some error =>
          simp only [report] at reported
          split at reported
          next => cases reported
          next =>
            cases reported
            exact ⟨fun same => (by cases same), fun _ same => own (DomainCompletionEntry.error.inj same).1⟩
      refine ⟨fun error same => (silent _ same).2 error rfl, ?_⟩
      rw [count_eq_zero.mpr fun found => (silent _ (Option.mem_toList.mp found)).1 rfl, Nat.add_zero]
      unfold handled
      split
      next => exact kept
      next => exact kept.settle landed here fun same => absurd same own
  · rw [Writes.handleCqe, if_neg member] at done
    cases done
    exact ⟨inv, .inr ⟨fun _ same => (by cases same), tally⟩⟩

end

end Provider.Writes

end PplxGarden.Fabric
