import Mathlib.Data.List.Perm.Subperm
import PplxGarden.Library.Loop
import PplxGarden.Proofs.Tallies
import PplxGarden.Proofs.Transfers

/-! The books that an EFA domain keeps. An operation is given a context when it is
submitted, or the transfer has failed. -/

namespace PplxGarden.Fabric
open Library Provider List Option
variable {transferId : TransferId} {error : FabricLibError} {op : DomainOp}

def DomainOp.body : DomainOp → WriteOp ⊕ ScatterGroupWriteOp
  | .write _ op => .inl op
  | .groupWrite _ op => .inr op

def RdmaOp.body {δ : Type} : RdmaOp δ → WriteOp ⊕ ScatterGroupWriteOp
  | .write op _ => .inl op
  | .scatter op _ => .inr op

def contextsOf {δ : Type} (contexts : List (TransferId × RdmaOp δ)) (id : TransferId) : List (RdmaOp δ) :=
  (contexts.filter (·.1 = id)).map (·.2)

/-- The operations of a transfer have their contexts, and of each context every request
has completed, once and with success. -/
structure Complete {δ ρ : Type} (requests : RdmaOp δ → List (Option ρ)) (contexts : List (TransferId × RdmaOp δ))
    (completed : List (TransferId × ρ × Bool)) (id : TransferId) (ops : List DomainOp) : Prop where
  opened : ((contextsOf contexts id).map RdmaOp.body).Perm (ops.map DomainOp.body)
  succeeded : ((completed.filter (·.1 = id)).map fun entry => (some entry.2.1, entry.2.2)).Perm
    ((contextsOf contexts id).flatMap fun op => (requests op).map (·, false))

theorem contextsOf_append {δ : Type} (contexts : List (TransferId × RdmaOp δ))
    (transferId : TransferId) (op : RdmaOp δ) (id : TransferId) :
    contextsOf (contexts ++ [(transferId, op)]) id =
      contextsOf contexts id ++ if transferId = id then [op] else [] := by
  simp only [contextsOf, filter_append, map_append, filter_cons, filter_nil]
  by_cases own : transferId = id <;> simp [own]

section
variable {δ ι ρ : Type} {requests : RdmaOp δ → List (Option ρ)} {left : RdmaOp δ → ι → List (Option ρ) → Prop} {id : TransferId}
  {contexts : List (TransferId × RdmaOp δ)} {writes : Writes ι ρ} {ops : List DomainOp} {reports : Nat}

theorem Provider.Writes.Tally.limit (tally : Writes.Tally requests left id (contextsOf contexts id) reports writes)
    (given : ((contextsOf contexts id).map RdmaOp.body).Subperm (ops.map DomainOp.body)) : reports ≤ ops.length := by
  have fewer := given.length_le
  rw [length_map, length_map] at fewer
  exact tally.bound.trans fewer

theorem Provider.Writes.Tally.complete (inv : Writes.Inv left writes)
    (tally : Writes.Tally requests left id (contextsOf contexts id) ops.length writes)
    (given : ((contextsOf contexts id).map RdmaOp.body).Subperm (ops.map DomainOp.body)) :
    Complete requests contexts writes.completed id ops := by
  have enough := tally.bound
  have fewer := given.length_le
  rw [length_map, length_map] at fewer
  refine ⟨given.perm_of_length_le ?_, tally.finished inv (by omega)⟩
  rw [length_map, length_map]
  exact enough

end

section
variable {δ ι ρ : Type} {provider : Provider (RdmaOp δ) ι ρ} {requests : RdmaOp δ → List (Option ρ)} {left : RdmaOp δ → ι → List (Option ρ) → Prop}
  {id : TransferId} {contexts : List (TransferId × RdmaOp δ)} {writes after : Writes ι ρ}
    {ops : List DomainOp} {reports : Nat}

theorem Provider.Writes.Tally.progressRdmaWriteOps (inv : Writes.Inv left writes)
    (tally : Writes.Tally requests left id (contextsOf contexts id) reports writes)
    (lawful : Lawful provider requests left fun _ => True) {room : Nat}
    (done : writes.progressRdmaWriteOps provider room = .ok after) :
    Writes.Inv left after ∧ Writes.Tally requests left id (contextsOf contexts id) reports
      after := by
  have safe := Writes.progressLoop_safe lawful inv writes.writeOps.length room
  change Writes.progressLoop provider _ room writes = .ok after at done
  rw [done] at safe
  exact ⟨safe, tally.progress lawful inv done⟩

theorem Provider.Writes.Tally.cqe [DecidableEq ρ] (inv : Writes.Inv left writes)
    (tally : Writes.Tally requests left id (contextsOf contexts id) reports writes)
    (given : ((contextsOf contexts id).map RdmaOp.body).Subperm (ops.map DomainOp.body))
    {slot : Nat} {request : ρ} {failure : Option FabricLibError}
    {entry : Option DomainCompletionEntry}
    (done : writes.handleCqe slot request failure = .ok (entry, after)) :
    Writes.Inv left after ∧ ((∃ error, entry = some (.error id error)) ∧ reports < ops.length ∨
      (∀ error, entry ≠ some (.error id error)) ∧
      Writes.Tally requests left id (contextsOf contexts id)
        (reports + entry.toList.count (.transfer id)) after) := by
  obtain ⟨next, counted⟩ := tally.handleCqe inv done
  refine ⟨next, counted.imp_left fun failed => ⟨failed.1, ?_⟩⟩
  have fewer := given.length_le
  rw [length_map, length_map] at fewer
  exact failed.2.trans_le fewer

end

section
variable {σ ε α : Type} {domain : RdmaDomain σ ε α} {books : TransferId → List DomainOp → Nat → σ → Prop} {id : TransferId}
  {ops further : List DomainOp} {state after : σ}

theorem Advances.quiet (same : domain.completions after = domain.completions state)
    (kept : ∀ reports, books id ops reports state → books id further reports after) :
    Advances domain books id ops further state after := by
  refine ⟨[], by rw [same, append_nil], fun reports holds => .inl ⟨fun _ member => ?_, kept reports holds⟩⟩
  cases member

theorem Advances.unrelated (other : transferId ≠ id)
    (added : domain.completions after = domain.completions state ++ [.error transferId error])
    (kept : ∀ reports, books id ops reports state → books id ops reports after) :
    Advances domain books id ops ops state after := by
  refine ⟨_, added, fun reports holds => .inl ⟨fun _ member => ?_, kept reports holds⟩⟩
  exact other (DomainCompletionEntry.error.inj (mem_singleton.mp member)).1.symm

theorem Advances.refused
    (added : domain.completions after = domain.completions state ++ [.error transferId error])
    (bound : ∀ reports, books id ops reports state → reports ≤ ops.length)
    (kept : transferId ≠ id → ∀ reports, books id ops reports state → books id ops reports after) :
    Advances domain books id ops (ops ++ if transferId = id then [op] else []) state after := by
  by_cases own : transferId = id
  · subst own
    refine ⟨_, added, fun reports holds => .inr ⟨[], error, [], rfl, ?_⟩⟩
    rw [if_pos rfl, length_append]
    exact Nat.lt_succ_of_le (bound reports holds)
  · rw [if_neg own, append_nil]
    exact .unrelated own added (kept own)

theorem Advances.completed {entry : Option DomainCompletionEntry}
    (added : domain.completions after = domain.completions state ++ entry.toList)
    (kept : ∀ reports, books id ops reports state → (∃ error, entry = some (.error id error)) ∧
      reports < ops.length ∨ (∀ error, entry ≠ some (.error id error)) ∧
      books id ops (reports + entry.toList.count (.transfer id)) after) :
    Advances domain books id ops ops state after := by
  refine ⟨_, added, fun reports holds => ?_⟩
  rcases kept reports holds with ⟨⟨error, rfl⟩, few⟩ | ⟨clean, next⟩
  · exact .inr ⟨[], error, [], rfl, few⟩
  · exact .inl ⟨fun error member => clean error (Option.mem_toList.mp member), next⟩

end

namespace Efa

structure Books (id : TransferId) (ops : List DomainOp) (reports : Nat) (state : EfaDomain) : Prop where
  inv : Writes.Inv Left state.writes
  tally : Writes.Tally requests Left id (contextsOf state.contexts id) reports state.writes
  given : ((contextsOf state.contexts id).map RdmaOp.body).Subperm (ops.map DomainOp.body)

/-- The operations of a transfer are complete in an EFA domain. -/
def Finished (state : EfaDomain) (id : TransferId) (ops : List DomainOp) : Prop :=
  Complete requests state.contexts state.writes.completed id ops

theorem Books.new (id : TransferId) : Books id [] 0 .new := ⟨Writes.inv_new, .new, .refl _⟩

section
variable {id : TransferId} {ops : List DomainOp} {reports : Nat} {state after : EfaDomain}

theorem Books.frame (books : Books id ops reports state) (writes : after.writes = state.writes)
    (contexts : after.contexts = state.contexts) : Books id ops reports after := by
  obtain ⟨inv, tally, given⟩ := books
  constructor
  · rwa [writes]
  · rwa [writes, contexts]
  · rwa [contexts]

structure Resolves (state after : EfaDomain) : Prop where
  writes : after.writes = state.writes
  contexts : after.contexts = state.contexts
  completions : after.completions = state.completions

theorem getOrAddRemoteAddr_resolves (state : EfaDomain) (insert : DomainAddress → Option FiAddr)
    (addr : DomainAddress) : Resolves state (state.getOrAddRemoteAddr insert addr).2 := by
  unfold EfaDomain.getOrAddRemoteAddr
  split
  next => exact ⟨rfl, rfl, rfl⟩
  next =>
    split
    next => exact ⟨rfl, rfl, rfl⟩
    next => exact ⟨rfl, rfl, rfl⟩

theorem resolve_resolves {insert : DomainAddress → Option FiAddr}
    {addrs : List (Option DomainAddress)} {result : Except DomainAddress (List FiAddr)}
    (done : EfaDomain.resolve insert addrs state = some (result, after)) :
    Resolves state after := by
  induction addrs generalizing state result with
  | nil =>
    cases done
    exact ⟨rfl, rfl, rfl⟩
  | cons first rest ih =>
    cases first with
    | none => cases done
    | some addr =>
      have one := getOrAddRemoteAddr_resolves state insert addr
      unfold EfaDomain.resolve at done
      split at done
      next middle found =>
        rw [found] at one
        cases done
        exact one
      next fiAddr middle found =>
        rw [found] at one
        obtain ⟨⟨result, last⟩, resolved, built⟩ := bind_eq_some_iff.mp done
        cases built
        have two := ih resolved
        exact ⟨two.writes.trans one.writes, two.contexts.trans one.contexts, two.completions.trans one.completions⟩

theorem Books.resolves (books : Books id ops reports state) (resolves : Resolves state after) :
    Books id ops reports after :=
  books.frame resolves.writes resolves.contexts

theorem Books.limit (books : Books id ops reports state) : reports ≤ ops.length := books.tally.limit books.given

theorem fail_advances (resolves : Resolves state after) :
    Advances rdmaDomain Books id ops (ops ++ if transferId = id then [op] else []) state
      (after.fail transferId error) := by
  have added : rdmaDomain.completions (after.fail transferId error) =
      rdmaDomain.completions state ++ [.error transferId error] :=
    congrArg (· ++ _) resolves.completions
  exact .refused added (fun _ books => books.limit) fun _ _ books => books.frame resolves.writes resolves.contexts

theorem doSubmitWrite_advances {middle : EfaDomain} {op : RdmaOp FiAddr} {given : DomainOp}
    {room : Nat} (resolves : Resolves state middle) (same : op.body = given.body)
    (done : middle.doSubmitWrite transferId op room = some after) :
    Advances rdmaDomain Books id ops (ops ++ if transferId = id then [given] else []) state
      after := by
  simp only [EfaDomain.doSubmitWrite, bind_eq_bind, bind_eq_some_iff] at done
  obtain ⟨writes, stepped, built⟩ := done
  cases built
  refine .quiet resolves.completions fun reports books => ?_
  obtain ⟨inv, tally, contained⟩ := books.resolves resolves
  obtain ⟨next, counted⟩ := tally.submit lawful inv trivial (toOption_eq_some stepped)
  refine ⟨next, ?_, ?_⟩
  · show Writes.Tally requests Left id (contextsOf (middle.contexts ++ [(transferId, op)]) id) reports writes
    rw [contextsOf_append]
    exact counted
  · show ((contextsOf (middle.contexts ++ [(transferId, op)]) id).map RdmaOp.body).Subperm _
    rw [contextsOf_append]
    by_cases own : transferId = id
    · simp only [if_pos own, map_append, map_cons, map_nil, same]
      exact (subperm_append_right _).mpr contained
    · simpa only [if_neg own, append_nil] using contained

theorem submit_advances {input : (DomainAddress → Option FiAddr) × Nat}
    (done : rdmaDomain.submit state transferId op input = some after) :
    Advances rdmaDomain Books id ops (ops ++ if transferId = id then [op] else []) state after := by
  obtain ⟨insert, room⟩ := input
  cases op with
  | write destAddr op =>
    have resolves := getOrAddRemoteAddr_resolves state insert destAddr
    change state.submitWrite transferId destAddr op insert room = some after at done
    unfold EfaDomain.submitWrite at done
    split at done
    next middle found =>
      rw [found] at resolves
      cases done
      exact fail_advances resolves
    next addr middle found =>
      rw [found] at resolves
      exact doSubmitWrite_advances resolves rfl done
  | groupWrite handle op =>
    change state.submitGroupWrite transferId handle op insert room = some after at done
    cases handle with
    | some handle =>
      unfold EfaDomain.submitGroupWrite at done
      split at done
      next =>
        split at done
        next =>
          cases done
          exact fail_advances ⟨rfl, rfl, rfl⟩
        next => exact doSubmitWrite_advances ⟨rfl, rfl, rfl⟩ rfl done
      next impossible => cases impossible
    | none =>
      obtain ⟨⟨result, middle⟩, resolved, done⟩ := bind_eq_some_iff.mp done
      have resolves := resolve_resolves resolved
      cases result with
      | error addr =>
        cases done
        exact fail_advances resolves
      | ok addrs => exact doSubmitWrite_advances resolves rfl done

theorem act_advances {event : EfaDomain.Event} (done : rdmaDomain.act state event = some after)
    (apart : rdmaDomain.messageId event ≠ some id) :
    Advances rdmaDomain Books id ops ops state after := by
  cases event with
  | submitSend transferId destAddr insert =>
    have other : transferId ≠ id := fun same => apart (congrArg some same)
    have resolves := getOrAddRemoteAddr_resolves state insert destAddr
    cases done
    unfold EfaDomain.submitSend
    split
    next middle found =>
      rw [found] at resolves
      exact .unrelated other (congrArg (· ++ _) resolves.completions) fun _ books =>
        books.frame resolves.writes resolves.contexts
    next addr middle found =>
      rw [found] at resolves
      exact .quiet resolves.completions fun _ books => books.resolves resolves
  | addPeerGroup handle addrs insert =>
    change state.addPeerGroup handle addrs insert = some after at done
    unfold EfaDomain.addPeerGroup at done
    split at done
    next =>
      cases done
      exact .quiet rfl fun _ books => books
    next =>
      obtain ⟨⟨result, middle⟩, resolved, done⟩ := bind_eq_some_iff.mp done
      have resolves := resolve_resolves resolved
      cases result with
      | error addr =>
        cases done
        exact .quiet resolves.completions fun _ books => books.resolves resolves
      | ok addrs =>
        cases done
        exact .quiet resolves.completions fun _ books => books.frame resolves.writes resolves.contexts
  | progress room =>
    obtain ⟨writes, stepped, built⟩ := bind_eq_some_iff.mp done
    cases built
    refine .quiet rfl fun reports books => ?_
    obtain ⟨inv, tally⟩ := books.tally.progressRdmaWriteOps books.inv lawful (toOption_eq_some stepped)
    exact ⟨inv, tally, books.given⟩
  | cqe slot request failure =>
    obtain ⟨⟨entry, writes⟩, stepped, built⟩ := bind_eq_some_iff.mp done
    cases built
    refine .completed rfl fun reports books => ?_
    obtain ⟨inv, counted⟩ := books.tally.cqe books.inv books.given (toOption_eq_some stepped)
    exact counted.imp_right fun kept => ⟨kept.1, inv, kept.2, books.given⟩

theorem accountable : Accountable rdmaDomain Books Finished where
  bound books := books.limit
  finished books := books.tally.complete books.inv books.given
  submit := submit_advances
  act := act_advances
  get := rfl
  set books := books.frame rfl rfl

end

end Efa

end PplxGarden.Fabric
