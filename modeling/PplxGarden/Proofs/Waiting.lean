import Mathlib.Data.List.Perm.Subperm
import PplxGarden.Proofs.VerbsDomain
import PplxGarden.Library.Loop

/-! Work that waits for a peer is neither lost nor made. An operation that was accepted
is submitted or waits in its place, in order, and a context lives as long as a peer holds
it. This needs that a connection does not fail after its peer was entered. -/

namespace PplxGarden.Fabric.Verbs
open Library Function Finset Option

def Supply.Early (supply : Supply) : Prop :=
  match supply.failure with
  | some (.create _) => True
  | _ => False

instance (supply : Supply) : Decidable supply.Early := by
  unfold Supply.Early
  split <;> infer_instance

def Uncreated {υ : Type} (addressing : Addressing υ) (supply : Supply) (addr : DomainAddress) : Prop :=
  (addressing.fromBytes addr).isNone ∨ supply.Early

instance {υ : Type} (addressing : Addressing υ) (supply : Supply) (addr : DomainAddress) : Decidable (Uncreated addressing supply addr) :=
  inferInstanceAs (Decidable (_ ∨ _))

def Succeeds {υ : Type} (addressing : Addressing υ) (supply : Supply) (addr : DomainAddress) : Prop :=
  (addressing.fromBytes addr).isSome ∧ supply.failure = none

instance {υ : Type} (addressing : Addressing υ) (supply : Supply) (addr : DomainAddress) : Decidable (Succeeds addressing supply addr) :=
  inferInstanceAs (Decidable (_ ∧ _))

namespace VerbsDomain

variable {υ : Type} {state after : VerbsDomain υ} {addr : DomainAddress} {place : Place}
  {gathering : Gathering υ} {info : PeerHandshakeInfo υ} {op : ScatterGroupWriteOp} {supply : Supply}
  {handle : PeerGroupHandle} {shares : Bool}

/-- The operations that were entered at a place were submitted or wait there, in order. -/
def Waits (entered : List (Place × TransferId × Operation)) (state : VerbsDomain υ) : Prop :=
  ∀ place, placed place entered = placed place state.history.submitted ++ state.pending place

section
variable {entered : List (Place × TransferId × Operation)} {item : TransferId × Operation}

section
variable (waits : Waits entered state)
include waits

theorem Waits.same (submitted : after.history.submitted = state.history.submitted)
    (pending : after.pending = state.pending) : Waits entered after := by
  unfold Waits
  rw [submitted, pending]
  exact waits

/-- An operation waits behind what waits already, or nothing waits and it is submitted. -/
theorem Waits.enter (done : List (TransferId × Operation))
    (submitted : after.history.submitted = state.history.submitted ++ done.map (place, ·))
    (here : state.pending place ++ [item] = done ++ after.pending place)
    (elsewhere : ∀ other, other ≠ place → after.pending other = state.pending other) :
    Waits (entered ++ [(place, item)]) after := by
  intro other
  rw [submitted, placed_append, placed_append, placed_singleton, placed_map, waits]
  by_cases same : place = other
  · subst same
    rw [if_pos rfl, if_pos rfl, List.append_assoc, List.append_assoc, here, List.map_id']
  · rw [if_neg same, if_neg same, elsewhere other (Ne.symm same), List.append_nil, List.append_nil]

theorem Waits.submitted : state.history.submitted.Subperm entered := by
  have counted : ∀ (log : List (Place × TransferId × Operation)) (place : Place) (item : TransferId × Operation),
      log.count (place, item) = (placed place log).count item := by
    intro log place item
    induction log with
    | nil => rfl
    | cons entry rest ih =>
      obtain ⟨other, head⟩ := entry
      rw [← List.singleton_append, placed_append, List.count_append, List.count_append, ih, placed_singleton]
      by_cases same : other = place <;> simp [same, List.count_singleton]
  rw [List.subperm_ext_iff]
  rintro ⟨place, item⟩ -
  rw [counted, counted, waits, List.count_append]
  exact Nat.le_add_right ..

theorem Waits.establish {peer : Peer υ} (found : state.peers.lookup addr = some peer)
    (done : Establishes addr peer info state after) : Waits entered after := by
  have split : ∀ place, state.pending place = state.drained addr peer place ++ after.pending place := by
    intro place
    cases place with
    | peer other =>
      by_cases same : other = addr
      · subst same
        simp [pending, drained, done.peers, found, Peer.activated, PeerState.submits]
      · simp [same, pending, drained, done.peers]
    | group handle =>
      simp only [pending, drained, done.connecting]
      cases known : state.connectingPeerGroups.lookup handle with
      | none => simp
      | some group => by_cases last : group.Last peer.rmaRc.qp <;> simp [last, ConnectingPeerGroup.without]
    | context ptr =>
      simp only [pending, drained, done.contexts]
      by_cases member : ptr ∈ peer.state.contexts
      · cases known : state.objpoolPendingGroupWriteOp.read ptr with
        | none => simp [member]
        | some context => by_cases last : context.Last peer.rmaRc.qp <;> simp [member, last, PendingGroupWriteOp.without]
      · simp [member]
    | nowhere => rfl
  intro place
  rw [done.submitted, waits, split, List.append_assoc]

end

end

structure Ledger (calling : List (TransferId × Operation)) (state : VerbsDomain υ) : Prop where
  places : ∀ place, placed place state.history.accepted = placed place state.history.submitted ++ state.pending place
  calls : ∀ item, (state.history.accepted.map (·.2)).count item + state.history.refused.count item + calling.count item =
    state.history.asked.count item

theorem Ledger.new (udAddr : υ) : Ledger [] (VerbsDomain.new udAddr) where
  places place := by cases place <;> rfl
  calls _ := rfl

section
variable {calling : List (TransferId × Operation)} {item : TransferId × Operation}

theorem Ledger.same (ledger : Ledger calling state)
    (asked : after.history.asked = state.history.asked)
    (refused : after.history.refused = state.history.refused)
    (accepted : after.history.accepted = state.history.accepted)
    (submitted : after.history.submitted = state.history.submitted)
    (pending : after.pending = state.pending) : Ledger calling after := by
  constructor
  · rw [accepted]
    exact Waits.same ledger.places submitted pending
  · rw [accepted, refused, asked]
    exact ledger.calls

theorem Ledger.ask (ledger : Ledger [] state) (transferId : TransferId) (op : Operation) :
    Ledger [(transferId, op)] (state.ask transferId op) := by
  refine ⟨ledger.places, fun other => ?_⟩
  rw [VerbsDomain.ask, List.count_append, ← ledger.calls]
  rfl

theorem Ledger.refuse {transferId : TransferId} {op : Operation}
    (ledger : Ledger [(transferId, op)] state) (error : FabricLibError) :
    Ledger [] (state.refuse transferId op error) := by
  refine ⟨ledger.places, fun other => ?_⟩
  simp only [VerbsDomain.refuse, List.count_append, List.count_nil, ← ledger.calls, Nat.add_zero, Nat.add_assoc]

/-- A call is accepted: it waits behind what waits already, or nothing waits and it is
submitted. -/
theorem Ledger.accept (ledger : Ledger [item] state) (done : List (TransferId × Operation))
    (asked : after.history.asked = state.history.asked) (refused : after.history.refused = state.history.refused)
    (accepted : after.history.accepted = state.history.accepted ++ [(place, item)])
    (submitted : after.history.submitted = state.history.submitted ++ done.map (place, ·))
    (here : state.pending place ++ [item] = done ++ after.pending place)
    (elsewhere : ∀ other, other ≠ place → after.pending other = state.pending other) : Ledger [] after := by
  constructor
  · rw [accepted]
    exact Waits.enter ledger.places done submitted here elsewhere
  · intro other
    rw [accepted, refused, asked, List.map_append, List.count_append, ← ledger.calls, List.count_nil, Nat.add_zero]
    exact Nat.add_right_comm ..

end

theorem Ledger.disjoint (ledger : Ledger [] state) (item : TransferId × Operation) :
    (state.history.submitted.map (·.2)).count item + state.history.refused.count item ≤
      state.history.asked.count item := by
  obtain ⟨log, perm, sub⟩ := Waits.submitted ledger.places
  calc _ = (log.map (·.2)).count item + state.history.refused.count item := by rw [(perm.map _).count_eq]
    _ ≤ (state.history.accepted.map (·.2)).count item + state.history.refused.count item :=
      Nat.add_le_add_right ((sub.map _).count_le item) _
    _ = state.history.asked.count item := ledger.calls item

/-- Pending operations are read off the peers, the connecting groups and the contexts. -/
theorem pending_congr (peers : after.peers = state.peers)
    (groups : after.connectingPeerGroups = state.connectingPeerGroups)
    (contexts : after.objpoolPendingGroupWriteOp.read = state.objpoolPendingGroupWriteOp.read) :
    after.pending = state.pending := by
  funext place
  cases place <;> simp only [pending, peers, groups, contexts]

private theorem pending_insert
    (peers : ∀ owner, owner ≠ addr → after.peers.lookup owner = state.peers.lookup owner)
    (groups : after.connectingPeerGroups = state.connectingPeerGroups)
    (contexts : after.objpoolPendingGroupWriteOp.read = state.objpoolPendingGroupWriteOp.read)
    (other : place ≠ .peer addr) : after.pending place = state.pending place := by
  cases place with
  | peer owner =>
    have apart : owner ≠ addr := fun same => other (congrArg Place.peer same)
    simp only [pending, peers owner apart]
  | group handle => simp only [pending, groups]
  | context ptr => simp only [pending, contexts]
  | nowhere => rfl

theorem pending_new {peer : Peer υ} (absent : state.peers.lookup addr = none)
    (idle : peer.state.submits = []) (peers : after.peers = state.peers.insert addr peer)
    (groups : after.connectingPeerGroups = state.connectingPeerGroups)
    (contexts : after.objpoolPendingGroupWriteOp.read = state.objpoolPendingGroupWriteOp.read) :
    after.pending = state.pending := by
  funext place
  by_cases same : place = .peer addr
  · simp [same, pending, peers, absent, idle]
  · exact pending_insert (fun owner apart => by rw [peers, AList.lookup_insert_ne apart]) groups contexts same

theorem pending_newGroup (fresh : state.connectingPeerGroups.lookup handle = none)
    (rmaQps : List Qp) (pendingPeers : Finset Qp) :
    pending { state with connectingPeerGroups := state.connectingPeerGroups.insert handle ⟨rmaQps, pendingPeers, []⟩ } = state.pending := by
  funext place
  cases place with
  | group other =>
    by_cases same : other = handle
    · subst same
      simp [pending, fresh]
    · simp [pending, same]
  | _ => rfl

structure Adds (place : Place) (item : TransferId × Operation) (state after : VerbsDomain υ) : Prop where
  submitted : after.history.submitted = state.history.submitted
  here : after.pending place = state.pending place ++ [item]
  elsewhere : ∀ other, other ≠ place → after.pending other = state.pending other

theorem Waits.adds {entered : List (Place × TransferId × Operation)} {item : TransferId × Operation}
    (waits : Waits entered state) (adds : Adds place item state after) :
    Waits (entered ++ [(place, item)]) after :=
  waits.enter [] (adds.submitted.trans (List.append_nil _).symm) adds.here.symm adds.elsewhere

theorem Ledger.adds {item : TransferId × Operation} (ledger : Ledger [item] state) (adds : Adds place item state after)
    (asked : after.history.asked = state.history.asked) (refused : after.history.refused = state.history.refused)
    (accepted : after.history.accepted = state.history.accepted ++ [(place, item)]) : Ledger [] after :=
  ledger.accept [] asked refused accepted (adds.submitted.trans (List.append_nil _).symm) adds.here.symm adds.elsewhere

section
variable {transferId : TransferId}

theorem Adds.peer {peer : Peer υ} {op : OutboundOp}
    (submitted : after.history.submitted = state.history.submitted)
    (peers : after.peers = state.peers.insert addr peer)
    (groups : after.connectingPeerGroups = state.connectingPeerGroups)
    (contexts : after.objpoolPendingGroupWriteOp.read = state.objpoolPendingGroupWriteOp.read)
    (waiting : peer.state.submits = ((state.peers.lookup addr).map (·.state.submits)).getD [] ++
      [(transferId, op)]) : Adds (.peer addr) (transferId, .outbound op) state after where
  submitted := submitted
  here := by
    simp only [pending, peers, AList.lookup_insert, waiting, List.map_append]
    cases state.peers.lookup addr <;> rfl
  elsewhere _ apart := pending_insert
    (fun owner different => by rw [peers, AList.lookup_insert_ne different]) groups contexts apart

theorem Adds.group {group : ConnectingPeerGroup}
    (submitted : after.history.submitted = state.history.submitted) (peers : after.peers = state.peers)
    (found : state.connectingPeerGroups.lookup handle = some group)
    (groups : after.connectingPeerGroups = state.connectingPeerGroups.insert handle
      { group with pendingGroupOps := group.pendingGroupOps ++ [(transferId, op)] })
    (contexts : after.objpoolPendingGroupWriteOp.read = state.objpoolPendingGroupWriteOp.read) :
    Adds (.group handle) (transferId, .group op) state after where
  submitted := submitted
  here := by simp [pending, groups, found]
  elsewhere other apart := by
    cases other with
    | group own =>
      have apart : own ≠ handle := fun same => apart (congrArg Place.group same)
      simp [pending, groups, apart]
    | peer => simp only [pending, peers]
    | context => simp only [pending, contexts]
    | nowhere => rfl

theorem Adds.park
    (blank : ∀ ptr ∈ gathering.ctxPtr, gathering.domain.objpoolPendingGroupWriteOp.read ptr = none)
    (done : VerbsDomain.park transferId op gathering = some after) :
    ∃ ptr pool, gathering.ctxPtr = some ptr ∧
      gathering.domain.objpoolPendingGroupWriteOp.write ptr ⟨transferId, some op, gathering.rmaQps,
        gathering.pendingPeers⟩ = some pool ∧
      after = { gathering.domain with objpoolPendingGroupWriteOp := pool }.accept (.context ptr)
        transferId (.group op) ∧
      Adds (.context ptr) (transferId, .group op) gathering.domain after := by
  simp only [VerbsDomain.park, bind_eq_bind, bind_eq_some_iff] at done
  obtain ⟨ptr, own, pool, written, built⟩ := done
  cases built
  have read := Pool.read_write written
  refine ⟨ptr, pool, own, written, rfl, rfl, ?_, fun other apart => ?_⟩
  · simp [pending, blank ptr own, VerbsDomain.accept, read]
  · cases other with
    | context slot =>
      have apart : slot ≠ ptr := fun same => apart (congrArg Place.context same)
      simp [pending, VerbsDomain.accept, read, apart]
    | _ => rfl

end

theorem Ledger.establish {peer : Peer υ} (ledger : Ledger [] state)
    (found : state.peers.lookup addr = some peer) (done : Establishes addr peer info state after) :
    Ledger [] after := by
  constructor
  · rw [done.accepted]
    exact Waits.establish ledger.places found done
  · rw [done.accepted, done.refused, done.asked]
    exact ledger.calls

def awaited (state : VerbsDomain υ) (ptr : Nat) : Finset Qp :=
  match state.objpoolPendingGroupWriteOp.read ptr with
  | some context => context.pendingPeers
  | none => ∅

theorem awaited_congr (contexts : after.objpoolPendingGroupWriteOp.read = state.objpoolPendingGroupWriteOp.read) :
    after.awaited = state.awaited := by
  funext ptr
  simp only [awaited, contexts]

theorem inserted {other : DomainAddress} {peer found : Peer υ} (peers : after.peers = state.peers.insert addr peer)
    (known : after.peers.lookup other = some found) :
    other = addr ∧ found = peer ∨ other ≠ addr ∧ state.peers.lookup other = some found := by
  rw [peers] at known
  by_cases same : other = addr
  · subst same
    rw [AList.lookup_insert, Option.some.injEq] at known
    exact .inl ⟨rfl, known.symm⟩
  · rw [AList.lookup_insert_ne same] at known
    exact .inr ⟨same, known⟩

structure Pointers (awaited : Nat → Finset Qp) (state : VerbsDomain υ) : Prop where
  waits : ∀ addr peer, state.peers.lookup addr = some peer → ∀ ptr ∈ peer.state.contexts, peer.rmaRc.qp ∈ awaited ptr
  single : ∀ addr peer, state.peers.lookup addr = some peer → peer.state.contexts.Nodup
  created : ∀ addr peer, state.peers.lookup addr = some peer → peer.rmaRc.qp < state.nextQp
  distinct : ∀ one two first second, state.peers.lookup one = some first → state.peers.lookup two = some second →
    first.rmaRc.qp = second.rmaRc.qp → one = two

section
variable {awaited further : Nat → Finset Qp}

section
variable (pointers : Pointers awaited state)
include pointers

theorem Pointers.mono (more : ∀ ptr, awaited ptr ⊆ further ptr) (peers : after.peers = state.peers)
    (nextQp : after.nextQp = state.nextQp) : Pointers further after := by
  constructor
  · rw [peers]
    intro addr peer found ptr member
    exact more ptr (pointers.waits addr peer found ptr member)
  · rw [peers]
    exact pointers.single
  · rw [peers, nextQp]
    exact pointers.created
  · rw [peers]
    exact pointers.distinct

theorem Pointers.frame (peers : after.peers = state.peers) (nextQp : after.nextQp = state.nextQp) :
    Pointers awaited after :=
  pointers.mono (fun _ => Subset.refl _) peers nextQp

theorem Pointers.insert {peer : Peer υ} (peers : after.peers = state.peers.insert addr peer)
    (nextQp : after.nextQp = state.nextQp + 2) (rma : peer.rmaRc.qp = state.nextQp + 1)
    (waits : ∀ ptr ∈ peer.state.contexts, peer.rmaRc.qp ∈ awaited ptr)
    (single : peer.state.contexts.Nodup) : Pointers awaited after := by
  constructor
  · intro other found known
    rcases inserted peers known with ⟨-, rfl⟩ | ⟨-, known⟩
    · exact waits
    · exact pointers.waits other found known
  · intro other found known
    rcases inserted peers known with ⟨-, rfl⟩ | ⟨-, known⟩
    · exact single
    · exact pointers.single other found known
  · intro other found known
    rcases inserted peers known with ⟨-, rfl⟩ | ⟨-, known⟩
    · rw [rma, nextQp]
      exact Nat.lt_succ_self _
    · rw [nextQp]
      exact Nat.lt_add_right 2 (pointers.created other found known)
  · intro one two first second known also same
    rcases inserted peers known with ⟨here, rfl⟩ | ⟨-, known⟩
    · rcases inserted peers also with ⟨there, rfl⟩ | ⟨-, also⟩
      · exact here.trans there.symm
      · have bound := pointers.created two second also
        rw [← same, rma] at bound
        exact absurd bound (Nat.not_lt.mpr (Nat.le_succ _))
    · rcases inserted peers also with ⟨there, rfl⟩ | ⟨-, also⟩
      · have bound := pointers.created one first known
        rw [same, rma] at bound
        exact absurd bound (Nat.not_lt.mpr (Nat.le_succ _))
      · exact pointers.distinct one two first second known also same

theorem Pointers.replace {old peer : Peer υ} (present : state.peers.lookup addr = some old)
    (peers : after.peers = state.peers.insert addr peer) (nextQp : after.nextQp = state.nextQp)
    (rma : peer.rmaRc.qp = old.rmaRc.qp)
    (waits : ∀ ptr ∈ peer.state.contexts, peer.rmaRc.qp ∈ further ptr)
    (single : peer.state.contexts.Nodup)
    (others : ∀ ptr, (awaited ptr).erase old.rmaRc.qp ⊆ further ptr) : Pointers further after := by
  have before : ∀ other found, after.peers.lookup other = some found →
      ∃ known, state.peers.lookup other = some known ∧ found.rmaRc.qp = known.rmaRc.qp := by
    intro other found known
    rcases inserted peers known with ⟨rfl, rfl⟩ | ⟨-, known⟩
    · exact ⟨old, present, rma⟩
    · exact ⟨found, known, rfl⟩
  constructor
  · intro other found known ptr member
    rcases inserted peers known with ⟨-, rfl⟩ | ⟨apart, known⟩
    · exact waits ptr member
    · have apart : found.rmaRc.qp ≠ old.rmaRc.qp := fun same => apart (pointers.distinct _ _ _ _ known present same)
      exact others ptr (mem_erase.mpr ⟨apart, pointers.waits other found known ptr member⟩)
  · intro other found known
    rcases inserted peers known with ⟨-, rfl⟩ | ⟨-, known⟩
    · exact single
    · exact pointers.single other found known
  · intro other found known
    obtain ⟨earlier, known, same⟩ := before other found known
    rw [same, nextQp]
    exact pointers.created other earlier known
  · intro one two first second known also same
    obtain ⟨_, known, firstQp⟩ := before one first known
    obtain ⟨_, also, secondQp⟩ := before two second also
    exact pointers.distinct one two _ _ known also (by rw [← firstQp, ← secondQp, same])

end

end

theorem Pointers.establish {peer : Peer υ} (pointers : Pointers state.awaited state)
    (found : state.peers.lookup addr = some peer) (done : Establishes addr peer info state after) :
    Pointers after.awaited after := by
  refine pointers.replace found done.peers done.nextQp rfl (fun _ member =>
    (List.not_mem_nil member).elim) .nil fun ptr => ?_
  unfold awaited
  rw [done.contexts]
  cases held : state.objpoolPendingGroupWriteOp.read ptr with
  | none => simp
  | some context =>
    by_cases member : ptr ∈ peer.state.contexts
    · by_cases last : context.Last peer.rmaRc.qp
      · simp [member, last, last.2]
      · simp [member, last, PendingGroupWriteOp.without]
    · simp [member, erase_subset]

structure Orderly (calling : List (TransferId × Operation)) (state : VerbsDomain υ) : Prop where
  ledger : Ledger calling state
  pointers : Pointers state.awaited state

structure Kept (awaited : Nat → Finset Qp) (state after : VerbsDomain υ) : Prop where
  history : after.history = state.history
  connecting : after.connectingPeerGroups = state.connectingPeerGroups
  pending : after.pending = state.pending
  known : ∀ addr, after.peers.lookup addr = none → state.peers.lookup addr = none
  pointers : Pointers awaited after

theorem Kept.enter {awaited : Nat → Finset Qp} {middle : VerbsDomain υ}
    (kept : Kept awaited state middle) {peer : Peer υ} (absent : middle.peers.lookup addr = none)
    (idle : peer.state.submits = []) (rma : peer.rmaRc.qp = middle.nextQp + 1)
    (waits : ∀ ptr ∈ peer.state.contexts, peer.rmaRc.qp ∈ awaited ptr)
    (single : peer.state.contexts.Nodup) (outbox : List (υ × PeerHandshakeInfo υ)) :
    Kept awaited state { middle.insertPeer addr peer with outbox } where
  history := kept.history
  connecting := kept.connecting
  pending := by
    rw [← kept.pending]
    exact pending_new absent idle rfl rfl rfl
  known other missing := by
    refine kept.known other ?_
    exact (AList.lookup_insert_eq_none.mp missing).2
  pointers := kept.pointers.insert rfl rfl rma waits single

/-- While a group is gathered its context waits for the peers gathered so far. -/
def Gathering.awaited (gathering : Gathering υ) : Nat → Finset Qp :=
  match gathering.ctxPtr with
  | some ptr => update gathering.domain.awaited ptr gathering.pendingPeers
  | none => gathering.domain.awaited

structure Gathering.Kept (shares : Bool) (state : VerbsDomain υ) (gathering : Gathering υ) : Prop where
  kept : VerbsDomain.Kept gathering.awaited state gathering.domain
  blank : ∀ ptr ∈ gathering.ctxPtr, gathering.domain.objpoolPendingGroupWriteOp.read ptr = none
  solitary : shares = false → gathering.ctxPtr = none

theorem Gathering.Kept.claim (kept : gathering.Kept shares state) :
    (gathering.claim shares).Kept shares state := by
  unfold Gathering.claim
  split
  next free =>
    refine ⟨⟨kept.kept.history, kept.kept.connecting, ?_, kept.kept.known, ?_⟩, ?_, fun alone => by cases alone⟩
    · rw [← kept.kept.pending]
      exact pending_congr rfl rfl Pool.read_alloc
    · refine kept.kept.pointers.mono (fun ptr => ?_) rfl rfl
      simp only [Gathering.awaited, free]
      by_cases same : ptr = gathering.domain.objpoolPendingGroupWriteOp.top
      · simp [same, VerbsDomain.awaited]
      · rw [Pool.alloc_slot, update_of_ne same]
        exact Eq.subset (congrFun (awaited_congr Pool.read_alloc.symm) ptr)
    · intro ptr member
      cases member
      rw [Pool.read_alloc, Pool.read_top]
  next => exact kept

section
variable {addressing : Addressing υ}

private theorem initiate_succeeds {pendingSubmits : List (TransferId × OutboundOp)}
    {pendingGroupWriteOps : List Nat} {failure : FabricLibError × VerbsDomain υ}
    (failed : state.initiate addressing addr supply pendingSubmits pendingGroupWriteOps =
      .error failure) : ¬ Succeeds addressing supply addr := by
  rintro ⟨valid, works⟩
  obtain ⟨udAddr, decoded⟩ := isSome_iff_exists.mp valid
  simp [initiate, createPeer, connectPeer, decoded, works] at failed

theorem Gathering.Kept.join (kept : gathering.Kept shares state)
    (absent : gathering.domain.peers.lookup addr = none) (udAddr : υ) (supply : Supply)
    (outbox : List (υ × PeerHandshakeInfo υ)) :
    (gathering.join (gathering.domain.newPeer udAddr supply [] gathering.ctxPtr.toList)
      { gathering.domain.insertPeer addr (gathering.domain.newPeer udAddr supply [] gathering.ctxPtr.toList) with outbox }).Kept shares state := by
  refine ⟨?_, kept.blank, kept.solitary⟩
  refine VerbsDomain.Kept.enter ⟨kept.kept.history, kept.kept.connecting, kept.kept.pending,
    kept.kept.known, ?_⟩ absent rfl rfl
    (fun ptr member => ?_) ?_ _
  · refine kept.kept.pointers.mono (fun ptr => ?_) rfl rfl
    cases shared : gathering.ctxPtr with
    | none =>
      simp only [Gathering.awaited, Gathering.join, shared]
      exact Subset.refl _
    | some own =>
      simp only [Gathering.awaited, Gathering.join, shared]
      by_cases same : ptr = own
      · simp [same, subset_insert]
      · rw [update_of_ne same, update_of_ne same]
        exact Subset.refl _
  · obtain own : gathering.ctxPtr = some ptr := by simpa [newPeer, PeerState.contexts] using member
    simp [Gathering.awaited, Gathering.join, own]
  · cases gathering.ctxPtr <;> simp [newPeer, PeerState.contexts]

theorem gather_kept (addressing : Addressing υ) (shares : Bool) (supply : DomainAddress → Supply)
    (addrs : List DomainAddress) (pointers : Pointers state.awaited state)
    (allowed : shares = true → ∀ addr ∈ addrs, state.peers.lookup addr = none →
      Succeeds addressing (supply addr) addr) :
    (∀ gathering, state.gather addressing shares supply addrs = .ok gathering →
      gathering.Kept shares state) ∧
      ∀ error, state.gather addressing shares supply addrs = .error error → shares = false ∧
        Kept error.2.2.awaited state error.2.2 := by
  refine gather_rule ?_ ?_ ?_ ?_
  · exact ⟨⟨rfl, rfl, rfl, fun _ missing => missing, pointers⟩, fun ptr member =>
      (not_mem_none ptr member).elim, fun _ => rfl⟩
  · intro gathering addr peer kept _ _
    exact ⟨kept.kept, kept.blank, kept.solitary⟩
  · intro gathering addr reason domain kept member absent made
    have claimed := kept.claim
    have alone : shares = false := by
      by_contra shared
      exact initiate_succeeds made (allowed (Bool.eq_true_of_not_eq_false shared) addr member
        (claimed.kept.known addr absent))
    have none_ := claimed.solitary alone
    have before : Kept (gathering.claim shares).domain.awaited state (gathering.claim shares).domain := by
      have same := claimed.kept
      rwa [Gathering.awaited, none_] at same
    rcases initiate_error made with rfl | ⟨-, udAddr, -, rfl⟩
    · exact ⟨alone, before⟩
    · refine ⟨alone, before.enter absent rfl rfl (fun ptr member => ?_) ?_ _⟩
      · simp [none_, newPeer, PeerState.contexts] at member
      · simp [none_, newPeer, PeerState.contexts]
  · intro gathering addr peer domain kept _ absent made
    obtain ⟨udAddr, -, rfl, rfl⟩ := initiate_ok made
    exact kept.claim.join absent udAddr (supply addr) _

theorem initiate_uncreated (fails : Uncreated addressing supply addr) (state : VerbsDomain υ)
    (pendingSubmits : List (TransferId × OutboundOp)) (pendingGroupWriteOps : List Nat) :
    ∃ reason, state.initiate addressing addr supply pendingSubmits pendingGroupWriteOps = .error (reason, state) := by
  unfold initiate createPeer
  cases decoded : addressing.fromBytes addr with
  | none => exact ⟨_, rfl⟩
  | some udAddr =>
    obtain invalid | early := fails
    · simp [decoded] at invalid
    · obtain ⟨reason, failed⟩ : ∃ reason, supply.failure = some (.create reason) := by
        unfold Supply.Early at early
        split at early
        next reason failed => exact ⟨reason, failed⟩
        next => exact early.elim
      simp only [failed]
      exact ⟨reason, rfl⟩

theorem gather_uncreated (state : VerbsDomain υ) {supply : DomainAddress → Supply}
    {addrs : List DomainAddress} {first : DomainAddress}
    (new : addrs.find? (fun addr => (state.peers.lookup addr).isNone) = some first)
    (fails : Uncreated addressing (supply first) first) :
    ∃ reason, state.gather addressing true supply addrs =
      .error (reason, first,
        { state with objpoolPendingGroupWriteOp := state.objpoolPendingGroupWriteOp.alloc.2 }) := by
  unfold gather
  generalize ([] : List Qp) = rmaQps
  induction addrs generalizing rmaQps with
  | nil => cases new
  | cons addr rest ih =>
    rw [List.foldlM_cons, Gathering.visit]
    cases found : state.peers.lookup addr with
    | some peer =>
      rw [List.find?_cons_of_neg (by simp [found])] at new
      exact ih new _
    | none =>
      rw [List.find?_cons_of_pos (by simp [found])] at new
      cases new
      obtain ⟨reason, failed⟩ := initiate_uncreated fails
        { state with objpoolPendingGroupWriteOp := state.objpoolPendingGroupWriteOp.alloc.2 }
        [] [state.objpoolPendingGroupWriteOp.alloc.1]
      refine ⟨reason, ?_⟩
      simp only [Gathering.claim, toList_some, failed]
      rfl

/-- The steps that do not fail after they entered a peer: a new peer is not created, or
it is created and connected; for a group this holds of the first new peer, or all new
peers are connected. -/
def Careful (addressing : Addressing υ) (state : VerbsDomain υ) : Action υ → Prop
  | .submit _ destAddr _ supply _ =>
    (state.peers.lookup destAddr).isSome ∨ Uncreated addressing supply destAddr ∨ Succeeds addressing supply destAddr
  | .submitGroupWrite _ none op supply _ =>
    (∀ first ∈ (op.peerAddrs.getD []).find? (fun addr => (state.peers.lookup addr).isNone),
      Uncreated addressing (supply first) first) ∨
      ∀ addr ∈ op.peerAddrs.getD [], state.peers.lookup addr = none → Succeeds addressing (supply addr) addr
  | _ => True

instance (state : VerbsDomain υ) (action : Action υ) : Decidable (state.Careful addressing action) :=
  match action with
  | .submit .. => inferInstanceAs (Decidable (_ ∨ _))
  | .submitGroupWrite _ none _ _ _ => inferInstanceAs (Decidable (_ ∨ _))
  | .submitGroupWrite _ (some _) _ _ _ | .addPeerGroup .. | .handshake .. | .progress .. | .cqe .. =>
    inferInstanceAs (Decidable True)

section
variable {transferId : TransferId} {rooms : Nat → Nat} {item : TransferId × Operation} {calling : List (TransferId × Operation)}

theorem Orderly.new (udAddr : υ) : Orderly [] (VerbsDomain.new udAddr) where
  ledger := .new udAddr
  pointers := by
    constructor
    · intro addr peer found
      cases found
    · intro addr peer found
      cases found
    · intro addr peer found
      cases found
    · intro one two first second found
      cases found

theorem Orderly.kept (orderly : Orderly calling state) (kept : Kept after.awaited state after) :
    Orderly calling after := by
  obtain ⟨history, -, pending, -, pointers⟩ := kept
  exact ⟨orderly.ledger.same (by rw [history]) (by rw [history]) (by rw [history]) (by rw [history]) pending, pointers⟩

theorem Orderly.frame (orderly : Orderly calling state)
    (asked : after.history.asked = state.history.asked)
    (refused : after.history.refused = state.history.refused)
    (accepted : after.history.accepted = state.history.accepted)
    (submitted : after.history.submitted = state.history.submitted)
    (peers : after.peers = state.peers)
    (groups : after.connectingPeerGroups = state.connectingPeerGroups)
    (contexts : after.objpoolPendingGroupWriteOp.read = state.objpoolPendingGroupWriteOp.read)
    (nextQp : after.nextQp = state.nextQp) : Orderly calling after := by
  refine ⟨orderly.ledger.same asked refused accepted submitted (pending_congr peers groups contexts), ?_⟩
  rw [awaited_congr contexts]
  exact orderly.pointers.frame peers nextQp

theorem Orderly.ask (orderly : Orderly [] state) (transferId : TransferId) (op : Operation) :
    Orderly [(transferId, op)] (state.ask transferId op) :=
  ⟨orderly.ledger.ask transferId op, orderly.pointers.frame rfl rfl⟩

theorem Orderly.refuse {op : Operation} (orderly : Orderly [(transferId, op)] state) (error : FabricLibError) :
    Orderly [] (state.refuse transferId op error) :=
  ⟨orderly.ledger.refuse error, orderly.pointers.frame rfl rfl⟩

theorem Orderly.submits {op : Operation} (orderly : Orderly [(transferId, op)] state) (idle : state.pending place = [])
    (done : Submits [(place, transferId, op)] (state.accept place transferId op) after) : Orderly [] after := by
  have same : after.pending = state.pending :=
    pending_congr done.peers done.connectingPeerGroups (congrArg Pool.read done.contexts)
  refine ⟨orderly.ledger.accept [(transferId, op)] done.asked done.refused done.accepted
    done.submitted ?_ fun _ _ => by rw [same], ?_⟩
  · rw [same, idle]
    rfl
  · rw [awaited_congr (congrArg Pool.read done.contexts)]
    exact orderly.pointers.frame done.peers done.nextQp

theorem submitOutboundOp_orderly (orderly : Orderly [] state) {destAddr : DomainAddress}
    {op : OutboundOp}
    (careful : state.Careful addressing (.submit transferId destAddr op supply rooms))
    (done : state.submitOutboundOp addressing transferId destAddr op supply rooms = some after) :
    Orderly [] after := by
  have asked := orderly.ask transferId (.outbound op)
  cases submitOutboundOp_takes done with
  | submits found known done =>
    refine asked.submits ?_ (doSubmitOutboundOp_submits done)
    simp [pending, found, known, PeerState.submits]
  | @queues peer pendingSubmits pendingGroupWriteOps found known =>
    constructor
    · refine asked.ledger.adds (.peer rfl rfl rfl rfl ?_) rfl rfl rfl
      simp [found, known, PeerState.submits]
    · have contexts : pendingGroupWriteOps = peer.state.contexts := by rw [known]; rfl
      refine asked.pointers.replace found rfl rfl rfl ?_ ?_ fun _ => erase_subset ..
      · rw [PeerState.contexts, contexts]
        exact asked.pointers.waits destAddr peer found
      · rw [PeerState.contexts, contexts]
        exact asked.pointers.single destAddr peer found
  | fails missing made =>
    rcases careful with present | uncreated | succeeds
    · rw [show state.peers.lookup destAddr = none from missing] at present
      cases present
    · obtain ⟨_, failed⟩ := initiate_uncreated uncreated (state.ask transferId (.outbound op)) [(transferId, op)] []
      rw [failed] at made
      cases made
      exact asked.refuse _
    · exact absurd succeeds (initiate_succeeds made)
  | connects missing made =>
    obtain ⟨udAddr, -, rfl, rfl⟩ := initiate_ok made
    constructor
    · refine asked.ledger.adds (.peer rfl rfl rfl rfl ?_) rfl rfl rfl
      simp [missing, newPeer, PeerState.submits]
    · exact asked.pointers.insert rfl rfl rfl (fun _ member => (List.not_mem_nil member).elim) .nil

theorem Orderly.gathered (orderly : Orderly calling state) (kept : gathering.Kept shares state)
    (none_ : gathering.pendingPeers = ∅ ∨ shares = false) : Orderly calling gathering.domain := by
  refine orderly.kept ⟨kept.kept.history, kept.kept.connecting, kept.kept.pending, kept.kept.known, ?_⟩
  refine kept.kept.pointers.mono (fun ptr => ?_) rfl rfl
  cases shared : gathering.ctxPtr with
  | none =>
    simp only [Gathering.awaited, shared]
    exact Subset.refl _
  | some own =>
    rcases none_ with empty | alone
    · simp only [Gathering.awaited, shared, empty]
      by_cases same : ptr = own
      · simp [same]
      · rw [update_of_ne same]
    · rw [kept.solitary alone] at shared
      cases shared

theorem addPeerGroup_orderly (orderly : Orderly [] state) {addrs : List DomainAddress}
    {supply : DomainAddress → Supply} :
    Orderly [] (state.addPeerGroup addressing handle addrs supply).2 := by
  unfold addPeerGroup
  split
  next => exact orderly
  next fresh =>
    split
    next => exact orderly
    next =>
      obtain ⟨gathers, fails⟩ := gather_kept addressing false supply addrs orderly.pointers fun shared => by cases shared
      cases gathered : state.gather addressing false supply addrs with
      | error failure => exact orderly.kept (fails failure gathered).2
      | ok gathering =>
        have kept := gathers gathering gathered
        have next := orderly.gathered kept (.inr rfl)
        simp only
        split
        next => exact next.frame rfl rfl rfl rfl rfl rfl rfl rfl
        next =>
          refine ⟨next.ledger.same rfl rfl rfl rfl (pending_newGroup ?_ _ _), next.pointers.frame rfl rfl⟩
          rw [kept.kept.connecting]
          exact not_isSome_iff_eq_none.mp fresh

theorem park_orderly (orderly : Orderly [(transferId, .group op)] state)
    (kept : gathering.Kept true state) (done : park transferId op gathering = some after) : Orderly [] after := by
  obtain ⟨ptr, pool, own, written, rfl, adds⟩ := Adds.park kept.blank done
  have read := Pool.read_write written
  have before := orderly.ledger.same (by rw [kept.kept.history]) (by rw [kept.kept.history])
    (by rw [kept.kept.history]) (by rw [kept.kept.history])
    kept.kept.pending
  constructor
  · exact before.adds adds rfl rfl rfl
  · refine kept.kept.pointers.mono (fun slot => ?_) rfl rfl
    simp only [Gathering.awaited, own]
    by_cases same : slot = ptr
    · simp [same, VerbsDomain.awaited, VerbsDomain.accept, read]
    · simp [same, VerbsDomain.awaited, VerbsDomain.accept, read]

/-- A careful group write connects all its new peers, or none of them is created. -/
theorem gather_careful {addrs : List DomainAddress} {supply : DomainAddress → Supply}
    (pointers : Pointers state.awaited state)
    (careful : state.Careful addressing (.submitGroupWrite transferId none op supply rooms))
    (listed : op.peerAddrs = some addrs) :
    (∀ {gathering}, state.gather addressing true supply addrs = .ok gathering →
      gathering.Kept true state) ∧
      ∀ {reason addr domain}, state.gather addressing true supply addrs =
        .error (reason, addr, domain) →
        domain = { state with objpoolPendingGroupWriteOp := state.objpoolPendingGroupWriteOp.alloc.2 } := by
  simp only [Careful, listed, getD_some] at careful
  by_cases succeed : ∀ addr ∈ addrs, state.peers.lookup addr = none → Succeeds addressing (supply addr) addr
  · obtain ⟨gathers, fails⟩ := gather_kept addressing true supply addrs pointers fun _ => succeed
    refine ⟨fun gathered => gathers _ gathered, fun gathered => ?_⟩
    cases (fails _ gathered).1
  · cases new : addrs.find? fun addr => (state.peers.lookup addr).isNone with
    | none =>
      refine absurd (fun addr member missing => ?_) succeed
      exact absurd (by simp [missing]) (List.find?_eq_none.mp new addr member)
    | some first =>
      obtain ⟨reason, failed⟩ := gather_uncreated state new (careful.resolve_right succeed first new)
      constructor
      · intro gathering gathered
        cases failed.symm.trans gathered
      · intro reason addr domain gathered
        cases failed.symm.trans gathered
        rfl

theorem submitGroupWrite_orderly (orderly : Orderly [] state) {handle : Option PeerGroupHandle}
    {supply : DomainAddress → Supply}
    (careful : state.Careful addressing (.submitGroupWrite transferId handle op supply rooms))
    (done : state.submitGroupWrite addressing transferId handle op supply rooms = some after) :
    Orderly [] after := by
  have asked := orderly.ask transferId (.group op)
  have careful : (state.ask transferId (.group op)).Careful addressing
    (.submitGroupWrite transferId handle op supply rooms) := careful
  cases submitGroupWrite_takes done with
  | queues waiting => exact ⟨asked.ledger.adds (.group rfl rfl waiting rfl rfl) rfl rfl rfl, asked.pointers.frame rfl rfl⟩
  | unknown => exact asked.refuse _
  | submits connected known done =>
    refine asked.submits ?_ (doSubmitGroupWrite_submits done)
    simp [pending, connected]
  | fails listed gathered =>
    obtain rfl := (gather_careful asked.pointers careful listed).2 gathered
    refine Orderly.refuse ?_ _
    exact asked.frame rfl rfl rfl rfl rfl rfl Pool.read_alloc rfl
  | gathers listed gathered done =>
    have kept := (gather_careful asked.pointers careful listed).1 gathered
    split at done
    next empty => exact (asked.gathered kept (.inl empty)).submits rfl (doSubmitGroupWrite_submits done)
    next => exact park_orderly asked kept done

theorem handlePeerHandshake_orderly (orderly : Orderly [] state) {order : List PeerGroupHandle}
    (done : state.handlePeerHandshake addressing info supply order rooms = some after) : Orderly [] after := by
  have establishes : ∀ {before : VerbsDomain υ} {peer : Peer υ},
      before.establish (addressing.address info.udAddr) peer info order rooms = some after → Orderly [] before →
      order.Perm before.connectingPeerGroups.keys →
        before.peers.lookup (addressing.address info.udAddr) = some peer → Orderly [] after := by
    intro before peer done orderly walks found
    by_cases ready : peer.state = .established
    · rw [establish, ready] at done
      cases done
      exact orderly
    · have established := establish_establishes walks ready (orderly.pointers.single _ _ found) done
      exact ⟨orderly.ledger.establish found established, orderly.pointers.establish found established⟩
  obtain ⟨walks, before, peer, established, ⟨found, rfl⟩ | ⟨missing, made⟩⟩ := handlePeerHandshake_establishes done
  · exact establishes established orderly walks found
  · obtain ⟨udAddr, -, rfl, rfl⟩ := initiate_ok made
    have self : Kept state.awaited state state := ⟨rfl, rfl, rfl, fun _ missing => missing, orderly.pointers⟩
    refine establishes established (orderly.kept ?_) walks (AList.lookup_insert _)
    refine self.enter missing rfl rfl (fun _ member => ?_) ?_ _
    · exact (List.not_mem_nil member).elim
    · exact .nil

theorem fire_orderly (orderly : Orderly [] state) {action : Action υ} (careful : state.Careful addressing action)
    (fired : fire addressing state action = some after) : Orderly [] after := by
  cases action with
  | submit => exact submitOutboundOp_orderly orderly careful fired
  | addPeerGroup =>
    cases fired
    exact addPeerGroup_orderly orderly
  | submitGroupWrite => exact submitGroupWrite_orderly orderly careful fired
  | handshake => exact handlePeerHandshake_orderly orderly fired
  | progress =>
    simp only [fire, progressOps, bind_eq_bind, bind_eq_some_iff] at fired
    obtain ⟨writes, -, built⟩ := fired
    cases built
    exact orderly.frame rfl rfl rfl rfl rfl rfl rfl rfl
  | cqe =>
    simp only [fire, handleCqe, bind_eq_bind, bind_eq_some_iff] at fired
    obtain ⟨⟨entry, writes⟩, -, built⟩ := fired
    cases built
    exact orderly.frame rfl rfl rfl rfl rfl rfl rfl rfl

end

end

end VerbsDomain

end PplxGarden.Fabric.Verbs
