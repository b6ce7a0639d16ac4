import PplxGarden.Proofs.Waiting

/-! How the peers of a Verbs domain come to be established. A domain announces the queue
pairs of an entry once, and only a handshake establishes a peer. -/

namespace PplxGarden.Fabric.Verbs
open Library List Option
variable {addr : DomainAddress}

namespace VerbsDomain

variable {υ : Type} {addressing : Addressing υ} {state middle after : VerbsDomain υ}

/-- Every handshake sent announces the queue pairs of an entry. -/
structure Linked (addressing : Addressing υ) (state : VerbsDomain υ) : Prop where
  entries : ∀ message ∈ state.outbox, ∃ peer, state.peers.lookup (addressing.address message.1) =
    some peer ∧ message.2 = state.handshakeInfo peer
  once : (state.outbox.map (·.1)).Nodup
  psns : ∀ addr peer, state.peers.lookup addr = some peer → peer.msgRc.psn = 123 ∧ peer.rmaRc.psn = 456

theorem Linked.new (udAddr : υ) : Linked addressing (VerbsDomain.new udAddr) where
  entries _ member := (not_mem_nil member).elim
  once := .nil
  psns _ _ found := by cases found

structure Meets (addressing : Addressing υ) (state after : VerbsDomain υ) : Prop where
  udAddr : after.udAddr = state.udAddr
  outbox : state.outbox <+: after.outbox
  settled : ∀ addr peer, after.peers.lookup addr = some peer → peer.state = .established →
    state.peers.lookup addr = some peer
  waiting : ∀ addr peer, state.peers.lookup addr = some peer → peer.state ≠ .established →
    ∃ next, after.peers.lookup addr = some next ∧
    next.state ≠ .established ∧ next.rmaRc.qp = peer.rmaRc.qp ∧ next.state.contexts = peer.state.contexts
  linked : Linked addressing after

theorem Meets.refl (linked : Linked addressing state) : Meets addressing state state :=
  ⟨rfl, prefix_rfl, fun _ _ found _ => found, fun _ peer found waits => ⟨peer, found, waits, rfl, rfl⟩, linked⟩

theorem Linked.same (linked : Linked addressing middle) (udAddr : after.udAddr = middle.udAddr)
    (outbox : after.outbox = middle.outbox) (peers : after.peers = middle.peers) :
    Linked addressing after := by
  constructor
  · rw [outbox, peers]
    intro message member
    obtain ⟨peer, found, info⟩ := linked.entries message member
    exact ⟨peer, found, by rw [info, handshakeInfo, handshakeInfo, udAddr]⟩
  · rw [outbox]
    exact linked.once
  · rw [peers]
    exact linked.psns

theorem Meets.same (meets : Meets addressing state middle) (udAddr : after.udAddr = middle.udAddr)
    (outbox : after.outbox = middle.outbox) (peers : after.peers = middle.peers) :
    Meets addressing state after where
  udAddr := udAddr.trans meets.udAddr
  outbox := outbox ▸ meets.outbox
  settled := peers ▸ meets.settled
  waiting := peers ▸ meets.waiting
  linked := meets.linked.same udAddr outbox peers

theorem Linked.replace {old peer : Peer υ} (linked : Linked addressing state)
    (found : state.peers.lookup addr = some old) (udAddr : after.udAddr = state.udAddr)
    (outbox : after.outbox = state.outbox) (peers : after.peers = state.peers.insert addr peer)
    (msg : peer.msgRc.qpNum = old.msgRc.qpNum ∧ peer.msgRc.psn = old.msgRc.psn)
    (rma : peer.rmaRc.qpNum = old.rmaRc.qpNum ∧ peer.rmaRc.psn = old.rmaRc.psn) :
    Linked addressing after := by
  have announces : after.handshakeInfo peer = state.handshakeInfo old := by
    rw [handshakeInfo, handshakeInfo, udAddr, msg.1, msg.2, rma.1, rma.2]
  constructor
  · rw [outbox, peers]
    intro message member
    obtain ⟨entry, present, info⟩ := linked.entries message member
    by_cases same : addressing.address message.1 = addr
    · rw [same, found, Option.some.injEq] at present
      exact ⟨peer, by rw [same, AList.lookup_insert], by rw [info, announces, present]⟩
    · exact ⟨entry, by rw [AList.lookup_insert_ne same, present], by rw [info, handshakeInfo, handshakeInfo, udAddr]⟩
  · rw [outbox]
    exact linked.once
  · intro other entry present
    rcases inserted peers present with ⟨rfl, rfl⟩ | ⟨-, present⟩
    · rw [msg.2, rma.2]
      exact linked.psns other old found
    · exact linked.psns other entry present

theorem Linked.enter {udAddr : υ} (supply : Supply)
    (pendingSubmits : List (TransferId × OutboundOp)) (pendingGroupWriteOps : List Nat)
    (linked : Linked addressing state) (absent : state.peers.lookup addr = none)
    (decoded : addressing.fromBytes addr = some udAddr) (sent : List (υ × PeerHandshakeInfo υ))
    (announces : sent = [] ∨ sent = [(udAddr,
      state.handshakeInfo (state.newPeer udAddr supply pendingSubmits pendingGroupWriteOps))]) :
    Linked addressing
      { state.insertPeer addr (state.newPeer udAddr supply pendingSubmits pendingGroupWriteOps) with
      outbox := state.outbox ++ sent } := by
  have self := addressing.address_fromBytes decoded
  constructor
  · intro message member
    rcases mem_append.mp member with before | last
    · obtain ⟨peer, found, info⟩ := linked.entries message before
      have other : addressing.address message.1 ≠ addr := by
        intro same
        rw [same, absent] at found
        cases found
      exact ⟨peer, (AList.lookup_insert_ne other).trans found, info⟩
    · rcases announces with rfl | rfl
      · exact (not_mem_nil last).elim
      · rw [mem_singleton.mp last, self]
        exact ⟨_, AList.lookup_insert _, rfl⟩
  · rcases announces with rfl | rfl
    · rw [append_nil]
      exact linked.once
    · rw [map_append, nodup_append']
      refine ⟨linked.once, pairwise_singleton .., ?_⟩
      intro dest before last
      rw [map_singleton, mem_singleton] at last
      obtain ⟨message, member, rfl⟩ := List.mem_map.mp before
      obtain ⟨peer, found, -⟩ := linked.entries message member
      rw [last, self, absent] at found
      cases found
  · intro other peer found
    rcases inserted rfl found with ⟨-, rfl⟩ | ⟨-, found⟩
    · exact ⟨rfl, rfl⟩
    · exact linked.psns other peer found

theorem Meets.trans (one : Meets addressing state middle) (two : Meets addressing middle after) :
    Meets addressing state after where
  udAddr := two.udAddr.trans one.udAddr
  outbox := one.outbox.trans two.outbox
  settled addr peer found ready := one.settled addr peer (two.settled addr peer found ready) ready
  waiting addr peer found waits := by
    obtain ⟨next, present, still, rma, contexts⟩ := one.waiting addr peer found waits
    obtain ⟨last, there, ends, qp, held⟩ := two.waiting addr next present still
    exact ⟨last, there, ends, qp.trans rma, held.trans contexts⟩
  linked := two.linked

theorem Meets.enter {udAddr : υ} (supply : Supply) (pendingSubmits : List (TransferId × OutboundOp))
    (pendingGroupWriteOps : List Nat) (linked : Linked addressing state)
    (absent : state.peers.lookup addr = none) (decoded : addressing.fromBytes addr = some udAddr)
    (sent : List (υ × PeerHandshakeInfo υ))
    (announces : sent = [] ∨ sent = [(udAddr,
      state.handshakeInfo (state.newPeer udAddr supply pendingSubmits pendingGroupWriteOps))]) :
    Meets addressing state
      { state.insertPeer addr (state.newPeer udAddr supply pendingSubmits pendingGroupWriteOps) with
      outbox := state.outbox ++ sent } where
  udAddr := rfl
  outbox := prefix_append ..
  settled other peer found ready := by
    rcases inserted rfl found with ⟨-, rfl⟩ | ⟨-, found⟩
    · cases ready
    · exact found
  waiting other peer found waits := by
    have apart : other ≠ addr := by
      rintro rfl
      rw [absent] at found
      cases found
    exact ⟨peer, (AList.lookup_insert_ne apart).trans found, waits, rfl, rfl⟩
  linked := linked.enter supply pendingSubmits pendingGroupWriteOps absent decoded sent announces

/-- A queue pair of a peer that is connecting and holds a context. -/
def awaits (state : VerbsDomain υ) (ptr : Option Nat) (qp : Qp) : Prop :=
  ∃ addr peer, state.peers.lookup addr = some peer ∧ peer.state ≠ .established ∧
    (∀ own ∈ ptr, own ∈ peer.state.contexts) ∧ peer.rmaRc.qp = qp

theorem Meets.awaits {ptr : Option Nat} {qp : Qp} (meets : Meets addressing state after)
    (awaited : state.awaits ptr qp) : after.awaits ptr qp := by
  obtain ⟨addr, peer, found, waits, holds, rfl⟩ := awaited
  obtain ⟨next, present, still, rma, contexts⟩ := meets.waiting addr peer found waits
  exact ⟨addr, next, present, still, by rwa [contexts], rma⟩

def Pends (state : VerbsDomain υ) (ptr : Option Nat) (qps : Finset Qp) : Prop :=
  qps ≠ ∅ ∧ ∀ qp ∈ qps, state.awaits ptr qp

structure Awaits (state : VerbsDomain υ) : Prop where
  groups : ∀ handle group, state.connectingPeerGroups.lookup handle = some group → state.Pends none group.pendingPeers
  contexts : ∀ ptr context, state.objpoolPendingGroupWriteOp.read ptr = some context →
    state.Pends (some ptr) context.pendingPeers

theorem Awaits.meets (awaits : Awaits state) (meets : Meets addressing state after)
    (groups : after.connectingPeerGroups = state.connectingPeerGroups)
    (contexts : after.objpoolPendingGroupWriteOp.read = state.objpoolPendingGroupWriteOp.read) : Awaits after := by
  constructor
  · rw [groups]
    intro handle group found
    obtain ⟨some_, all⟩ := awaits.groups handle group found
    exact ⟨some_, fun qp member => meets.awaits (all qp member)⟩
  · rw [contexts]
    intro ptr context held
    obtain ⟨some_, all⟩ := awaits.contexts ptr context held
    exact ⟨some_, fun qp member => meets.awaits (all qp member)⟩

/-- A step that establishes no peer, with what it leaves waiting. -/
structure Proceeds (addressing : Addressing υ) (state after : VerbsDomain υ) : Prop where
  meets : Meets addressing state after
  awaits : Awaits after

theorem Proceeds.refl (linked : Linked addressing state) (awaits : Awaits state) :
    Proceeds addressing state state :=
  ⟨.refl linked, awaits⟩

theorem Proceeds.trans (one : Proceeds addressing state middle)
    (two : Proceeds addressing middle after) : Proceeds addressing state after :=
  ⟨one.meets.trans two.meets, two.awaits⟩

theorem Proceeds.same (proceeds : Proceeds addressing state middle)
    (udAddr : after.udAddr = middle.udAddr) (outbox : after.outbox = middle.outbox)
    (peers : after.peers = middle.peers)
    (groups : after.connectingPeerGroups = middle.connectingPeerGroups)
    (contexts : after.objpoolPendingGroupWriteOp.read = middle.objpoolPendingGroupWriteOp.read) :
    Proceeds addressing state after := by
  have still : Meets addressing middle after := (Meets.refl proceeds.meets.linked).same udAddr outbox peers
  exact ⟨proceeds.meets.trans still, proceeds.awaits.meets still groups contexts⟩

theorem Proceeds.submits {items : List (Place × TransferId × Operation)} (proceeds : Proceeds addressing state middle)
    (done : Submits items middle after) : Proceeds addressing state after :=
  proceeds.same done.udAddr done.outbox done.peers done.connectingPeerGroups (by rw [done.contexts])

section
variable {addr : DomainAddress} {supply : Supply} {pendingSubmits : List (TransferId × OutboundOp)} {pendingGroupWriteOps : List Nat}

theorem initiate_proceeds {peer : Peer υ} (proceeds : Proceeds addressing state middle)
    (absent : middle.peers.lookup addr = none)
    (done : middle.initiate addressing addr supply pendingSubmits pendingGroupWriteOps =
      .ok (peer, after)) : Proceeds addressing state after := by
  obtain ⟨udAddr, decoded, rfl, rfl⟩ := initiate_ok done
  have meets := Meets.enter supply pendingSubmits pendingGroupWriteOps proceeds.meets.linked absent decoded _ (.inr rfl)
  exact proceeds.trans ⟨meets, proceeds.awaits.meets meets rfl rfl⟩

private theorem initiate_error_proceeds {reason : FabricLibError}
    (proceeds : Proceeds addressing state middle) (absent : middle.peers.lookup addr = none)
    (done : middle.initiate addressing addr supply pendingSubmits pendingGroupWriteOps =
      .error (reason, after)) : Proceeds addressing state after := by
  rcases initiate_error done with rfl | ⟨-, udAddr, decoded, rfl⟩
  · exact proceeds
  · have meets := Meets.enter supply pendingSubmits pendingGroupWriteOps proceeds.meets.linked absent decoded [] (.inl rfl)
    exact (proceeds.trans ⟨meets, proceeds.awaits.meets meets rfl rfl⟩).same rfl (append_nil _).symm rfl rfl rfl

end

structure Gathering.Proceeds (addressing : Addressing υ) (shares : Bool) (state : VerbsDomain υ)
    (gathering : Gathering υ) : Prop where
  proceeds : VerbsDomain.Proceeds addressing state gathering.domain
  pends : ∀ qp ∈ gathering.pendingPeers, gathering.domain.awaits gathering.ctxPtr qp
  first : shares = true → gathering.ctxPtr = none → gathering.pendingPeers = ∅

theorem Gathering.Proceeds.claim {shares : Bool} {gathering : Gathering υ}
    (proceeds : gathering.Proceeds addressing shares state) :
    (gathering.claim shares).Proceeds addressing shares state ∧
      (shares = true → (gathering.claim shares).ctxPtr ≠ none) := by
  unfold Gathering.claim
  split
  next free =>
    refine ⟨⟨?_, fun qp member => ?_, fun _ none_ => by cases none_⟩, fun _ none_ => by cases none_⟩
    · exact proceeds.proceeds.same rfl rfl rfl rfl Pool.read_alloc
    · have member : qp ∈ gathering.pendingPeers := member
      rw [proceeds.first rfl free] at member
      cases member
  next taken => exact ⟨proceeds, fun shared none_ => taken shared none_⟩

theorem gather_proceeds (shares : Bool) (supply : DomainAddress → Supply)
    (addrs : List DomainAddress) (proceeds : Proceeds addressing state middle) :
    (∀ gathering, middle.gather addressing shares supply addrs = .ok gathering →
      gathering.Proceeds addressing shares state) ∧
      ∀ error, middle.gather addressing shares supply addrs = .error error →
        Proceeds addressing state error.2.2 := by
  refine gather_rule ?_ ?_ ?_ ?_
  · exact ⟨proceeds, fun _ member => (Finset.notMem_empty _ member).elim, fun _ _ => rfl⟩
  · intro gathering addr peer gathered _ _
    exact ⟨gathered.proceeds, gathered.pends, gathered.first⟩
  · intro gathering addr reason domain gathered _ absent made
    exact initiate_error_proceeds gathered.claim.1.proceeds absent made
  · intro gathering addr peer domain gathered _ absent made
    obtain ⟨claimed, shared⟩ := gathered.claim
    have step := initiate_proceeds (.refl claimed.proceeds.meets.linked claimed.proceeds.awaits) absent made
    refine ⟨claimed.proceeds.trans step, fun qp member => ?_, fun on none_ => absurd none_ (shared on)⟩
    rcases Finset.mem_insert.mp member with rfl | member
    · obtain ⟨udAddr, -, rfl, rfl⟩ := initiate_ok made
      refine ⟨addr, _, AList.lookup_insert _, ?_, fun own held => ?_, rfl⟩
      · intro ready
        cases ready
      · exact Option.mem_toList.mpr held
    · exact step.meets.awaits (claimed.pends qp member)

section
variable {transferId : TransferId} {rooms : Nat → Nat}

theorem submitOutboundOp_proceeds (linked : Linked addressing state) (awaits : Awaits state)
    {destAddr : DomainAddress} {op : OutboundOp} {supply : Supply}
    (done : state.submitOutboundOp addressing transferId destAddr op supply rooms = some after) :
    Proceeds addressing state after := by
  have asked : Proceeds addressing state (state.ask transferId (.outbound op)) :=
    (Proceeds.refl linked awaits).same rfl rfl rfl rfl rfl
  cases submitOutboundOp_takes done with
  | submits found known done =>
    refine Proceeds.submits ?_ (doSubmitOutboundOp_submits done)
    exact asked.same rfl rfl rfl rfl rfl
  | @queues peer pendingSubmits pendingGroupWriteOps found known =>
    have meets : Meets addressing state
      { (state.ask transferId (.outbound op)).accept (.peer destAddr) transferId (.outbound op) with
        peers := state.peers.insert destAddr
          { peer with state := .connecting (pendingSubmits ++ [(transferId, op)]) pendingGroupWriteOps } } := by
      refine ⟨rfl, prefix_rfl, fun addr entry there ready => ?_, fun addr entry there waits => ?_, ?_⟩
      · rcases inserted rfl there with ⟨-, rfl⟩ | ⟨-, there⟩
        · cases ready
        · exact there
      · by_cases same : addr = destAddr
        · subst same
          cases found.symm.trans there
          exact ⟨_, AList.lookup_insert _, by simp, rfl, by rw [known]; rfl⟩
        · exact ⟨entry, (AList.lookup_insert_ne same).trans there, waits, rfl, rfl⟩
      · exact linked.replace found rfl rfl rfl ⟨rfl, rfl⟩ ⟨rfl, rfl⟩
    exact ⟨meets, awaits.meets meets rfl rfl⟩
  | fails missing made => exact (initiate_error_proceeds asked missing made).same rfl rfl rfl rfl rfl
  | connects missing made => exact (initiate_proceeds asked missing made).same rfl rfl rfl rfl rfl

theorem Proceeds.group {handle : PeerGroupHandle} {group : ConnectingPeerGroup}
    (proceeds : Proceeds addressing state middle) (pends : middle.Pends none group.pendingPeers)
    (udAddr : after.udAddr = middle.udAddr) (outbox : after.outbox = middle.outbox)
    (peers : after.peers = middle.peers)
    (groups : after.connectingPeerGroups = middle.connectingPeerGroups.insert handle group)
    (contexts : after.objpoolPendingGroupWriteOp.read = middle.objpoolPendingGroupWriteOp.read) :
    Proceeds addressing state after := by
  have still : Meets addressing middle after := (Meets.refl proceeds.meets.linked).same udAddr outbox peers
  refine ⟨proceeds.meets.trans still, fun other entry found => ?_, fun ptr context held => ?_⟩
  · rw [groups] at found
    by_cases same : other = handle
    · subst same
      rw [AList.lookup_insert, Option.some.injEq] at found
      subst found
      exact ⟨pends.1, fun qp member => still.awaits (pends.2 qp member)⟩
    · rw [AList.lookup_insert_ne same] at found
      obtain ⟨some_, all⟩ := proceeds.awaits.groups other entry found
      exact ⟨some_, fun qp member => still.awaits (all qp member)⟩
  · rw [contexts] at held
    obtain ⟨some_, all⟩ := proceeds.awaits.contexts ptr context held
    exact ⟨some_, fun qp member => still.awaits (all qp member)⟩

theorem addPeerGroup_proceeds (linked : Linked addressing state) (awaits : Awaits state) {handle : PeerGroupHandle}
    {addrs : List DomainAddress} {supply : DomainAddress → Supply} :
    Proceeds addressing state (state.addPeerGroup addressing handle addrs supply).2 := by
  unfold addPeerGroup
  split
  next => exact .refl linked awaits
  next =>
    split
    next => exact .refl linked awaits
    next =>
      obtain ⟨gathers, fails⟩ := gather_proceeds false supply addrs (.refl linked awaits)
      cases gathered : state.gather addressing false supply addrs with
      | error failure => exact fails failure gathered
      | ok gathering =>
        have proceeds := gathers gathering gathered
        simp only
        split
        next => exact proceeds.proceeds.same rfl rfl rfl rfl rfl
        next waits =>
          refine proceeds.proceeds.group ⟨waits, fun qp member => ?_⟩ rfl rfl rfl rfl rfl
          obtain ⟨addr, peer, found, still, -, rma⟩ := proceeds.pends qp member
          exact ⟨addr, peer, found, still, fun _ own => (not_mem_none _ own).elim, rma⟩

theorem park_proceeds {op : ScatterGroupWriteOp} {gathering : Gathering υ}
    (proceeds : gathering.Proceeds addressing true state) (waits : gathering.pendingPeers ≠ ∅)
    (done : park transferId op gathering = some after) : Proceeds addressing state after := by
  simp only [park, bind_eq_bind, bind_eq_some_iff] at done
  obtain ⟨ptr, own, pool, written, built⟩ := done
  cases built
  have read := Pool.read_write written
  have still : Meets addressing gathering.domain
      ({ gathering.domain with objpoolPendingGroupWriteOp := pool }.accept (.context ptr) transferId (.group op)) :=
    (Meets.refl proceeds.proceeds.meets.linked).same rfl rfl rfl
  refine ⟨proceeds.proceeds.meets.trans still, fun handle group found => ?_, fun slot context held => ?_⟩
  · obtain ⟨some_, all⟩ := proceeds.proceeds.awaits.groups handle group found
    exact ⟨some_, fun qp member => still.awaits (all qp member)⟩
  · rw [VerbsDomain.accept, read] at held
    by_cases same : slot = ptr
    · subst same
      rw [Function.update_self, Option.some.injEq] at held
      subst held
      refine ⟨waits, fun qp member => still.awaits ?_⟩
      rw [← own]
      exact proceeds.pends qp member
    · rw [Function.update_of_ne same] at held
      obtain ⟨some_, all⟩ := proceeds.proceeds.awaits.contexts slot context held
      exact ⟨some_, fun qp member => still.awaits (all qp member)⟩

theorem submitGroupWrite_proceeds (linked : Linked addressing state) (awaits : Awaits state)
    {handle : Option PeerGroupHandle} {op : ScatterGroupWriteOp} {supply : DomainAddress → Supply}
    (done : state.submitGroupWrite addressing transferId handle op supply rooms = some after) :
    Proceeds addressing state after := by
  have asked : Proceeds addressing state (state.ask transferId (.group op)) :=
    (Proceeds.refl linked awaits).same rfl rfl rfl rfl rfl
  cases submitGroupWrite_takes done with
  | @queues handle group waiting =>
    refine asked.group ?_ rfl rfl rfl rfl rfl
    exact asked.awaits.groups handle group waiting
  | unknown => exact asked.same rfl rfl rfl rfl rfl
  | submits connected known done =>
    refine Proceeds.submits ?_ (doSubmitGroupWrite_submits done)
    exact asked.same rfl rfl rfl rfl rfl
  | fails listed gathered => exact ((gather_proceeds true supply _ asked).2 _ gathered).same rfl rfl rfl rfl rfl
  | gathers listed gathered done =>
    have proceeds := (gather_proceeds true supply _ asked).1 _ gathered
    split at done
    next =>
      refine Proceeds.submits ?_ (doSubmitGroupWrite_submits done)
      exact proceeds.proceeds.same rfl rfl rfl rfl rfl
    next waits => exact park_proceeds proceeds waits done

theorem call_proceeds (linked : Linked addressing state) (awaits : Awaits state) {action : Action υ}
    (local_ : ∀ info supply order rooms, action ≠ .handshake info supply order rooms)
    (fired : fire addressing state action = some after) : Proceeds addressing state after := by
  cases action with
  | submit => exact submitOutboundOp_proceeds linked awaits fired
  | addPeerGroup =>
    cases fired
    exact addPeerGroup_proceeds linked awaits
  | submitGroupWrite => exact submitGroupWrite_proceeds linked awaits fired
  | handshake info supply order rooms => exact absurd rfl (local_ info supply order rooms)
  | progress =>
    simp only [fire, progressOps, bind_eq_bind, bind_eq_some_iff] at fired
    obtain ⟨writes, -, built⟩ := fired
    cases built
    exact (Proceeds.refl linked awaits).same rfl rfl rfl rfl rfl
  | cqe =>
    simp only [fire, handleCqe, bind_eq_bind, bind_eq_some_iff] at fired
    obtain ⟨⟨entry, writes⟩, -, built⟩ := fired
    cases built
    exact (Proceeds.refl linked awaits).same rfl rfl rfl rfl rfl

end

section
variable {addr : DomainAddress} {peer : Peer υ} {info : PeerHandshakeInfo υ}

theorem Pends.establish {ptr : Option Nat} {qps : Finset Qp} (pends : state.Pends ptr qps)
    (found : state.peers.lookup addr = some peer) (peers : after.peers = state.peers.insert addr (peer.activated info))
    (more : ¬ (peer.rmaRc.qp ∈ qps ∧ qps.erase peer.rmaRc.qp = ∅)) : after.Pends ptr (qps.erase peer.rmaRc.qp) := by
  refine ⟨fun empty => ?_, fun qp member => ?_⟩
  · by_cases listed : peer.rmaRc.qp ∈ qps
    · exact more ⟨listed, empty⟩
    · rw [Finset.erase_eq_of_notMem listed] at empty
      exact pends.1 empty
  · obtain ⟨apart, member⟩ := Finset.mem_erase.mp member
    obtain ⟨other, entry, present, waits, holds, rfl⟩ := pends.2 qp member
    have different : other ≠ addr := by
      rintro rfl
      cases found.symm.trans present
      exact apart rfl
    exact ⟨other, entry, by rw [peers, AList.lookup_insert_ne different, present], waits, holds, rfl⟩

theorem Awaits.establish (awaits : Awaits state) (pointers : Pointers state.awaited state)
    (found : state.peers.lookup addr = some peer) (done : Establishes addr peer info state after) :
    Awaits after := by
  constructor
  · intro handle group present
    rw [done.connecting] at present
    obtain ⟨earlier, known, kept⟩ := bind_eq_some_iff.mp present
    split at kept
    next => cases kept
    next more =>
      cases kept
      exact (awaits.groups handle earlier known).establish found done.peers more
  · intro ptr context held
    rw [done.contexts] at held
    split at held
    next =>
      obtain ⟨earlier, known, kept⟩ := bind_eq_some_iff.mp held
      split at kept
      next => cases kept
      next more =>
        cases kept
        exact (awaits.contexts ptr earlier known).establish found done.peers more
    next foreign =>
      have pends := awaits.contexts ptr context held
      have unlisted : peer.rmaRc.qp ∉ context.pendingPeers := by
        intro listed
        obtain ⟨other, entry, present, -, holds, same⟩ := pends.2 _ listed
        cases pointers.distinct other addr entry peer present found same
        cases found.symm.trans present
        exact foreign (holds ptr rfl)
      have after := pends.establish found done.peers fun last => unlisted last.1
      rwa [Finset.erase_eq_of_notMem unlisted] at after

/-- What a handshake changes: only the peer it is from is established. -/
structure Receives (addressing : Addressing υ) (info : PeerHandshakeInfo υ) (state after : VerbsDomain υ) : Prop where
  udAddr : after.udAddr = state.udAddr
  outbox : state.outbox <+: after.outbox
  accepted : after.history.accepted = state.history.accepted
  settled : ∀ addr peer, after.peers.lookup addr = some peer → peer.state = .established →
    state.peers.lookup addr = some peer ∨ addr = addressing.address info.udAddr ∧ ∃ old : Peer υ, peer = old.activated info
  linked : Linked addressing after
  awaits : Awaits after

theorem establish_receives (proceeds : Proceeds addressing state middle)
    (accepted : middle.history.accepted = state.history.accepted)
    (pointers : Pointers middle.awaited middle) {order : List PeerGroupHandle} {rooms : Nat → Nat}
    (walks : order.Perm middle.connectingPeerGroups.keys)
    (found : middle.peers.lookup (addressing.address info.udAddr) = some peer)
    (done : middle.establish (addressing.address info.udAddr) peer info order rooms = some after) :
    Receives addressing info state after := by
  by_cases ready : peer.state = .established
  · rw [VerbsDomain.establish, ready] at done
    cases done
    exact ⟨proceeds.meets.udAddr, proceeds.meets.outbox, accepted, fun addr peer there ready =>
      .inl (proceeds.meets.settled addr peer there ready),
      proceeds.meets.linked, proceeds.awaits⟩
  · have done := establish_establishes walks ready (pointers.single _ _ found) done
    refine ⟨done.udAddr.trans proceeds.meets.udAddr, done.outbox ▸ proceeds.meets.outbox,
      done.accepted.trans accepted, fun addr entry there ready => ?_,
      ?_, proceeds.awaits.establish pointers found done⟩
    · rcases inserted done.peers there with ⟨same, rfl⟩ | ⟨-, there⟩
      · exact .inr ⟨same, peer, rfl⟩
      · exact .inl (proceeds.meets.settled addr entry there ready)
    · exact proceeds.meets.linked.replace found done.udAddr done.outbox done.peers ⟨rfl, rfl⟩ ⟨rfl, rfl⟩

theorem handlePeerHandshake_receives (linked : Linked addressing state) (awaits : Awaits state)
    (orderly : Orderly [] state) {supply : Supply} {order : List PeerGroupHandle}
    {rooms : Nat → Nat}
    (done : state.handlePeerHandshake addressing info supply order rooms = some after) :
    Receives addressing info state after := by
  obtain ⟨walks, before, peer, established, ⟨found, rfl⟩ | ⟨missing, made⟩⟩ := handlePeerHandshake_establishes done
  · exact establish_receives (.refl linked awaits) rfl orderly.pointers walks found established
  · have proceeds := initiate_proceeds (.refl linked awaits) missing made
    obtain ⟨udAddr, -, rfl, rfl⟩ := initiate_ok made
    refine establish_receives proceeds rfl ?_ walks (AList.lookup_insert _) established
    refine orderly.pointers.insert rfl rfl rfl (fun _ member => ?_) ?_
    · exact (not_mem_nil member).elim
    · exact .nil

end

end VerbsDomain

end PplxGarden.Fabric.Verbs
