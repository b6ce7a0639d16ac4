import PplxGarden.Proofs.VerbsDomain
import PplxGarden.Proofs.WriteOps
import PplxGarden.Library.Loop

/-! Work is posted to established peers. What a domain holds ready refers to peers that
are established, or waits for the peers it refers to. A group takes a known peer as it
is, so this needs that no known peer of a new group is still connecting. -/

namespace PplxGarden.Fabric.Verbs
open Library Provider Function Finset Option
variable {supply : Supply} {addrs : List DomainAddress} {transferId : TransferId}
  {op : ScatterGroupWriteOp} {rooms : Nat → Nat} {rmaQp : Qp}

namespace VerbsDomain

variable {υ : Type} {state after : VerbsDomain υ}

theorem established_iff {qp : Qp} : state.established qp = true ↔
    ∃ addr peer, state.peers.lookup addr = some peer ∧ peer.state = .established ∧
      (peer.msgRc.qp = qp ∨ peer.rmaRc.qp = qp) := by
  simp only [established, List.any_eq_true, Option.any_eq_true, decide_eq_true_eq]
  constructor
  · rintro ⟨addr, -, peer, found, holds⟩
    exact ⟨addr, peer, found, holds⟩
  · rintro ⟨addr, peer, found, holds⟩
    exact ⟨addr, AList.lookup_isSome.mp (by rw [found]; rfl), peer, found, holds⟩

def Grows (state after : VerbsDomain υ) : Prop := ∀ qp, state.established qp = true → after.established qp = true

theorem Grows.of_peers (same : after.peers = state.peers) : Grows state after := by
  intro qp holds
  unfold established at holds ⊢
  rw [same]
  exact holds

theorem Grows.of_insert {addr : DomainAddress} {peer : Peer υ}
    (inserted : after.peers = state.peers.insert addr peer)
    (kept : ∀ old, state.peers.lookup addr = some old → old.state = .established →
      peer.state = .established ∧ peer.msgRc.qp = old.msgRc.qp ∧ peer.rmaRc.qp = old.rmaRc.qp) :
    Grows state after := by
  intro qp holds
  obtain ⟨other, found, known, ready, uses⟩ := established_iff.mp holds
  rw [established_iff, inserted]
  by_cases same : other = addr
  · subst same
    obtain ⟨also, msg, rma⟩ := kept found known ready
    exact ⟨other, peer, AList.lookup_insert _, also, by rw [msg, rma]; exact uses⟩
  · exact ⟨other, found, by rw [AList.lookup_insert_ne same]; exact known, ready, uses⟩

structure Ready (state : VerbsDomain υ) : Prop where
  writes : Writes.Inv (LeftOn fun qp => state.established qp = true) state.writes
  sends : ∀ item ∈ state.sendOps, state.established item.2.1 = true
  groups : ∀ handle rmaQps, state.peerGroups handle = some rmaQps → ∀ qp ∈ rmaQps, state.established qp = true
  connecting : ∀ handle group, state.connectingPeerGroups.lookup handle = some group →
    ∀ qp ∈ group.rmaQps, qp ∈ group.pendingPeers ∨ state.established qp = true
  contexts : ∀ ptr context, state.objpoolPendingGroupWriteOp.read ptr = some context →
    ∀ qp ∈ context.rmaQps, qp ∈ context.pendingPeers ∨ state.established qp = true
  posts : ∀ post ∈ state.history.posts, post.2 = true
  released : ∀ write ∈ state.history.released, write.2 = true

theorem Ready.new (udAddr : υ) : Ready (VerbsDomain.new udAddr) where
  writes := Writes.inv_new
  sends _ member := by cases member
  groups _ _ found := by cases found
  connecting _ _ found := by cases found
  contexts _ _ found := by
    simp [VerbsDomain.new] at found
  posts _ member := by cases member
  released _ member := by cases member

theorem Ready.grow (ready : Ready state) (grows : Grows state after)
    (writes : after.writes = state.writes) (sendOps : after.sendOps = state.sendOps)
    (peerGroups : after.peerGroups = state.peerGroups)
    (connecting : after.connectingPeerGroups = state.connectingPeerGroups)
    (contexts : after.objpoolPendingGroupWriteOp.read = state.objpoolPendingGroupWriteOp.read)
    (posts : after.history.posts = state.history.posts)
    (released : after.history.released = state.history.released) : Ready after where
  writes := by
    rw [writes]
    exact ready.writes.mono fun left => ⟨⟨fun qp member => grows qp (left.1.1 qp member), left.1.2⟩, left.2⟩
  sends item member := grows _ (ready.sends item (sendOps ▸ member))
  groups handle rmaQps found qp member := grows qp (ready.groups handle rmaQps (peerGroups ▸ found) qp member)
  connecting handle group found qp member :=
    (ready.connecting handle group (connecting ▸ found) qp member).imp_right (grows qp)
  contexts ptr context found qp member := by
    rw [contexts] at found
    exact (ready.contexts ptr context found qp member).imp_right (grows qp)
  posts post member := ready.posts post (posts ▸ member)
  released write member := ready.released write (released ▸ member)

theorem Ready.writes_step (ready : Ready state)
    (action : Writes.Action (RdmaOp Qp) (Qp × WorkRequest))
    {writes : Writes WriteOpIter (Qp × WorkRequest)}
    (valid : action.Given fun op => ∀ qp ∈ op.dests, state.established qp = true)
    (done : state.writes.step provider action = .ok writes) :
    Writes.Inv (LeftOn fun qp => state.established qp = true) writes := by
  have safe := Writes.step_safe (lawful_on _) ready.writes valid
  rw [done] at safe
  exact safe

/-- Whatever was given to the device is for established peers. -/
theorem passed_established {writes : Writes WriteOpIter (Qp × WorkRequest)}
    (inv : Writes.Inv (LeftOn fun qp => state.established qp = true) writes) (count : Nat) :
    ∀ post ∈ (writes.passed.drop count).map fun request => (request.1, state.established request.1),
      post.2 = true := by
  intro post member
  obtain ⟨request, passed, rfl⟩ := List.mem_map.mp member
  obtain ⟨op, iter, rest, left, found⟩ := inv.passed (List.mem_of_mem_drop passed)
  exact left.dest found

theorem doSubmitWrite_ready (ready : Ready state) {op : RdmaOp Qp}
    (done : state.doSubmitWrite transferId op rooms = some after)
    (dests : ∀ qp ∈ op.dests, state.established qp = true) : Ready after := by
  simp only [doSubmitWrite, bind_eq_bind, bind_eq_some_iff] at done
  obtain ⟨writes, stepped, built⟩ := done
  cases built
  have kept := ready.writes_step (.submit transferId op _) dests (toOption_eq_some stepped)
  refine ⟨kept, ready.sends, ready.groups, ready.connecting, ready.contexts, fun post member => ?_, ready.released⟩
  rcases List.mem_append.mp member with before | new
  · exact ready.posts post before
  · exact passed_established kept _ post new

private theorem submitted_ready (ready : Ready state) (place : Place) (transferId : TransferId) (op : Operation) :
    Ready (state.submitted place transferId op) :=
  ready.grow (.of_peers rfl) rfl rfl rfl rfl rfl rfl rfl

theorem doSubmitOutboundOp_ready (ready : Ready state) {place : Place} {op : OutboundOp}
    {msgQp : Qp} (msg : state.established msgQp = true) (rma : state.established rmaQp = true)
    (done : state.doSubmitOutboundOp place transferId op msgQp rmaQp rooms = some after) :
    Ready after := by
  have noted := submitted_ready ready place transferId (.outbound op)
  cases op with
  | send op =>
    cases done
    refine ⟨noted.writes, fun item member => ?_, noted.groups, noted.connecting, noted.contexts,
      noted.posts, noted.released⟩
    rcases List.mem_append.mp member with before | new
    · exact noted.sends item before
    · rw [List.mem_singleton.mp new]
      exact msg
  | write op =>
    refine doSubmitWrite_ready noted done ?_
    intro qp member
    rw [List.mem_singleton.mp member]
    exact rma

theorem doSubmitGroupWrite_ready (ready : Ready state) {place : Place} {rmaQps : List Qp}
    (all : ∀ qp ∈ rmaQps, state.established qp = true)
    (done : state.doSubmitGroupWrite place transferId rmaQps op rooms = some after) :
    Ready after := by
  have noted := submitted_ready ready place transferId (.group op)
  refine doSubmitWrite_ready ?_ done all
  refine ⟨noted.writes, noted.sends, noted.groups, noted.connecting, noted.contexts, noted.posts, fun write member => ?_⟩
  rcases List.mem_append.mp member with before | new
  · exact noted.released write before
  · rw [List.mem_singleton.mp new]
    exact List.all_eq_true.mpr all

/-- A loop of submissions to queue pairs that are established keeps the invariant. -/
theorem Ready.fold {α : Type} {body : VerbsDomain υ → α → Option (VerbsDomain υ)} {entries : List α}
    (qps : List Qp) (done : entries.foldlM body state = some after) (ready : Ready state)
    (known : ∀ qp ∈ qps, state.established qp = true)
    (each : ∀ before entry next, body before entry = some next → next.peers = before.peers)
    (keeps : ∀ before entry next, Ready before → (∀ qp ∈ qps, before.established qp = true) →
      body before entry = some next → Ready next) : Ready after := by
  induction entries generalizing state with
  | nil =>
    cases done
    exact ready
  | cons entry rest ih =>
    rw [List.foldlM_cons, bind_eq_bind, bind_eq_some_iff] at done
    obtain ⟨next, first, later⟩ := done
    have grows := Grows.of_peers (each state entry next first)
    exact ih later (keeps state entry next ready known first) fun qp member => grows qp (known qp member)

section
variable {addr : DomainAddress} {peer : Peer υ} {rooms : Nat → Nat}

section
variable (ready : Ready state)
include ready

private theorem insertPeer_ready (new : state.peers.lookup addr = none) (peer : Peer υ) :
    Ready (state.insertPeer addr peer) := by
  refine ready.grow (.of_insert rfl ?_) rfl rfl rfl rfl rfl rfl rfl
  intro old found
  rw [new] at found
  cases found

theorem initiate_ready {addressing : Addressing υ} {pendingSubmits : List (TransferId × OutboundOp)}
    {pendingGroupWriteOps : List Nat} (new : state.peers.lookup addr = none)
    (done : state.initiate addressing addr supply pendingSubmits pendingGroupWriteOps =
      .ok (peer, after)) : Ready after := by
  obtain ⟨udAddr, -, -, rfl⟩ := initiate_ok done
  exact (insertPeer_ready ready new peer).grow (.of_peers rfl) rfl rfl rfl rfl rfl rfl rfl

private theorem initiate_error_ready {addressing : Addressing υ}
    {pendingSubmits : List (TransferId × OutboundOp)} {pendingGroupWriteOps : List Nat}
    {reason : FabricLibError} (new : state.peers.lookup addr = none)
    (failed : state.initiate addressing addr supply pendingSubmits pendingGroupWriteOps =
      .error (reason, after)) : Ready after := by
  rcases initiate_error failed with rfl | ⟨-, udAddr, -, rfl⟩
  · exact ready
  · exact insertPeer_ready ready new _

theorem connectGroup_ready {handle : PeerGroupHandle}
    (complete : ∀ group, state.connectingPeerGroups.lookup handle = some group → group.pendingPeers = ∅)
    (done : connectGroup rooms state handle = some after) : Ready after := by
  simp only [connectGroup, bind_eq_bind, bind_eq_some_iff] at done
  obtain ⟨group, found, drained⟩ := done
  have all : ∀ qp ∈ group.rmaQps, state.established qp = true := by
    intro qp member
    refine (ready.connecting handle group found qp member).resolve_left ?_
    rw [complete group found]
    exact notMem_empty qp
  refine Ready.fold group.rmaQps drained ?_ all (fun _ _ _ done => (doSubmitGroupWrite_submits done).peers)
    fun _ _ _ ready known => doSubmitGroupWrite_ready ready known
  refine ⟨ready.writes, ready.sends, ?_, ?_, ready.contexts, ready.posts, ready.released⟩
  · intro other rmaQps present qp member
    by_cases same : other = handle
    · subst same
      obtain rfl := Option.some.inj (present.symm.trans (update_self ..))
      exact all qp member
    · exact ready.groups other rmaQps ((update_of_ne same ..).symm.trans present) qp member
  · intro other found present qp member
    have known : other ≠ handle := by
      rintro rfl
      cases present.symm.trans (AList.lookup_erase ..)
    exact ready.connecting other found ((AList.lookup_erase_ne known).symm.trans present) qp member

theorem connectGroups_ready {handles : List PeerGroupHandle}
    (complete : ∀ handle ∈ handles, ∀ group, state.connectingPeerGroups.lookup handle = some group →
      group.pendingPeers = ∅) (done : handles.foldlM (connectGroup rooms) state = some after) :
    Ready after := by
  induction handles generalizing state with
  | nil =>
    cases done
    exact ready
  | cons handle rest ih =>
    rw [List.foldlM_cons, bind_eq_bind, bind_eq_some_iff] at done
    obtain ⟨middle, first, later⟩ := done
    refine ih (connectGroup_ready ready (complete handle (List.mem_cons_self ..)) first) ?_ later
    intro other member group found
    rw [(connectGroup_connects first).2.connecting] at found
    split at found
    · cases found
    · exact complete other (List.mem_cons_of_mem _ member) group found

theorem strikeContext_ready {ptr : Nat} (rma : state.established rmaQp = true)
    (done : strikeContext rmaQp rooms state ptr = some after) : Ready after := by
  simp only [strikeContext, bind_eq_bind, bind_eq_some_iff] at done
  obtain ⟨context, held, done⟩ := done
  have uses := ready.contexts ptr context held
  have struck : ∀ qp ∈ context.rmaQps, qp ∈ context.pendingPeers.erase rmaQp ∨ state.established qp = true := by
    intro qp member
    by_cases same : qp = rmaQp
    · exact .inr (same ▸ rma)
    · exact (uses qp member).imp_left fun waits => mem_erase.mpr ⟨same, waits⟩
  split at done
  next last =>
    have all : ∀ qp ∈ context.rmaQps, state.established qp = true := by
      intro qp member
      refine (struck qp member).resolve_left ?_
      rw [last.2]
      exact notMem_empty qp
    have finishes : ∃ middle, Ready middle ∧ middle.objpoolPendingGroupWriteOp = state.objpoolPendingGroupWriteOp ∧
        ((middle.objpoolPendingGroupWriteOp.free ptr).bind fun pool =>
          some { middle with objpoolPendingGroupWriteOp := pool }) = some after := by
      cases taken : context.op with
      | none =>
        rw [taken] at done
        exact ⟨state, ready, rfl, done⟩
      | some op =>
        rw [taken] at done
        simp only [bind_eq_some_iff] at done
        obtain ⟨middle, submitted, freed⟩ := done
        exact ⟨middle, doSubmitGroupWrite_ready ready all submitted, (doSubmitGroupWrite_submits submitted).contexts,
          bind_eq_some_iff.mpr freed⟩
    obtain ⟨middle, kept, pools, freed⟩ := finishes
    obtain ⟨pool, cleared, read⟩ := Pool.free_live (pools ▸ held)
    rw [cleared] at freed
    cases freed
    refine ⟨kept.writes, kept.sends, kept.groups, kept.connecting, ?_, kept.posts, kept.released⟩
    intro other found present
    have apart : other ≠ ptr := by
      rintro rfl
      rw [read, update_self] at present
      cases present
    rw [read, update_of_ne apart] at present
    exact kept.contexts other found present
  next more =>
    obtain ⟨pool, written, built⟩ := bind_eq_some_iff.mp done
    obtain ⟨expected, stored, read⟩ :=
      Pool.write_live held { context with pendingPeers := context.pendingPeers.erase rmaQp }
    have same : expected = pool := Option.some.inj (stored.symm.trans written)
    cases built
    refine ⟨ready.writes, ready.sends, ready.groups, ready.connecting, ?_, ready.posts, ready.released⟩
    intro other found present
    rw [← same, read] at present
    by_cases equal : other = ptr
    · rw [equal, update_self] at present
      cases present
      exact struck
    · rw [update_of_ne equal] at present
      exact ready.contexts other found present

private theorem strikeContexts_ready {ptrs : List Nat} (rma : state.established rmaQp = true)
    (done : ptrs.foldlM (strikeContext rmaQp rooms) state = some after) : Ready after := by
  induction ptrs generalizing state with
  | nil =>
    cases done
    exact ready
  | cons ptr rest ih =>
    rw [List.foldlM_cons, bind_eq_bind, bind_eq_some_iff] at done
    obtain ⟨middle, first, later⟩ := done
    exact ih (strikeContext_ready ready rma first) (Grows.of_peers (strikeContext_strikes first).peers _ rma) later

theorem establish_ready {info : PeerHandshakeInfo υ} {order : List PeerGroupHandle}
    (found : state.peers.lookup addr = some peer)
    (done : state.establish addr peer info order rooms = some after) : Ready after := by
  cases known : peer.state with
  | established =>
    simp only [establish, known] at done
    cases done
    exact ready
  | connecting pendingSubmits pendingGroupWriteOps =>
    simp only [establish, known, bind_eq_bind, bind_eq_some_iff] at done
    obtain ⟨second, drained, third, connected, struck⟩ := done
    have activated : Ready { state with peers := state.peers.insert addr (peer.activated info) } := by
      refine ready.grow (.of_insert rfl ?_) rfl rfl rfl rfl rfl rfl rfl
      intro old present already
      rw [found, Option.some.injEq] at present
      rw [← present, known] at already
      cases already
    have uses : ∀ qp, peer.msgRc.qp = qp ∨ peer.rmaRc.qp = qp →
        ({ state with peers := state.peers.insert addr (peer.activated info) } : VerbsDomain υ).established qp = true := by
      intro qp either
      exact established_iff.mpr ⟨addr, peer.activated info, AList.lookup_insert _, rfl, either⟩
    have msg := uses _ (.inl rfl)
    have rma := uses _ (.inr rfl)
    have submits := Submits.fold drained (fun item => (.peer addr, item.1, .outbound item.2))
      fun _ _ _ => doSubmitOutboundOp_submits
    have kept : Ready second := by
      refine Ready.fold [peer.msgRc.qp, peer.rmaRc.qp] drained activated ?_ (fun _ _ _ done =>
        (doSubmitOutboundOp_submits done).peers) ?_
      · intro qp member
        rcases List.mem_cons.mp member with rfl | single
        · exact msg
        · exact List.mem_singleton.mp single ▸ rma
      · intro before entry next ready known
        exact doSubmitOutboundOp_ready ready (known _ (List.mem_cons_self ..))
          (known _ (List.mem_cons_of_mem _ (List.mem_singleton_self _)))
    have rma : second.established peer.rmaRc.qp = true := Grows.of_peers submits.peers _ rma
    have struckReady : Ready
        { second with connectingPeerGroups := order.foldl (strike peer.rmaRc.qp) second.connectingPeerGroups } := by
      refine ⟨kept.writes, kept.sends, kept.groups, ?_, kept.contexts, kept.posts, kept.released⟩
      intro handle group present qp member
      rw [lookup_strikes] at present
      obtain ⟨old, known, rfl⟩ := map_eq_some_iff.mp present
      split at member
      next inside =>
        rw [if_pos inside]
        by_cases same : qp = peer.rmaRc.qp
        · exact .inr (same ▸ rma)
        · exact (kept.connecting handle old known qp member).imp_left fun waits => mem_erase.mpr ⟨same, waits⟩
      next outside =>
        rw [if_neg outside]
        exact kept.connecting handle old known qp member
    have connectedReady : Ready third := by
      refine connectGroups_ready struckReady ?_ connected
      intro handle member group present
      obtain ⟨inside, holds⟩ := List.mem_filter.mp member
      obtain ⟨old, known, last⟩ := (Option.any_eq_true ..).mp holds
      rw [lookup_strikes, known, map_some, if_pos inside, Option.some.injEq] at present
      rw [← present]
      exact (of_decide_eq_true last).2
    have same := connectGroups_peers connected
    exact strikeContexts_ready connectedReady (Grows.of_peers same _ rma) struck

end

end

def settled (state : VerbsDomain υ) (addr : DomainAddress) : Prop :=
  ∀ peer ∈ state.peers.lookup addr, peer.state = .established

instance (state : VerbsDomain υ) (addr : DomainAddress) : Decidable (state.settled addr) :=
  inferInstanceAs (Decidable (∀ peer ∈ state.peers.lookup addr, peer.state = .established))

/-- The steps that take no connecting peer into a new group. -/
def Settled (state : VerbsDomain υ) : Action υ → Prop
  | .addPeerGroup handle addrs _ =>
    (state.connectingPeerGroups.lookup handle).isSome ∨ (state.peerGroups handle).isSome ∨
      ∀ addr ∈ addrs, state.settled addr
  | .submitGroupWrite _ none op _ _ => ∀ addr ∈ op.peerAddrs.getD [], state.settled addr
  | _ => True

instance (state : VerbsDomain υ) (action : Action υ) : Decidable (state.Settled action) :=
  match action with
  | .addPeerGroup .. => inferInstanceAs (Decidable (_ ∨ _))
  | .submitGroupWrite _ none _ _ _ => inferInstanceAs (Decidable (∀ _ ∈ _, _))
  | .submitGroupWrite _ (some _) _ _ _ | .submit .. | .handshake .. | .progress .. | .cqe .. =>
    inferInstanceAs (Decidable True)

/-- The loop over the peers of a new group whose known peers are established. -/
structure Gathering.Sound (addrs : List DomainAddress) (gathering : Gathering υ) : Prop where
  ready : Ready gathering.domain
  uses : ∀ qp ∈ gathering.rmaQps, qp ∈ gathering.pendingPeers ∨ gathering.domain.established qp = true
  known : ∀ addr ∈ addrs, ∀ peer, gathering.domain.peers.lookup addr = some peer →
    peer.state = .established ∨ peer.rmaRc.qp ∈ gathering.pendingPeers

theorem Gathering.Sound.claim {gathering : Gathering υ} (sound : gathering.Sound addrs) (shares : Bool) :
    (gathering.claim shares).Sound addrs := by
  unfold Gathering.claim
  split
  next => exact ⟨sound.ready.grow (.of_peers rfl) rfl rfl rfl rfl Pool.read_alloc rfl rfl, sound.uses, sound.known⟩
  next => exact sound

theorem gather_sound (addressing : Addressing υ) (shares : Bool) (supply : DomainAddress → Supply)
    (ready : Ready state) (calm : ∀ addr ∈ addrs, state.settled addr) :
    (∀ gathering, state.gather addressing shares supply addrs = .ok gathering → gathering.Sound addrs) ∧
      ∀ error, state.gather addressing shares supply addrs = .error error → Ready error.2.2 := by
  refine gather_rule ?_ ?_ ?_ ?_
  · exact ⟨ready, fun _ member => (List.not_mem_nil member).elim, fun addr member peer found =>
      .inl (calm addr member peer found)⟩
  · intro gathering addr peer sound member found
    refine ⟨sound.ready, fun qp used => ?_, sound.known⟩
    rcases List.mem_append.mp used with before | new
    · exact sound.uses qp before
    · rw [List.mem_singleton.mp new]
      rcases sound.known addr member peer found with ready | waits
      · exact .inr (established_iff.mpr ⟨addr, peer, found, ready, .inr rfl⟩)
      · exact .inl waits
  · intro gathering addr reason domain sound _ absent made
    exact initiate_error_ready (sound.claim shares).ready absent made
  · intro gathering addr peer domain sound _ absent made
    have claimed := sound.claim shares
    obtain ⟨udAddr, -, -, built⟩ := initiate_ok made
    have peers : domain.peers = (gathering.claim shares).domain.peers.insert addr peer := by rw [built]; rfl
    have grows : Grows (gathering.claim shares).domain domain := by
      refine .of_insert peers fun old present => ?_
      rw [absent] at present
      cases present
    refine ⟨initiate_ready claimed.ready absent made, fun qp used => ?_, fun other listed old present => ?_⟩
    · rcases List.mem_append.mp used with before | last
      · exact (claimed.uses qp before).imp (mem_insert_of_mem ·) (grows qp)
      · exact .inl (List.mem_singleton.mp last ▸ mem_insert_self ..)
    · change domain.peers.lookup other = some old at present
      rw [peers] at present
      by_cases same : other = addr
      · subst same
        rw [AList.lookup_insert, Option.some.injEq] at present
        exact .inr (present ▸ mem_insert_self ..)
      · rw [AList.lookup_insert_ne same] at present
        exact (claimed.known other listed old present).imp_right (mem_insert_of_mem ·)

section
variable {addressing : Addressing υ} {transferId : TransferId} {rooms : Nat → Nat}

section
variable (ready : Ready state)
include ready

private theorem ask_ready (transferId : TransferId) (op : Operation) : Ready (state.ask transferId op) :=
  ready.grow (.of_peers rfl) rfl rfl rfl rfl rfl rfl rfl

theorem accept_ready (place : Place) (transferId : TransferId) (op : Operation) :
    Ready (state.accept place transferId op) :=
  ready.grow (.of_peers rfl) rfl rfl rfl rfl rfl rfl rfl

theorem refuse_ready (transferId : TransferId) (op : Operation) (error : FabricLibError) :
    Ready (state.refuse transferId op error) :=
  ready.grow (.of_peers rfl) rfl rfl rfl rfl rfl rfl rfl

theorem submitOutboundOp_ready {destAddr : DomainAddress} {op : OutboundOp}
    (done : state.submitOutboundOp addressing transferId destAddr op supply rooms = some after) : Ready after := by
  have asked := ask_ready ready transferId (.outbound op)
  cases submitOutboundOp_takes done with
  | submits found known done =>
    exact doSubmitOutboundOp_ready (accept_ready asked ..) (established_iff.mpr ⟨destAddr, _, found, known, .inl rfl⟩)
      (established_iff.mpr ⟨destAddr, _, found, known, .inr rfl⟩) done
  | queues found known =>
    refine (accept_ready asked (.peer destAddr) transferId (.outbound op)).grow
      (.of_insert rfl fun old present already => ?_) rfl rfl rfl rfl
      rfl rfl rfl
    obtain rfl := Option.some.inj (found.symm.trans present)
    rw [known] at already
    cases already
  | fails missing made => exact refuse_ready (initiate_error_ready asked missing made) ..
  | connects missing made => exact accept_ready (initiate_ready asked missing made) ..

theorem addPeerGroup_ready {handle : PeerGroupHandle} {supply : DomainAddress → Supply}
    (calm : state.Settled (.addPeerGroup handle addrs supply)) :
    Ready (state.addPeerGroup addressing handle addrs supply).2 := by
  unfold addPeerGroup
  split
  next => exact ready
  next unconnected =>
    split
    next => exact ready
    next unknown =>
      obtain ⟨goes, fails⟩ := gather_sound addressing false supply ready
        ((calm.resolve_left unconnected).resolve_left unknown)
      split
      next reason addr domain failed => exact fails _ failed
      next domain rmaQps pendingPeers ctxPtr done =>
        have sound := goes _ done
        split
        next empty =>
          refine ⟨sound.ready.writes, sound.ready.sends, ?_, sound.ready.connecting,
            sound.ready.contexts, sound.ready.posts, sound.ready.released⟩
          intro other qps present qp member
          by_cases same : other = handle
          · subst same
            obtain rfl := Option.some.inj (present.symm.trans (update_self ..))
            refine (sound.uses qp member).resolve_left ?_
            rw [show pendingPeers = ∅ from empty]
            exact notMem_empty qp
          · exact sound.ready.groups other qps ((update_of_ne same ..).symm.trans present) qp member
        next some_ =>
          refine ⟨sound.ready.writes, sound.ready.sends, sound.ready.groups, ?_,
            sound.ready.contexts, sound.ready.posts, sound.ready.released⟩
          intro other group present qp member
          by_cases same : other = handle
          · subst same
            obtain rfl := Option.some.inj (present.symm.trans (AList.lookup_insert _))
            exact sound.uses qp member
          · exact sound.ready.connecting other group ((AList.lookup_insert_ne same).symm.trans present) qp member

end

theorem park_ready {gathering : Gathering υ} (sound : gathering.Sound addrs)
    (done : park transferId op gathering = some after) : Ready after := by
  simp only [park, bind_eq_bind, bind_eq_some_iff] at done
  obtain ⟨ptr, shared, pool, written, built⟩ := done
  cases built
  have read : pool.read = update gathering.domain.objpoolPendingGroupWriteOp.read ptr
      (some ⟨transferId, some op, gathering.rmaQps, gathering.pendingPeers⟩) := Pool.read_write written
  apply accept_ready
  refine ⟨sound.ready.writes, sound.ready.sends, sound.ready.groups, sound.ready.connecting, ?_,
    sound.ready.posts, sound.ready.released⟩
  intro other context present
  rw [read] at present
  by_cases same : other = ptr
  · rw [same, update_self, Option.some.injEq] at present
    rw [← present]
    exact sound.uses
  · rw [update_of_ne same] at present
    exact sound.ready.contexts other context present

section
variable (ready : Ready state)
include ready

theorem submitGroupWrite_ready {handle : Option PeerGroupHandle}
    {supply : DomainAddress → Supply} (calm : state.Settled (.submitGroupWrite transferId handle op supply rooms))
    (done : state.submitGroupWrite addressing transferId handle op supply rooms = some after) : Ready after := by
  have asked := ask_ready ready transferId (.group op)
  have settled {addrs : List DomainAddress} (free : handle = none) (listed : op.peerAddrs = some addrs) :
      ∀ addr ∈ addrs, (state.ask transferId (.group op)).settled addr := by
    intro addr member
    subst free
    refine calm addr ?_
    rw [listed]
    exact member
  cases submitGroupWrite_takes done with
  | @queues handle group waiting =>
    have accepted := accept_ready asked (.group handle) transferId (.group op)
    refine ⟨accepted.writes, accepted.sends, accepted.groups, ?_, accepted.contexts, accepted.posts, accepted.released⟩
    intro other next present
    by_cases same : other = handle
    · subst same
      obtain rfl := Option.some.inj (present.symm.trans (AList.lookup_insert _))
      exact accepted.connecting other group waiting
    · exact accepted.connecting other next ((AList.lookup_insert_ne same).symm.trans present)
  | unknown => exact refuse_ready asked ..
  | submits connected known done => exact doSubmitGroupWrite_ready (accept_ready asked ..) (asked.groups _ _ known) done
  | fails listed gathered =>
    exact refuse_ready ((gather_sound addressing true supply asked (settled rfl listed)).2
      _ gathered) ..
  | gathers listed gathered done =>
    have sound := (gather_sound addressing true supply asked (settled rfl listed)).1 _ gathered
    split at done
    next empty =>
      refine doSubmitGroupWrite_ready (accept_ready sound.ready ..) (fun qp member => ?_) done
      refine (sound.uses qp member).resolve_left ?_
      rw [empty]
      exact notMem_empty qp
    next => exact park_ready sound done

private theorem handlePeerHandshake_ready {info : PeerHandshakeInfo υ} {order : List PeerGroupHandle}
    (done : state.handlePeerHandshake addressing info supply order rooms = some after) : Ready after := by
  obtain ⟨-, before, peer, established, ⟨found, rfl⟩ | ⟨missing, made⟩⟩ := handlePeerHandshake_establishes done
  · exact establish_ready ready found established
  · refine establish_ready (initiate_ready ready missing made) ?_ established
    obtain ⟨udAddr, -, -, rfl⟩ := initiate_ok made
    exact AList.lookup_insert _

theorem progressOps_ready {sendRoom writeRoom : Nat} (done : state.progressOps sendRoom writeRoom = some after) :
    Ready after := by
  simp only [progressOps, bind_eq_bind, bind_eq_some_iff] at done
  obtain ⟨writes, stepped, built⟩ := done
  cases built
  have kept := ready.writes_step (.progress writeRoom) trivial (toOption_eq_some stepped)
  refine ⟨kept, fun item member => ready.sends item (List.mem_of_mem_drop member), ready.groups,
    ready.connecting, ready.contexts,
    fun post member => ?_, ready.released⟩
  rcases List.mem_append.mp member with before | new
  · rcases List.mem_append.mp before with before | sent
    · exact ready.posts post before
    · obtain ⟨item, taken, rfl⟩ := List.mem_map.mp sent
      exact ready.sends item (List.mem_of_mem_take taken)
  · exact passed_established kept _ post new

private theorem handleCqe_ready {slot : Nat} {request : Qp × WorkRequest} {failure : Option FabricLibError}
    (done : state.handleCqe slot request failure = some after) : Ready after := by
  simp only [handleCqe, bind_eq_bind, bind_eq_some_iff] at done
  obtain ⟨⟨entry, writes⟩, stepped, built⟩ := done
  cases built
  have kept := ready.writes_step (.cqe slot request failure) trivial (show _ = Except.ok writes by
    rw [Writes.step, toOption_eq_some stepped]
    rfl)
  exact ⟨kept, ready.sends, ready.groups, ready.connecting, ready.contexts, ready.posts, ready.released⟩

private theorem fire_ready {action : Action υ} (calm : state.Settled action)
    (fired : fire addressing state action = some after) : Ready after := by
  cases action with
  | submit => exact submitOutboundOp_ready ready fired
  | addPeerGroup =>
    cases fired
    exact addPeerGroup_ready ready calm
  | submitGroupWrite => exact submitGroupWrite_ready ready calm fired
  | handshake => exact handlePeerHandshake_ready ready fired
  | progress => exact progressOps_ready ready fired
  | cqe => exact handleCqe_ready ready fired

end

end

end VerbsDomain

open VerbsDomain

/-- Every request given to `ibv_post_send` is for an established peer, and group
writes are released when all their peers are. -/
def PostsEstablished {υ : Type} (state : VerbsDomain υ) : Prop :=
  (∀ post ∈ state.history.posts, post.2 = true) ∧ ∀ write ∈ state.history.released, write.2 = true

instance {υ : Type} (state : VerbsDomain υ) : Decidable (PostsEstablished state) := inferInstanceAs (Decidable (_ ∧ _))

theorem posts_established {υ : Type} (addressing : Addressing υ) (udAddr : υ)
    (actions : List (Action υ)) (state : VerbsDomain υ)
    (reached : runs (restrict (fire addressing) Settled) (.new udAddr) actions = some state) :
    PostsEstablished state := by
  have ready : Ready state := by
    refine runs_invariant (Ready.new udAddr) (fun before action after ready fired => ?_) reached
    obtain ⟨calm, fired⟩ := restrict_eq_some.mp fired
    exact fire_ready ready calm fired
  exact ⟨ready.posts, ready.released⟩

/-- Addresses that are the addresses of queue pairs. -/
def plainAddressing : Addressing Nat where
  fromBytes := some
  address := id
  fromBytes_address _ := rfl
  address_fromBytes found := Option.some.inj found.symm

def scatterTo (addr : DomainAddress) : ScatterGroupWriteOp where
  domainIdx := 0
  srcPtr := 100
  srcDesc := 7
  immData := none
  dsts := [⟨⟨5000, [(addr, 9)]⟩, 16, 0, 0⟩]
  dstBeg := 0
  dstEnd := 1
  byteShards := 1
  byteShardIdx := 0

def plainSupply : Supply := ⟨70, 71, none⟩

/-- A write starts the connection to a peer; a scatter to the same peer is posted
before the peer has answered. -/
def scatterWhileConnecting : List (Action Nat) :=
  [.submit 1 5 (.write (.imm ⟨3, 5000, 9⟩)) plainSupply (fun _ => 8),
    .submitGroupWrite 2 none (scatterTo 5) (fun _ => plainSupply) (fun _ => 8)]

theorem scatter_posted_early :
    ∃ state, runs (fire plainAddressing) (.new 0) scatterWhileConnecting = some state ∧ ¬ PostsEstablished state := by
  have posted : (runs (fire plainAddressing) (.new 0) scatterWhileConnecting).any fun state =>
      !decide (PostsEstablished state) := by
    decide +kernel
  obtain ⟨state, reached, early⟩ := (Option.any_eq_true ..).mp posted
  exact ⟨state, reached, by simpa using early⟩

/-- The scatter after the handshake of the peer. -/
def scatterWhenEstablished : List (Action Nat) :=
  [.submit 1 5 (.write (.imm ⟨3, 5000, 9⟩)) plainSupply (fun _ => 8),
    .handshake ⟨5, 80, 123, 81, 456⟩ plainSupply [] (fun _ => 8),
    .submitGroupWrite 2 none (scatterTo 5) (fun _ => plainSupply) (fun _ => 8)]

theorem posts_established_scatter :
    ∃ state, runs (restrict (fire plainAddressing) Settled) (.new 0) scatterWhenEstablished =
      some state ∧
      state.history.posts = [(1, true), (1, true)] ∧ PostsEstablished state := by
  have posted : (runs (restrict (fire plainAddressing) Settled) (.new 0) scatterWhenEstablished).any fun state =>
      decide (state.history.posts = [(1, true), (1, true)]) := by decide +kernel
  obtain ⟨state, reached, posts⟩ := (Option.any_eq_true ..).mp posted
  exact ⟨state, reached, of_decide_eq_true posts, posts_established plainAddressing 0 _ state reached⟩

end PplxGarden.Fabric.Verbs
