import PplxGarden.Fabric.Addresses
import PplxGarden.Proofs.Connections
import PplxGarden.Proofs.Established

/-! Handshakes connect pairs of queue pairs: an established peer was told of a queue pair
that was made for it. -/

namespace PplxGarden.Fabric.Verbs
open Library VerbsDomain

/-- A queue pair was told to send to another one, and uses the sequence number that it
has announced. -/
def Aims (own other : RCQueuePair) : Prop :=
  ∃ remote, own.remote = some remote ∧ remote.destQpNum = other.qpNum ∧ remote.rqPsn = other.psn ∧ remote.sqPsn = own.psn

/-- The number that one side sends with is the number that the other side expects. -/
def InStep (own other : RCQueuePair) : Prop :=
  ∀ remote back, own.remote = some remote → other.remote = some back → remote.sqPsn = back.rqPsn

theorem Aims.inStep {own other : RCQueuePair} (there : Aims own other) (back : Aims other own) : InStep own other := by
  intro remote answer told heard
  obtain ⟨known, same, -, -, sends⟩ := there
  obtain ⟨expected, also, -, expects, -⟩ := back
  cases told.symm.trans same
  cases heard.symm.trans also
  rw [sends, expects]

def VerbsDomain.waitsFor {υ : Type} (state : VerbsDomain υ) : Place → Finset Qp
  | .peer addr =>
    match state.peers.lookup addr with
    | some peer => {peer.rmaRc.qp}
    | none => ∅
  | .group handle =>
    match state.connectingPeerGroups.lookup handle with
    | some group => group.pendingPeers
    | none => ∅
  | .context ptr => state.awaited ptr
  | .nowhere => ∅

/-- When a peer is established, what waited for it is submitted, in order. -/
def Drains {υ : Type} (before after : VerbsDomain υ) : Prop :=
  ∀ addr old new, before.peers.lookup addr = some old → old.state ≠ .established →
    after.peers.lookup addr = some new → new.state = .established →
    placed (.peer addr) after.history.submitted = placed (.peer addr) before.history.submitted ++
      before.pending (.peer addr)

theorem VerbsDomain.Receives.drains {υ : Type} {addressing : Addressing υ}
    {info : PeerHandshakeInfo υ} {state after : VerbsDomain υ}
    (receives : Receives addressing info state after) (before : Orderly [] state)
    (orderly : Orderly [] after) : Drains state after := by
  intro addr old new found waits present ready
  have places := orderly.ledger.places (.peer addr)
  have empty : after.pending (.peer addr) = [] := by
    simp [pending, present, ready, PeerState.submits]
  rw [receives.accepted, before.ledger.places, empty, List.append_nil] at places
  exact places.symm

theorem VerbsDomain.Awaits.waits {υ : Type} {state : VerbsDomain υ} (awaits : Awaits state)
    {place : Place} (some_ : state.pending place ≠ []) :
    ∃ addr peer, state.peers.lookup addr = some peer ∧ peer.state ≠ .established ∧
      peer.rmaRc.qp ∈ state.waitsFor place := by
  have among : ∀ {ptr : Option Nat} {qps : Finset Qp}, state.Pends ptr qps →
      ∃ addr peer, state.peers.lookup addr = some peer ∧ peer.state ≠ .established ∧ peer.rmaRc.qp ∈ qps := by
    intro ptr qps pends
    obtain ⟨qp, member⟩ := Finset.nonempty_iff_ne_empty.mpr pends.1
    obtain ⟨addr, peer, found, waits, -, rfl⟩ := pends.2 qp member
    exact ⟨addr, peer, found, waits, member⟩
  cases place with
  | peer addr =>
    cases found : state.peers.lookup addr with
    | none => simp [pending, found] at some_
    | some peer =>
      refine ⟨addr, peer, found, fun ready => some_ ?_, ?_⟩
      · simp [pending, found, ready, PeerState.submits]
      · simp [waitsFor, found]
  | group handle =>
    cases found : state.connectingPeerGroups.lookup handle with
    | none => simp [pending, found] at some_
    | some group =>
      simp only [waitsFor, found]
      exact among (awaits.groups handle group found)
  | context ptr =>
    cases held : state.objpoolPendingGroupWriteOp.read ptr with
    | none => simp [pending, held] at some_
    | some context =>
      simp only [waitsFor, awaited, held]
      exact among (awaits.contexts ptr context held)
  | nowhere => exact absurd rfl some_

structure Paired {ι υ : Type} (addressing : Addressing υ) (network : Network ι υ) : Prop where
  once : ∀ i, ((network.domains i).outbox.map (·.1)).Nodup
  agree : ∀ i addr peer, (network.domains i).peers.lookup addr = some peer → peer.state = .established →
    ∃ j other, addr = addressing.address (network.domains j).udAddr ∧
      (network.domains j).peers.lookup (addressing.address (network.domains i).udAddr) = some other ∧
      Aims peer.msgRc other.msgRc ∧ Aims peer.rmaRc other.rmaRc ∧
      (other.state = .established → InStep peer.msgRc other.msgRc ∧ InStep peer.rmaRc other.rmaRc)
  queued : ∀ i place, placed place (network.domains i).history.accepted =
    placed place (network.domains i).history.submitted ++ (network.domains i).pending place
  waits : ∀ i place, (network.domains i).pending place ≠ [] →
    ∃ addr peer, (network.domains i).peers.lookup addr = some peer ∧
    peer.state ≠ .established ∧ peer.rmaRc.qp ∈ (network.domains i).waitsFor place

namespace Network

variable {ι υ : Type} {addressing : Addressing υ} {addrs : ι → υ} {network : Network ι υ}
variable {i : ι}

/-- No resource fails, and the targets of a group write are addresses of queue pairs. -/
def Action.Reliable (addressing : Addressing υ) : Action ι υ → Prop
  | .call _ (.submit _ _ _ supply _) => supply.failure = none
  | .call _ (.addPeerGroup _ addrs supply) => ∀ addr ∈ addrs, (supply addr).failure = none
  | .call _ (.submitGroupWrite _ none op supply _) => ∀ addr ∈ op.peerAddrs.getD [], Succeeds addressing (supply addr) addr
  | .call _ _ => True
  | .deliver _ _ supply _ _ => supply.failure = none

instance (action : Action ι υ) : Decidable (action.Reliable addressing) := by
  unfold Action.Reliable
  split <;> infer_instance

theorem Action.Reliable.careful {action : VerbsDomain.Action υ} (reliable : (Action.call i action).Reliable addressing)
    (state : VerbsDomain υ) : state.Careful addressing action := by
  cases action with
  | submit _ destAddr _ supply _ =>
    have works : supply.failure = none := reliable
    cases decoded : addressing.fromBytes destAddr with
    | none => exact .inr (.inl (.inl (by rw [decoded]; rfl)))
    | some udAddr => exact .inr (.inr ⟨by rw [decoded]; rfl, works⟩)
  | submitGroupWrite _ handle op supply _ =>
    cases handle with
    | none => exact .inr fun addr member _ => reliable addr member
    | some handle => trivial
  | _ => trivial

structure Meshed (addressing : Addressing υ) (addrs : ι → υ) (network : Network ι υ) : Prop where
  udAddrs : ∀ i, (network.domains i).udAddr = addrs i
  linked : ∀ i, Linked addressing (network.domains i)
  awaits : ∀ i, Awaits (network.domains i)
  orderly : ∀ i, Orderly [] (network.domains i)
  wire : ∀ message ∈ network.wire, ∃ j, message ∈ (network.domains j).outbox
  remotes : ∀ i addr peer, (network.domains i).peers.lookup addr = some peer → peer.state = .established →
    ∃ j old info, (addrs i, info) ∈ (network.domains j).outbox ∧
      addr = addressing.address (addrs j) ∧ peer = Peer.activated info old

theorem Meshed.new (addressing : Addressing υ) (addrs : ι → υ) : Meshed addressing addrs (Network.new addrs) where
  udAddrs _ := rfl
  linked i := .new (addrs i)
  awaits i := {
    groups _ _ found := by cases found
    contexts _ _ held := by cases held }
  orderly i := .new (addrs i)
  wire _ member := (List.not_mem_nil member).elim
  remotes _ _ _ found := by cases found

private theorem address_injective (addressing : Addressing υ) : Function.Injective addressing.address := by
  intro one two same
  have decoded := addressing.fromBytes_address one
  rw [same, addressing.fromBytes_address, Option.some.injEq] at decoded
  exact decoded.symm

theorem Meshed.paired (meshed : Meshed addressing addrs network)
    (distinct : Function.Injective addrs) : Paired addressing network := by
  have aims : ∀ i addr peer, (network.domains i).peers.lookup addr = some peer → peer.state = .established →
      ∃ j other, addr = addressing.address (addrs j) ∧
        (network.domains j).peers.lookup (addressing.address (addrs i)) = some other ∧
        Aims peer.msgRc other.msgRc ∧ Aims peer.rmaRc other.rmaRc := by
    intro i addr peer found ready
    obtain ⟨j, old, info, sent, rfl, told⟩ := meshed.remotes i addr peer found ready
    obtain ⟨other, present, announces⟩ := (meshed.linked j).entries _ sent
    obtain ⟨msgPsn, rmaPsn⟩ := (meshed.linked i).psns _ peer found
    obtain ⟨msgOther, rmaOther⟩ := (meshed.linked j).psns _ other present
    cases announces
    refine ⟨j, other, rfl, present, ⟨_, by rw [told]; rfl, rfl, rfl, ?_⟩, ⟨_, by rw [told]; rfl, rfl, rfl, ?_⟩⟩
    · rw [msgPsn, ← msgOther]
    · rw [rmaPsn, ← rmaOther]
  refine ⟨fun i => (meshed.linked i).once, fun i addr peer found ready => ?_, fun i => (meshed.orderly i).ledger.places,
    fun i place => (meshed.awaits i).waits⟩
  obtain ⟨j, other, rfl, present, msg, rma⟩ := aims i addr peer found ready
  refine ⟨j, other, by rw [meshed.udAddrs], by rw [meshed.udAddrs, present], msg, rma, fun also => ?_⟩
  obtain ⟨k, back, same, there, msgBack, rmaBack⟩ := aims j _ other present also
  cases distinct (address_injective addressing same)
  cases found.symm.trans there
  exact ⟨msg.inStep msgBack, rma.inStep rmaBack⟩

variable [DecidableEq ι]

theorem Meshed.update (meshed : Meshed addressing addrs network) {after : VerbsDomain υ}
    {wire : List (υ × PeerHandshakeInfo υ)} (udAddr : after.udAddr = (network.domains i).udAddr)
    (outbox : (network.domains i).outbox <+: after.outbox) (linked : Linked addressing after)
    (awaits : Awaits after) (orderly : Orderly [] after)
    (carried : ∀ message ∈ wire, message ∈ network.wire ∨ message ∈ after.outbox)
    (settled : ∀ addr peer, after.peers.lookup addr = some peer → peer.state = .established →
      (network.domains i).peers.lookup addr = some peer ∨
      ∃ j old info, (addrs i, info) ∈ (network.domains j).outbox ∧
      addr = addressing.address (addrs j) ∧ peer = Peer.activated info old) :
    Meshed addressing addrs { domains := Function.update network.domains i after, wire } := by
  have grows : ∀ j message, message ∈ (network.domains j).outbox →
      message ∈ (Function.update network.domains i after j).outbox :=
    (Function.forall_update_iff network.domains fun j domain => ∀ message,
      message ∈ (network.domains j).outbox → message ∈ domain.outbox).mpr
      ⟨fun _ member => outbox.subset member, fun _ _ _ member => member⟩
  have told : ∀ j addr peer, (Function.update network.domains i after j).peers.lookup addr =
    some peer → peer.state = .established →
      ∃ k old info, (addrs j, info) ∈ (network.domains k).outbox ∧
        addr = addressing.address (addrs k) ∧ peer = Peer.activated info old := by
    refine (Function.forall_update_iff network.domains fun j domain => ∀ addr peer,
      domain.peers.lookup addr = some peer → peer.state = .established →
      ∃ k old info, (addrs j, info) ∈ (network.domains k).outbox ∧
        addr = addressing.address (addrs k) ∧ peer = Peer.activated info old).mpr
      ⟨fun addr peer found ready => ?_, fun j _ => meshed.remotes j⟩
    rcases settled addr peer found ready with before | new
    · exact meshed.remotes i addr peer before ready
    · exact new
  refine ⟨(Function.forall_update_iff network.domains fun j domain => domain.udAddr = addrs j).mpr
    ⟨udAddr.trans (meshed.udAddrs i), fun j _ => meshed.udAddrs j⟩,
    (Function.forall_update_iff network.domains fun _ => Linked addressing).mpr ⟨linked, fun j _ => meshed.linked j⟩,
    (Function.forall_update_iff network.domains fun _ => Awaits).mpr ⟨awaits, fun j _ => meshed.awaits j⟩,
    (Function.forall_update_iff network.domains fun _ => Orderly []).mpr ⟨orderly, fun j _ =>
      meshed.orderly j⟩, fun message member => ?_,
    fun j addr peer found ready => ?_⟩
  · rcases carried message member with before | new
    · obtain ⟨j, sent⟩ := meshed.wire message before
      exact ⟨j, grows j message sent⟩
    · refine ⟨i, ?_⟩
      simp only [Function.update_self]
      exact new
  · obtain ⟨k, old, info, sent, rest⟩ := told j addr peer found ready
    exact ⟨k, old, info, grows k _ sent, rest⟩

private theorem drains_update {after : VerbsDomain υ} {wire : List (υ × PeerHandshakeInfo υ)}
    (drains : Drains (network.domains i) after) :
    ∀ j, Drains (network.domains j)
      (({ domains := Function.update network.domains i after, wire } : Network ι υ).domains j) := by
  refine (Function.forall_update_iff network.domains fun j domain =>
    Drains (network.domains j) domain).mpr ⟨drains, fun j _ => ?_⟩
  intro addr old new before waits present ready
  cases before.symm.trans present
  exact absurd ready waits

theorem Meshed.fire [DecidableEq υ] {next : Network ι υ} {action : Action ι υ}
    (meshed : Meshed addressing addrs network) (reliable : action.Reliable addressing)
    (fired : network.fire addressing action = some next) :
    Meshed addressing addrs next ∧ ∀ i, Drains (network.domains i) (next.domains i) := by
  cases action with
  | call i action =>
    have away : ∀ info supply order rooms, action ≠ .handshake info supply order rooms := by
      rintro info supply order rooms rfl
      cases fired
    have stepped : network.step addressing i action network.wire = some next := by
      cases action with
      | handshake info supply order rooms => cases fired
      | _ => exact fired
    simp only [step, Option.bind_eq_bind, Option.bind_eq_some_iff] at stepped
    obtain ⟨after, called, built⟩ := stepped
    cases built
    have proceeds := call_proceeds (meshed.linked i) (meshed.awaits i) away called
    have orderly := fire_orderly (meshed.orderly i) (reliable.careful _) called
    refine ⟨meshed.update proceeds.meets.udAddr proceeds.meets.outbox proceeds.meets.linked
      proceeds.awaits orderly (fun message member => ?_)
      fun addr peer found ready => .inl (proceeds.meets.settled addr peer found ready), drains_update ?_⟩
    · exact (List.mem_append.mp member).imp_right List.mem_of_mem_drop
    · intro addr old new before waits present ready
      cases before.symm.trans (proceeds.meets.settled addr new present ready)
      exact absurd ready waits
  | deliver index i supply order rooms =>
    unfold Network.fire at fired
    simp only at fired
    split at fired
    next => cases fired
    next dest info carried =>
      split at fired
      next arrives =>
        simp only [step, Option.bind_eq_bind, Option.bind_eq_some_iff] at fired
        obtain ⟨after, received, built⟩ := fired
        cases built
        have receives := handlePeerHandshake_receives (meshed.linked i) (meshed.awaits i) (meshed.orderly i) received
        have orderly := handlePeerHandshake_orderly (meshed.orderly i) received
        obtain ⟨j, sent⟩ := meshed.wire (dest, info) (List.mem_of_getElem? carried)
        obtain ⟨entry, -, announces⟩ := (meshed.linked j).entries _ sent
        have sender : info.udAddr = addrs j := by
          rw [← meshed.udAddrs j]
          exact congrArg PeerHandshakeInfo.udAddr announces
        refine ⟨meshed.update receives.udAddr receives.outbox receives.linked receives.awaits
          orderly (fun message member => ?_)
          fun addr peer found ready => ?_, drains_update (receives.drains (meshed.orderly i) orderly)⟩
        · exact (List.mem_append.mp member).imp List.mem_of_mem_eraseIdx List.mem_of_mem_drop
        · rcases receives.settled addr peer found ready with before | ⟨same, old, told⟩
          · exact .inl before
          · refine .inr ⟨j, old, info, ?_, by rw [same, sender], told⟩
            rw [← meshed.udAddrs i, ← arrives]
            exact sent
      next => cases fired

end Network

def sideAddr (side : Bool) : VerbsUDAddress := ⟨⟨.replicate 16 0⟩, if side then 1 else 0, 17, 4660⟩

/-- The domains write to each other, and their handshakes cross. -/
def crossing : List (Network.Action Bool VerbsUDAddress) :=
  [.call false (.submit 1 (VerbsUDAddress.addressing.address (sideAddr true))
    (.write (.imm ⟨3, 5000, 9⟩)) ⟨70, 71, none⟩ fun _ => 8),
    .call true (.submit 2 (VerbsUDAddress.addressing.address (sideAddr false))
      (.write (.imm ⟨4, 6000, 9⟩)) ⟨80, 81, none⟩ fun _ => 8),
    .deliver 1 false plainSupply [] fun _ => 8, .deliver 0 true plainSupply [] fun _ => 8]

end PplxGarden.Fabric.Verbs
