import PplxGarden.Proofs.Books
import PplxGarden.Proofs.Established
import PplxGarden.Proofs.Waiting

/-! The books that a Verbs domain keeps. A context is made for every write that is
submitted, and a write that waits for a peer is submitted at most once, also when its call
was refused. -/

namespace PplxGarden.Fabric.Verbs
open Library Provider Option

def Operation.body : Operation → Option (WriteOp ⊕ ScatterGroupWriteOp)
  | .outbound (.send _) => none
  | .outbound (.write op) => some (.inl op)
  | .group op => some (.inr op)

def writesOf (calls : List (TransferId × Operation)) (id : TransferId) : List (WriteOp ⊕ ScatterGroupWriteOp) :=
  calls.filterMap fun call => if call.1 = id then call.2.body else none

theorem writesOf_append (first second : List (TransferId × Operation)) (id : TransferId) :
    writesOf (first ++ second) id = writesOf first id ++ writesOf second id := List.filterMap_append

private theorem writesOf_subperm {calls more : List (TransferId × Operation)}
    (contained : calls.Subperm more) (id : TransferId) :
    (writesOf calls id).Subperm (writesOf more id) := by
  obtain ⟨list, perm, sub⟩ := contained
  exact ⟨_, perm.filterMap _, sub.filterMap _⟩

namespace VerbsDomain

variable {υ : Type} {state middle after : VerbsDomain υ} {rooms : Nat → Nat} {addr : DomainAddress}
  {peer : Peer υ} {transferId : TransferId} {info : PeerHandshakeInfo υ} {order : List PeerGroupHandle}
  {operation : Operation}

/-- What does not depend on the connections, and is kept by every submission. -/
structure Steady (holds : VerbsDomain υ → Prop) : Prop where
  frame : ∀ {state after}, holds state → after.writes = state.writes →
    after.completions = state.completions → after.history = state.history →
    holds after
  outbound : ∀ {state after place transferId op msgQp rmaQp rooms},
    state.doSubmitOutboundOp place transferId op msgQp rmaQp rooms = some after → holds state → holds after
  group : ∀ {state after place transferId rmaQps op rooms},
    state.doSubmitGroupWrite place transferId rmaQps op rooms = some after → holds state → holds after

section
variable {holds : VerbsDomain υ → Prop} (steady : Steady holds)
include steady

theorem Steady.connectGroup {handle : PeerGroupHandle} (start : holds state)
    (done : VerbsDomain.connectGroup rooms state handle = some after) : holds after := by
  simp only [VerbsDomain.connectGroup, bind_eq_bind, bind_eq_some_iff] at done
  obtain ⟨group, -, drained⟩ := done
  refine runs_invariant ?_ (fun _ _ _ before submitted => steady.group submitted before) drained
  exact steady.frame start rfl rfl rfl

theorem Steady.strikeContext {rmaQp : Qp} {ptr : Nat} (start : holds state)
    (done : VerbsDomain.strikeContext rmaQp rooms state ptr = some after) : holds after := by
  simp only [VerbsDomain.strikeContext, bind_eq_bind, bind_eq_some_iff] at done
  obtain ⟨context, -, done⟩ := done
  split at done
  next =>
    cases taken : context.op with
    | none =>
      rw [taken] at done
      simp only [bind_some, bind_eq_some_iff] at done
      obtain ⟨pool, -, built⟩ := done
      cases built
      exact steady.frame start rfl rfl rfl
    | some op =>
      rw [taken] at done
      simp only [bind_eq_some_iff] at done
      obtain ⟨middle, submitted, pool, -, built⟩ := done
      cases built
      exact steady.frame (steady.group submitted start) rfl rfl rfl
  next =>
    obtain ⟨pool, -, built⟩ := bind_eq_some_iff.mp done
    cases built
    exact steady.frame start rfl rfl rfl

theorem Steady.establish
    (start : holds state) (done : state.establish addr peer info order rooms = some after) : holds after := by
  unfold VerbsDomain.establish at done
  split at done
  next =>
    cases done
    exact start
  next =>
    simp only [bind_eq_bind, bind_eq_some_iff] at done
    obtain ⟨second, drained, third, connected, struck⟩ := done
    have one : holds second := by
      refine runs_invariant ?_ (fun _ _ _ before submitted => steady.outbound submitted before) drained
      exact steady.frame start rfl rfl rfl
    have two : holds third := by
      refine runs_invariant ?_ (fun _ _ _ before connects => steady.connectGroup before connects) connected
      exact steady.frame one rfl rfl rfl
    exact runs_invariant two (fun _ _ _ before strikes => steady.strikeContext before strikes) struck

end

/-- The contexts of a transfer are in its books, and were made for what was submitted. -/
structure Booked (id : TransferId) (reports : Nat) (state : VerbsDomain υ) : Prop where
  inv : Writes.Inv Left state.writes
  tally : Writes.Tally requests Left id (contextsOf state.history.contexts id) reports state.writes
  matched : (contextsOf state.history.contexts id).map RdmaOp.body = writesOf (state.history.submitted.map (·.2)) id

section
variable {id : TransferId} {reports : Nat}

theorem doSubmitWrite_booked {place : Place} {op : RdmaOp Qp} (booked : Booked id reports state)
    (done : middle.doSubmitWrite transferId op rooms = some after)
    (writes : middle.writes = state.writes)
    (contexts : middle.history.contexts = state.history.contexts)
    (submitted : middle.history.submitted = state.history.submitted ++
      [(place, transferId, operation)]) (same : operation.body = some op.body) :
    Booked id reports after := by
  simp only [doSubmitWrite, bind_eq_bind, bind_eq_some_iff] at done
  obtain ⟨next, stepped, built⟩ := done
  cases built
  rw [writes] at stepped
  obtain ⟨inv, tally⟩ := booked.tally.submit lawful booked.inv trivial (toOption_eq_some stepped)
  have opened : contextsOf (middle.history.contexts ++ [(transferId, op)]) id =
      contextsOf state.history.contexts id ++ if transferId = id then [op] else [] := by
    rw [contexts, contextsOf_append]
  refine ⟨inv, ?_, ?_⟩
  · show Writes.Tally requests Left id (contextsOf (middle.history.contexts ++ [(transferId, op)]) id) reports next
    rwa [opened]
  · show (contextsOf (middle.history.contexts ++ [(transferId, op)]) id).map RdmaOp.body =
      writesOf (middle.history.submitted.map (·.2)) id
    rw [opened, submitted, List.map_append, List.map_append, booked.matched, writesOf_append]
    by_cases own : transferId = id <;> simp [own, writesOf, same]

theorem Booked.frame (booked : Booked id reports state) (writes : after.writes = state.writes)
    (contexts : after.history.contexts = state.history.contexts)
    (submitted : after.history.submitted = state.history.submitted) : Booked id reports after := by
  obtain ⟨inv, tally, matched⟩ := booked
  constructor
  · rwa [writes]
  · rwa [writes, contexts]
  · rwa [contexts, submitted]

theorem Booked.steady (id : TransferId) (reports : Nat) : Steady (Booked (υ := υ) id reports) where
  frame booked writes _ history := booked.frame writes (by rw [history]) (by rw [history])
  outbound {state after place transferId op msgQp rmaQp rooms} done booked := by
    cases op with
    | send op =>
      cases done
      refine ⟨booked.inv, booked.tally, ?_⟩
      show (contextsOf state.history.contexts id).map RdmaOp.body =
        writesOf ((state.history.submitted ++
        [(place, transferId, Operation.outbound (.send op))]).map (·.2)) id
      rw [List.map_append, writesOf_append, booked.matched]
      simp [writesOf, Operation.body]
    | write op =>
      change (state.submitted place transferId (.outbound (.write op))).doSubmitWrite transferId
        (.write op rmaQp) rooms = some after at done
      exact doSubmitWrite_booked booked done rfl rfl rfl rfl
  group {state after place transferId rmaQps op rooms} done booked := by
    unfold doSubmitGroupWrite at done
    exact doSubmitWrite_booked booked done rfl rfl rfl rfl

end

private theorem unchanged_steady (completions : List DomainCompletionEntry) (asked : List (TransferId × Operation)) :
    Steady fun state : VerbsDomain υ => state.completions = completions ∧ state.history.asked = asked where
  frame before _ same history := ⟨same.trans before.1, (congrArg History.asked history).trans before.2⟩
  outbound done before :=
    have submits := doSubmitOutboundOp_submits done
    ⟨submits.completions.trans before.1, submits.asked.trans before.2⟩
  group done before :=
    have submits := doSubmitGroupWrite_submits done
    ⟨submits.completions.trans before.1, submits.asked.trans before.2⟩

def Single (state : VerbsDomain υ) : Prop :=
  ∀ addr peer, state.peers.lookup addr = some peer → peer.state.contexts.length ≤ 1

theorem Single.insert (single : Single state) (peers : after.peers = state.peers.insert addr peer)
    (few : peer.state.contexts.length ≤ 1) : Single after := by
  intro other found known
  rcases inserted peers known with ⟨-, rfl⟩ | ⟨-, known⟩
  · exact few
  · exact single other found known

structure Enters (state after : VerbsDomain υ) : Prop where
  history : after.history = state.history
  writes : after.writes = state.writes
  completions : after.completions = state.completions
  connecting : after.connectingPeerGroups = state.connectingPeerGroups
  pending : after.pending = state.pending
  single : Single state → Single after

theorem Enters.refl (state : VerbsDomain υ) : Enters state state := ⟨rfl, rfl, rfl, rfl, rfl, fun single => single⟩

theorem Enters.asked (enters : Enters state after) : after.history.asked = state.history.asked :=
  congrArg History.asked enters.history

theorem Enters.waits (enters : Enters state after) {entered : List (Place × TransferId × Operation)}
    (waits : Waits entered state) : Waits entered after :=
  waits.same (congrArg History.submitted enters.history) enters.pending

theorem Enters.insert (enters : Enters state middle) (absent : middle.peers.lookup addr = none)
    (idle : peer.state.submits = []) (few : peer.state.contexts.length ≤ 1) (outbox : List (υ × PeerHandshakeInfo υ)) :
    Enters state { middle.insertPeer addr peer with outbox } where
  history := enters.history
  writes := enters.writes
  completions := enters.completions
  connecting := enters.connecting
  pending := by
    rw [← enters.pending]
    exact pending_new absent idle rfl rfl rfl
  single single := (enters.single single).insert rfl few

section
variable {addressing : Addressing υ}

/-- While a group is gathered, the context of its new peers is not filled in. -/
structure Gathering.Enters (state : VerbsDomain υ) (gathering : Gathering υ) : Prop where
  enters : VerbsDomain.Enters state gathering.domain
  blank : ∀ ptr ∈ gathering.ctxPtr, gathering.domain.objpoolPendingGroupWriteOp.read ptr = none

theorem Gathering.Enters.claim {gathering : Gathering υ} (entered : gathering.Enters state) (shares : Bool) :
    (gathering.claim shares).Enters state := by
  unfold Gathering.claim
  split
  next =>
    obtain ⟨history, writes, completions, connecting, pending, single⟩ := entered.enters
    refine ⟨⟨history, writes, completions, connecting, ?_, single⟩, fun ptr member => ?_⟩
    · rw [← pending]
      exact pending_congr rfl rfl Pool.read_alloc
    · cases member
      rw [Pool.read_alloc, Pool.read_top]
  next => exact entered

theorem gather_enters (addressing : Addressing υ) (state : VerbsDomain υ) (shares : Bool)
    (supply : DomainAddress → Supply) (addrs : List DomainAddress) :
    (∀ gathering, state.gather addressing shares supply addrs = .ok gathering →
      gathering.Enters state) ∧
      ∀ error, state.gather addressing shares supply addrs = .error error →
        Enters state error.2.2 := by
  have few : ∀ ctxPtr : Option Nat, ctxPtr.toList.length ≤ 1 := fun ctxPtr => by cases ctxPtr <;> simp
  refine gather_rule ?_ ?_ ?_ ?_
  · exact ⟨.refl state, fun ptr member => (not_mem_none ptr member).elim⟩
  · intro gathering addr peer entered _ _
    exact ⟨entered.enters, entered.blank⟩
  · intro gathering addr reason domain entered _ absent made
    have enters := (entered.claim shares).enters
    rcases initiate_error made with rfl | ⟨-, udAddr, -, rfl⟩
    · exact enters
    · refine enters.insert absent rfl ?_ _
      exact few _
  · intro gathering addr peer domain entered _ absent made
    have claimed := entered.claim shares
    obtain ⟨udAddr, -, rfl, rfl⟩ := initiate_ok made
    refine ⟨claimed.enters.insert absent rfl ?_ _, claimed.blank⟩
    exact few _

end

theorem Enters.booked (enters : Enters state after) {id : TransferId} {reports : Nat}
    (booked : Booked id reports state) : Booked id reports after :=
  booked.frame enters.writes (congrArg History.contexts enters.history) (congrArg History.submitted enters.history)

/-- A call that is being made: it waits or is submitted, or it was refused. A refused call
may still wait, with the peer that was entered for it. -/
structure Serves (item : TransferId × Operation) (state after : VerbsDomain υ) : Prop where
  asked : after.history.asked = state.history.asked
  completions : after.completions = state.completions ∨
    ∃ error, after.completions = state.completions ++ [.error item.1 error]
  waits : ∀ entered, Waits entered state → Waits entered after ∨ ∃ place, Waits (entered ++ [(place, item)]) after
  single : Single state → Single after
  booked : ∀ id reports, Booked id reports state → Booked id reports after

section
variable {addressing : Addressing υ} {transferId : TransferId} {rooms : Nat → Nat}

theorem Serves.refused {op : Operation} (enters : Enters state middle) (error : FabricLibError) :
    Serves (transferId, op) state (middle.refuse transferId op error) where
  asked := enters.asked
  completions := .inr ⟨error, congrArg (· ++ _) enters.completions⟩
  waits _ waits := .inl (enters.waits waits)
  single := enters.single
  booked _ _ booked := (enters.booked booked).frame rfl rfl rfl

theorem Serves.submits {place : Place} {op : Operation} (enters : Enters state middle)
    (idle : middle.pending place = [])
    (done : Submits [(place, transferId, op)] (middle.accept place transferId op) after)
    (kept : ∀ id reports, Booked id reports (middle.accept place transferId op) →
      Booked id reports after) : Serves (transferId, op) state after where
  asked := done.asked.trans enters.asked
  completions := .inl (done.completions.trans enters.completions)
  waits entered waits := by
    have same : after.pending = middle.pending :=
      pending_congr done.peers done.connectingPeerGroups (congrArg Pool.read done.contexts)
    refine .inr ⟨place, (enters.waits waits).enter [(transferId, op)] done.submitted ?_ fun _ _ => by rw [same]⟩
    rw [same, idle]
    rfl
  single single addr peer found := by
    rw [done.peers] at found
    exact enters.single single addr peer found
  booked id reports booked := kept id reports ((enters.booked booked).frame rfl rfl rfl)

theorem submitOutboundOp_serves {destAddr : DomainAddress} {op : OutboundOp} {supply : Supply}
    (done : state.submitOutboundOp addressing transferId destAddr op supply rooms = some after) :
    Serves (transferId, .outbound op) (state.ask transferId (.outbound op)) after := by
  cases submitOutboundOp_takes done with
  | submits found known done =>
    refine .submits (.refl _) ?_ (doSubmitOutboundOp_submits done) fun id reports =>
      (Booked.steady id reports).outbound done
    simp [pending, found, known, PeerState.submits]
  | queues found known =>
    refine ⟨rfl, .inl rfl, fun entered waits => .inr ⟨.peer destAddr, ?_⟩, fun single =>
      ?_, fun _ _ booked => booked.frame rfl rfl rfl⟩
    · refine waits.adds (.peer rfl rfl rfl rfl ?_)
      simp [found, known, PeerState.submits]
    · refine single.insert rfl ?_
      have few := single destAddr _ found
      rwa [known] at few
  | fails missing made =>
    rcases initiate_error made with rfl | ⟨-, udAddr, -, rfl⟩
    · exact .refused (.refl _) _
    · refine ⟨rfl, .inr ⟨_, rfl⟩, fun entered waits => .inr ⟨.peer destAddr, ?_⟩, fun single => ?_,
        fun _ _ booked => booked.frame rfl rfl rfl⟩
      · refine waits.adds (.peer rfl rfl rfl rfl ?_)
        simp [missing, newPeer, PeerState.submits]
      · exact single.insert rfl (Nat.zero_le _)
  | connects missing made =>
    obtain ⟨udAddr, -, rfl, rfl⟩ := initiate_ok made
    refine ⟨rfl, .inl rfl, fun entered waits => .inr ⟨.peer destAddr, ?_⟩, fun single =>
      ?_, fun _ _ booked => booked.frame rfl rfl rfl⟩
    · refine waits.adds (.peer rfl rfl rfl rfl ?_)
      simp [missing, newPeer, PeerState.submits]
    · exact single.insert rfl (Nat.zero_le _)

private theorem park_serves {op : ScatterGroupWriteOp} {gathering : Gathering υ} (entered : gathering.Enters state)
    (done : park transferId op gathering = some after) : Serves (transferId, .group op) state after := by
  obtain ⟨enters, blank⟩ := entered
  obtain ⟨ptr, pool, -, -, rfl, adds⟩ := Adds.park blank done
  exact ⟨enters.asked, .inl enters.completions, fun _ waits =>
    .inr ⟨.context ptr, (enters.waits waits).adds adds⟩, enters.single,
    fun _ _ booked => (enters.booked booked).frame rfl rfl rfl⟩

theorem submitGroupWrite_serves {handle : Option PeerGroupHandle} {op : ScatterGroupWriteOp}
    {supply : DomainAddress → Supply}
    (done : state.submitGroupWrite addressing transferId handle op supply rooms = some after) :
    Serves (transferId, .group op) (state.ask transferId (.group op)) after := by
  cases submitGroupWrite_takes done with
  | queues waiting =>
    exact ⟨rfl, .inl rfl, fun _ waits => .inr ⟨_, waits.adds (.group rfl rfl waiting rfl rfl)⟩, fun single => single,
      fun _ _ booked => booked.frame rfl rfl rfl⟩
  | unknown => exact .refused (.refl _) _
  | submits connected known done =>
    refine .submits (.refl _) ?_ (doSubmitGroupWrite_submits done) fun id reports => (Booked.steady id reports).group done
    simp [pending, connected]
  | fails listed gathered => exact .refused ((gather_enters addressing _ true supply _).2 _ gathered) _
  | gathers listed gathered done =>
    have entered := (gather_enters addressing _ true supply _).1 _ gathered
    split at done
    next =>
      exact .submits entered.enters rfl (doSubmitGroupWrite_submits done) fun id reports =>
        (Booked.steady id reports).group done
    next => exact park_serves entered done

end

structure Passes (state after : VerbsDomain υ) : Prop where
  asked : after.history.asked = state.history.asked
  completions : after.completions = state.completions
  waits : ∀ entered, Single state → Waits entered state → Waits entered after
  single : Single state → Single after
  booked : ∀ id reports, Booked id reports state → Booked id reports after

theorem Enters.passes (enters : Enters state after) : Passes state after where
  asked := enters.asked
  completions := enters.completions
  waits _ _ waits := enters.waits waits
  single := enters.single
  booked _ _ booked := enters.booked booked

theorem Passes.trans (one : Passes state middle) (two : Passes middle after) : Passes state after where
  asked := two.asked.trans one.asked
  completions := two.completions.trans one.completions
  waits entered single waits := two.waits entered (one.single single) (one.waits entered single waits)
  single single := two.single (one.single single)
  booked id reports booked := two.booked id reports (one.booked id reports booked)

section
variable {addressing : Addressing υ}

theorem addPeerGroup_passes (addressing : Addressing υ) (state : VerbsDomain υ)
    (handle : PeerGroupHandle) (addrs : List DomainAddress) (supply : DomainAddress → Supply) :
    Passes state (state.addPeerGroup addressing handle addrs supply).2 := by
  unfold addPeerGroup
  split
  next => exact (Enters.refl state).passes
  next fresh =>
    split
    next => exact (Enters.refl state).passes
    next =>
      obtain ⟨gathers, fails⟩ := gather_enters addressing state false supply addrs
      cases gathered : state.gather addressing false supply addrs with
      | error failure => exact (fails failure gathered).passes
      | ok gathering =>
        have enters := (gathers gathering gathered).enters
        simp only
        split
        next =>
          refine enters.passes.trans ⟨rfl, rfl, fun _ _ waits => waits.same rfl ?_, fun single =>
            single, fun _ _ booked => booked.frame rfl rfl rfl⟩
          exact pending_congr rfl rfl rfl
        next =>
          refine enters.passes.trans ⟨rfl, rfl, fun _ _ waits => waits.same rfl ?_, fun single =>
            single, fun _ _ booked => booked.frame rfl rfl rfl⟩
          refine pending_newGroup ?_ _ _
          rw [enters.connecting]
          exact not_isSome_iff_eq_none.mp fresh

theorem establish_passes
    (walks : order.Perm state.connectingPeerGroups.keys) (found : state.peers.lookup addr = some peer)
    (done : state.establish addr peer info order rooms = some after) : Passes state after := by
  obtain ⟨completions, asked⟩ := (unchanged_steady state.completions state.history.asked).establish ⟨rfl, rfl⟩ done
  by_cases ready : peer.state = .established
  · rw [establish, ready] at done
    cases done
    exact (Enters.refl state).passes
  · have establishes : Single state → Establishes addr peer info state after := by
      intro single
      refine establish_establishes walks ready ?_ done
      have short := single addr peer found
      cases held : peer.state.contexts with
      | nil => exact .nil
      | cons ptr rest =>
        obtain rfl : rest = [] := by simpa [held] using short
        exact List.nodup_singleton ptr
    exact ⟨asked, completions, fun _ single waits => waits.establish found (establishes single),
      fun single => single.insert (establishes single).peers (Nat.zero_le _),
        fun id reports booked => (Booked.steady id reports).establish booked done⟩

theorem handlePeerHandshake_passes {supply : Supply}
    (done : state.handlePeerHandshake addressing info supply order rooms = some after) : Passes state after := by
  obtain ⟨walks, before, peer, established, ⟨found, rfl⟩ | ⟨missing, made⟩⟩ := handlePeerHandshake_establishes done
  · exact establish_passes walks found established
  · obtain ⟨udAddr, -, rfl, rfl⟩ := initiate_ok made
    have enters : Enters state { state.insertPeer (addressing.address info.udAddr) (state.newPeer udAddr supply [] []) with
        outbox := state.outbox ++ [(udAddr, state.handshakeInfo (state.newPeer udAddr supply [] []))] } := by
      refine (Enters.refl state).insert missing rfl ?_ _
      exact Nat.zero_le 1
    exact enters.passes.trans (establish_passes walks (AList.lookup_insert _) established)

end

end VerbsDomain

open VerbsDomain

structure Books {υ : Type} (id : TransferId) (ops : List DomainOp) (reports : Nat) (state : VerbsDomain υ) : Prop where
  booked : Booked id reports state
  waits : ∃ entered, Waits entered state ∧ (entered.map (·.2)).Subperm state.history.asked
  single : Single state
  asked : writesOf state.history.asked id = ops.map DomainOp.body

/-- The operations of a transfer are complete in a Verbs domain. -/
def Finished {υ : Type} (state : VerbsDomain υ) (id : TransferId) (ops : List DomainOp) : Prop :=
  Complete requests state.history.contexts state.writes.completed id ops

section
variable {υ : Type} {addressing : Addressing υ} {id : TransferId} {ops : List DomainOp} {reports : Nat} {state after : VerbsDomain υ}

theorem Books.new (id : TransferId) (udAddr : υ) : Books id [] 0 (VerbsDomain.new udAddr) where
  booked := ⟨Writes.inv_new, .new, rfl⟩
  waits := ⟨[], fun place => by cases place <;> rfl, .refl _⟩
  single _ _ found := by cases found
  asked := rfl

section
variable (books : Books id ops reports state)
include books

theorem Books.given :
    ((contextsOf state.history.contexts id).map RdmaOp.body).Subperm (ops.map DomainOp.body) := by
  obtain ⟨entered, waits, contained⟩ := books.waits
  obtain ⟨log, perm, sub⟩ := waits.submitted
  have before : (state.history.submitted.map (·.2)).Subperm (entered.map (·.2)) := ⟨_, perm.map _, sub.map _⟩
  rw [books.booked.matched, ← books.asked]
  exact writesOf_subperm (before.trans contained) id

theorem Books.limit : reports ≤ ops.length := books.booked.tally.limit books.given

theorem Books.rewrite {further : Nat} (booked : Booked id further after)
    (calls : after.history.asked = state.history.asked ∧ after.history.submitted = state.history.submitted)
    (pending : after.pending = state.pending) (peers : after.peers = state.peers) : Books id ops further after := by
  obtain ⟨-, ⟨entered, waits, contained⟩, single, asked⟩ := books
  refine ⟨booked, ⟨entered, waits.same calls.2 pending, ?_⟩, ?_, ?_⟩
  · rwa [calls.1]
  · unfold Single
    rwa [peers]
  · rwa [calls.1]

theorem Books.serves {further : List DomainOp}
    (serves : Serves (transferId, operation) (state.ask transferId operation) after)
    (more : ops.map DomainOp.body ++ writesOf [(transferId, operation)] id =
      further.map DomainOp.body) : Books id further reports after := by
  have asked : after.history.asked = state.history.asked ++ [(transferId, operation)] := serves.asked
  obtain ⟨booked, ⟨entered, waits, contained⟩, single, before⟩ := books
  constructor
  · exact serves.booked id reports (booked.frame rfl rfl rfl)
  · rw [asked]
    rcases serves.waits entered waits with waits | ⟨place, waits⟩
    · exact ⟨entered, waits, contained.trans (List.sublist_append_left _ _).subperm⟩
    · refine ⟨_, waits, ?_⟩
      rw [List.map_append]
      exact (List.subperm_append_right _).mpr contained
  · exact serves.single single
  · rw [asked, writesOf_append, before, more]

theorem Books.passes (passes : Passes state after) : Books id ops reports after := by
  obtain ⟨booked, ⟨entered, waits, contained⟩, single, asked⟩ := books
  refine ⟨passes.booked id reports booked, ⟨entered, passes.waits entered single waits, ?_⟩, passes.single single, ?_⟩
  · rwa [passes.asked]
  · rwa [passes.asked]

end

theorem serves_advances {op : DomainOp} (body : operation.body = some op.body)
    (serves : Serves (transferId, operation) (state.ask transferId operation) after) :
    Advances (rdmaDomain addressing) Books id ops (ops ++ if transferId = id then [op] else []) state after := by
  have kept : ∀ reports, Books id ops reports state →
      Books id (ops ++ if transferId = id then [op] else []) reports after := by
    intro reports books
    refine books.serves serves ?_
    by_cases own : transferId = id <;> simp [own, writesOf, body]
  rcases serves.completions with same | ⟨error, added⟩
  · exact .quiet same kept
  · refine .refused added (fun _ books => books.limit) fun other reports books => ?_
    have next := kept reports books
    rwa [if_neg other, List.append_nil] at next

theorem submit_advances {op : DomainOp} {input : (DomainAddress → Supply) × (Nat → Nat)}
    (done : (rdmaDomain addressing).submit state transferId op input = some after) :
    Advances (rdmaDomain addressing) Books id ops (ops ++ if transferId = id then [op] else []) state after := by
  cases op with
  | write dstAddr op => exact serves_advances rfl (submitOutboundOp_serves done)
  | groupWrite handle op => exact serves_advances rfl (submitGroupWrite_serves done)

theorem act_advances {event : VerbsDomain.Event υ}
    (done : (rdmaDomain addressing).act state event = some after)
    (apart : (rdmaDomain addressing).messageId event ≠ some id) :
    Advances (rdmaDomain addressing) Books id ops ops state after := by
  cases event with
  | submitSend transferId destAddr op supply rooms =>
    have other : transferId ≠ id := fun same => apart (congrArg some same)
    have serves := submitOutboundOp_serves done
    have kept : ∀ reports, Books id ops reports state → Books id ops reports after := by
      intro reports books
      refine books.serves serves ?_
      simp [writesOf, Operation.body]
    rcases serves.completions with same | ⟨error, added⟩
    · exact .quiet same kept
    · exact .unrelated other added kept
  | addPeerGroup handle addrs supply =>
    cases done
    have passes := addPeerGroup_passes addressing state handle addrs supply
    exact .quiet passes.completions fun _ books => books.passes passes
  | handshake info supply order rooms =>
    have passes := handlePeerHandshake_passes done
    exact .quiet passes.completions fun _ books => books.passes passes
  | progress sendRoom writeRoom =>
    obtain ⟨writes, stepped, built⟩ := bind_eq_some_iff.mp done
    cases built
    refine .quiet rfl fun reports books => ?_
    obtain ⟨inv, tally⟩ := books.booked.tally.progressRdmaWriteOps books.booked.inv lawful (toOption_eq_some stepped)
    exact books.rewrite ⟨inv, tally, books.booked.matched⟩ ⟨rfl, rfl⟩ (pending_congr rfl rfl rfl) rfl
  | cqe slot request failure =>
    obtain ⟨⟨entry, writes⟩, stepped, built⟩ := bind_eq_some_iff.mp done
    cases built
    refine .completed rfl fun reports books => ?_
    obtain ⟨inv, counted⟩ := books.booked.tally.cqe books.booked.inv books.given (toOption_eq_some stepped)
    exact counted.imp_right fun kept =>
      ⟨kept.1, books.rewrite ⟨inv, kept.2, books.booked.matched⟩ ⟨rfl, rfl⟩
      (pending_congr rfl rfl rfl) rfl⟩

theorem accountable : Accountable (rdmaDomain addressing) Books Finished where
  bound books := books.limit
  finished books := books.booked.tally.complete books.booked.inv books.given
  submit := submit_advances
  act := act_advances
  get := rfl
  set books := books.rewrite (books.booked.frame rfl rfl rfl) ⟨rfl, rfl⟩ (pending_congr rfl rfl rfl) rfl

end

end PplxGarden.Fabric.Verbs

namespace PplxGarden.Fabric
open Library

/-- A group of EFA domains, or of Verbs domains, reports success at most once, when all
requests of the transfer have succeeded, and not after an error. -/
theorem domains_honest {N : Nat} {υ : Type} (positive : 0 < N) (regions : Fin N → Domain)
    (messages : TransferId → Bool) (addressing : Verbs.Addressing υ) (udAddrs : Fin N → υ) :
    Transfers.Honest Efa.rdmaDomain messages Efa.Finished (.new positive regions fun _ => .new) ∧
      Transfers.Honest (Verbs.rdmaDomain addressing) messages Verbs.Finished
        (.new positive regions fun i => .new (udAddrs i)) := by
  constructor
  · exact Transfers.honest Efa.accountable positive regions _ (fun id _ => Efa.Books.new id) fun _ => rfl
  · exact Transfers.honest Verbs.accountable positive regions _ (fun id i => Verbs.Books.new id (udAddrs i)) fun _ => rfl

def writeOnce : TransferRequest := .single ⟨5, 0, 16, none, ⟨5000, [(5, 9)]⟩, 0, .pinned 0⟩

def oneRegion : Fin 1 → Domain := fun _ => .ofRegions fun _ => some 7

def efaWrite : List (Transfers.Action 1 ((DomainAddress → Option FiAddr) × Nat) Efa.EfaDomain.Event) :=
  [.submit 2 writeOnce false fun _ => (fun _ => some 3, 8),
    .act 0 (.cqe 0 (⟨some ⟨5, 16⟩, some 7, 3, ⟨0, 16, 9⟩, 0⟩, false) none)]

/-- The write waits until the peer has answered. -/
def verbsWrite :
    List (Transfers.Action 1 ((DomainAddress → Verbs.Supply) × (Nat →
      Nat)) (Verbs.VerbsDomain.Event Nat)) :=
  [.submit 2 writeOnce true fun _ => (fun _ => Verbs.plainSupply, fun _ => 8),
    .act 0 (.handshake ⟨5, 80, 123, 81, 456⟩ Verbs.plainSupply [] fun _ => 8),
    .act 0 (.cqe 0 (1, ⟨some ⟨5, 16, 7⟩, .rdmaWrite, 0, 5000, 9⟩) none)]

theorem domains_honest_write :
    (∃ state, runs (Transfers.fire Efa.rdmaDomain fun _ => false)
      (.new Nat.one_pos oneRegion fun _ => .new) efaWrite = some state ∧
      (state.getCompletion Efa.rdmaDomain).1 = some (.transfer 2) ∧
        Efa.Finished (state.domains 0) 2 (state.handed 0 2)) ∧
    ∃ state, runs (Transfers.fire (Verbs.rdmaDomain Verbs.plainAddressing) fun _ => false)
      (.new Nat.one_pos oneRegion fun _ => .new 0)
        verbsWrite = some state ∧
      (2, false) ∈ (state.getCompletion (Verbs.rdmaDomain Verbs.plainAddressing)).2.1 ∧
        Verbs.Finished (state.domains 0) 2 (state.handed 0 2) := by
  obtain ⟨efa, verbs⟩ := domains_honest Nat.one_pos oneRegion (fun _ => false) Verbs.plainAddressing fun _ => 0
  constructor
  · have returned : (runs (Transfers.fire Efa.rdmaDomain fun _ => false)
      (.new Nat.one_pos oneRegion fun _ => .new) efaWrite).any fun state =>
        decide ((state.getCompletion Efa.rdmaDomain).1 = some (.transfer 2)) := by decide +kernel
    obtain ⟨state, reached, succeeds⟩ := (Option.any_eq_true ..).mp returned
    have succeeds := of_decide_eq_true succeeds
    exact ⟨state, reached, succeeds, efa.complete efaWrite state 2 reached (.inl succeeds) 0⟩
  · have counted : (runs (Transfers.fire (Verbs.rdmaDomain Verbs.plainAddressing) fun _ => false)
      (.new Nat.one_pos oneRegion fun _ => .new 0)
      verbsWrite).any fun state =>
        decide ((2, false) ∈ (state.getCompletion (Verbs.rdmaDomain Verbs.plainAddressing)).2.1) := by decide +kernel
    obtain ⟨state, reached, succeeds⟩ := (Option.any_eq_true ..).mp counted
    have succeeds := of_decide_eq_true succeeds
    exact ⟨state, reached, succeeds, verbs.complete verbsWrite state 2 reached (.inr succeeds) 0⟩

end PplxGarden.Fabric
