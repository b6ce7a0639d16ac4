import PplxGarden.Fabric.PeerGroups
import PplxGarden.Proofs.VerbsDomain

/-! EFA and Verbs domains as providers of peer groups. -/

namespace PplxGarden.Fabric
open Function Option

variable {insert : DomainAddress → Option FiAddr} {addrs : List DomainAddress}

namespace Efa

variable {state after : EfaDomain}

theorem addPeerGroup_result (state : EfaDomain) (handle : PeerGroupHandle)
    (addrs : List DomainAddress) (insert : DomainAddress → Option FiAddr) :
    state.addPeerGroup handle addrs insert =
      (state.addPeerGroupResult handle addrs insert).map Prod.snd := by
  unfold EfaDomain.addPeerGroup EfaDomain.addPeerGroupResult
  split
  next => rfl
  next =>
    cases EfaDomain.resolve insert (addrs.map some) state with
    | none => rfl
    | some resolved =>
      obtain ⟨result, middle⟩ := resolved
      cases result <;> rfl

/-- What resolving changes: addresses are added, and groups stay as they are. -/
structure Adds (state after : EfaDomain) : Prop where
  addrs : ∀ {addr found}, state.peerAddrMap addr = some found → after.peerAddrMap addr = some found
  groups : after.peerGroups = state.peerGroups

private theorem getOrAddRemoteAddr_adds (insert : DomainAddress → Option FiAddr)
    (addr : DomainAddress) : Adds state (state.getOrAddRemoteAddr insert addr).2 := by
  unfold EfaDomain.getOrAddRemoteAddr
  split
  next => exact ⟨id, rfl⟩
  next absent =>
    split
    next =>
      refine ⟨fun {other _} found => ?_, rfl⟩
      have apart : other ≠ addr := by
        rintro rfl
        rw [absent] at found
        cases found
      exact (update_of_ne apart ..).trans found
    next => exact ⟨id, rfl⟩

private theorem getOrAddRemoteAddr_found {addr : DomainAddress} {fiAddr : FiAddr}
    (found : state.getOrAddRemoteAddr insert addr = (some fiAddr, after)) : after.peerAddrMap addr = some fiAddr := by
  unfold EfaDomain.getOrAddRemoteAddr at found
  split at found
  next known =>
    cases found
    exact known
  next =>
    split at found
    next =>
      cases found
      exact update_self ..
    next => cases found

theorem resolve_adds {result : Except DomainAddress (List FiAddr)}
    (done : EfaDomain.resolve insert (addrs.map some) state = some (result, after)) :
    Adds state after ∧ ∀ fiAddrs, result = .ok fiAddrs → fiAddrs.map some = addrs.map after.peerAddrMap := by
  induction addrs generalizing state result with
  | nil =>
    cases done
    exact ⟨⟨id, rfl⟩, fun _ same => by cases same; rfl⟩
  | cons addr addrs ih =>
    rw [List.map_cons, EfaDomain.resolve] at done
    have one : Adds state (state.getOrAddRemoteAddr insert addr).2 := getOrAddRemoteAddr_adds insert addr
    split at done
    next middle missed =>
      rw [missed] at one
      cases done
      exact ⟨one, fun _ failed => by cases failed⟩
    next fiAddr middle found =>
      rw [found] at one
      obtain ⟨⟨result, last⟩, resolved, built⟩ := bind_eq_some_iff.mp done
      cases built
      obtain ⟨two, listed⟩ := ih resolved
      refine ⟨⟨fun known => two.addrs (one.addrs known), two.groups.trans one.groups⟩, ?_⟩
      intro fiAddrs same
      cases result with
      | error => cases same
      | ok others =>
        cases same
        rw [List.map_cons, List.map_cons, listed others rfl, two.addrs (getOrAddRemoteAddr_found found)]

/-- A call finds the group, or fails after it resolved some addresses, or adds the group. -/
theorem addPeerGroupResult_cases {handle : PeerGroupHandle}
    {result : Except DomainAddress Unit} (done : state.addPeerGroupResult handle addrs insert = some (result, after)) :
    (state.peerGroups handle ≠ none ∧ after = state) ∨
      state.peerGroups handle = none ∧ ∃ middle, Adds state middle ∧ ((∃ addr, result = .error addr ∧ after = middle) ∨
        ∃ fiAddrs, fiAddrs.map some = addrs.map middle.peerAddrMap ∧
          after = { middle with peerGroups := update middle.peerGroups handle (some fiAddrs) }) := by
  unfold EfaDomain.addPeerGroupResult at done
  split at done
  next known =>
    cases done
    exact Or.inl ⟨isSome_iff_ne_none.mp known, rfl⟩
  next unknown =>
    have absent := not_isSome_iff_eq_none.mp unknown
    obtain ⟨⟨resolved, middle⟩, found, built⟩ := bind_eq_some_iff.mp done
    obtain ⟨adds, listed⟩ := resolve_adds found
    cases resolved with
    | error addr =>
      cases built
      exact Or.inr ⟨absent, after, adds, Or.inl ⟨addr, rfl, rfl⟩⟩
    | ok fiAddrs =>
      cases built
      exact Or.inr ⟨absent, middle, adds, Or.inr ⟨fiAddrs, listed fiAddrs rfl, rfl⟩⟩

def peerProvider : PeerProvider EfaDomain FiAddr DomainAddress (DomainAddress → Option FiAddr) where
  addPeerGroup := EfaDomain.addPeerGroupResult
  endpoint := EfaDomain.peerAddrMap
  peerGroup := EfaDomain.peerGroups
  added done absent := by
    rcases addPeerGroupResult_cases done with ⟨known, _⟩ | ⟨_, middle, adds, ⟨_, failed, _⟩ | ⟨fiAddrs, listed, rfl⟩⟩
    · exact absurd absent known
    · cases failed
    · exact ⟨fiAddrs, update_self .., listed⟩
  endpoints done _ _ found := by
    rcases addPeerGroupResult_cases done with ⟨_, rfl⟩ | ⟨_, middle, adds, ⟨_, _, rfl⟩ | ⟨fiAddrs, _, rfl⟩⟩
    · exact found
    · exact adds.addrs found
    · exact adds.addrs found
  others done other apart := by
    rcases addPeerGroupResult_cases done with ⟨_, rfl⟩ | ⟨absent, middle, adds, ⟨_, _, rfl⟩ | ⟨fiAddrs, _, rfl⟩⟩
    · rfl
    · rw [adds.groups]
    · have differs := apart.elim id fun known same => known (same ▸ absent)
      exact (update_of_ne differs ..).trans (congrFun adds.groups other)

end Efa

namespace Verbs

variable {υ : Type} {addressing : Addressing υ} {state after : VerbsDomain υ}

def endpoint (state : VerbsDomain υ) (addr : DomainAddress) : Option Qp :=
  (state.peers.lookup addr).map fun peer => peer.rmaRc.qp

/-- A group that is connecting or connected. -/
def peerGroup (state : VerbsDomain υ) (handle : PeerGroupHandle) : Option (List Qp) :=
  ((state.connectingPeerGroups.lookup handle).map ConnectingPeerGroup.rmaQps).or (state.peerGroups handle)

structure Adds (state after : VerbsDomain υ) : Prop where
  peers : ∀ {addr found}, endpoint state addr = some found → endpoint after addr = some found
  connecting : after.connectingPeerGroups = state.connectingPeerGroups
  groups : after.peerGroups = state.peerGroups

theorem Adds.trans {middle : VerbsDomain υ} (one : Adds state middle) (two : Adds middle after) : Adds state after :=
  ⟨fun found => two.peers (one.peers found), two.connecting.trans one.connecting, two.groups.trans one.groups⟩

private theorem insertPeer_adds {addr : DomainAddress} (absent : state.peers.lookup addr = none)
    (peer : Peer υ) : Adds state (state.insertPeer addr peer) := by
  refine ⟨fun {other _} found => ?_, rfl, rfl⟩
  have apart : other ≠ addr := by
    rintro rfl
    rw [endpoint, absent] at found
    cases found
  rw [endpoint, VerbsDomain.insertPeer, AList.lookup_insert_ne apart]
  exact found

theorem Adds.refl (state : VerbsDomain υ) : Adds state state := ⟨id, rfl, rfl⟩

section
variable {supply : DomainAddress → Supply} {gathering : VerbsDomain.Gathering υ} {addr : DomainAddress}

theorem visit_ok {next : VerbsDomain.Gathering υ}
    (done : gathering.visit addressing false supply addr = .ok next) :
    Adds gathering.domain next.domain ∧ ∃ qp, next.rmaQps = gathering.rmaQps ++ [qp] ∧
      endpoint next.domain addr = some qp := by
  unfold VerbsDomain.Gathering.visit at done
  cases found : gathering.domain.peers.lookup addr with
  | some peer =>
    simp only [found] at done
    cases done
    exact ⟨.refl _, _, rfl, congrArg (Option.map _) found⟩
  | none =>
    simp only [found, VerbsDomain.Gathering.claim] at done
    split at done
    next => cases done
    next peer domain made =>
      cases done
      obtain ⟨udAddr, _, _, rfl⟩ := VerbsDomain.initiate_ok made
      obtain ⟨peers, connecting, groups⟩ := insertPeer_adds found peer
      have here : endpoint (gathering.domain.insertPeer addr peer) addr = some peer.rmaRc.qp := by
        rw [endpoint, VerbsDomain.insertPeer, AList.lookup_insert]
        rfl
      exact ⟨⟨peers, connecting, groups⟩, _, rfl, here⟩

private theorem visit_error {error : FabricLibError × DomainAddress × VerbsDomain υ}
    (done : gathering.visit addressing false supply addr = .error error) :
    Adds gathering.domain error.2.2 := by
  unfold VerbsDomain.Gathering.visit at done
  cases found : gathering.domain.peers.lookup addr with
  | some peer =>
    simp only [found] at done
    cases done
  | none =>
    simp only [found, VerbsDomain.Gathering.claim] at done
    split at done
    next reason domain made =>
      cases done
      rcases VerbsDomain.initiate_error made with rfl | ⟨_, udAddr, _, rfl⟩
      · exact .refl _
      · exact insertPeer_adds found _
    next => cases done

theorem visits_add (addressing : Addressing υ) (supply : DomainAddress → Supply)
    (gathering : VerbsDomain.Gathering υ) (addrs : List DomainAddress) :
    (∀ final, addrs.foldlM (VerbsDomain.Gathering.visit addressing false supply) gathering =
      .ok final →
      Adds gathering.domain final.domain ∧
        final.rmaQps.map some = gathering.rmaQps.map some ++ addrs.map (endpoint final.domain)) ∧
    ∀ error, addrs.foldlM (VerbsDomain.Gathering.visit addressing false supply) gathering =
      .error error → Adds gathering.domain error.2.2 := by
  induction addrs generalizing gathering with
  | nil =>
    constructor
    · intro final done
      cases done
      exact ⟨.refl _, (List.append_nil _).symm⟩
    · intro error failed
      cases failed
  | cons addr addrs ih =>
    rw [List.foldlM_cons]
    cases visited : gathering.visit addressing false supply addr with
    | error error =>
      constructor
      · intro final done
        cases done
      · intro error failed
        cases failed
        exact visit_error visited
    | ok next =>
      obtain ⟨one, qp, listed, here⟩ := visit_ok visited
      constructor
      · intro final done
        obtain ⟨two, rest⟩ := (ih next).1 final done
        have first := congrArg (· :: addrs.map (endpoint final.domain)) (two.peers here)
        refine ⟨one.trans two, ?_⟩
        rw [rest, listed, List.map_append, List.append_assoc]
        exact congrArg (gathering.rmaQps.map some ++ ·) first.symm
      · intro error failed
        exact one.trans ((ih next).2 error failed)

end

section
variable {handle : PeerGroupHandle}

private theorem peerGroup_connected (absent : state.connectingPeerGroups.lookup handle = none) (rmaQps : List Qp) :
    peerGroup { state with peerGroups := update state.peerGroups handle (some rmaQps) } =
      update (peerGroup state) handle (some rmaQps) := by
  funext other
  by_cases same : other = handle
  · subst same
    simp [peerGroup, absent]
  · simp [peerGroup, same]

private theorem peerGroup_connecting (group : ConnectingPeerGroup) :
    peerGroup { state with connectingPeerGroups := state.connectingPeerGroups.insert handle group } =
      update (peerGroup state) handle (some group.rmaQps) := by
  funext other
  by_cases same : other = handle
  · subst same
    simp [peerGroup]
  · simp [peerGroup, same]

end

/-- A call finds the group, or fails after it added some peers, or adds the group. -/
theorem addPeerGroup_cases {handle : PeerGroupHandle} {supply : DomainAddress → Supply}
    {result : Except FabricLibError Unit}
    (done : state.addPeerGroup addressing handle addrs supply = (result, after)) :
    (peerGroup state handle ≠ none ∧ after = state) ∨
      peerGroup state handle = none ∧ ∃ middle, Adds state middle ∧
        ((∃ error, result = .error error ∧ after = middle) ∨
        ∃ rmaQps, rmaQps.map some = addrs.map (endpoint middle) ∧ after.peers = middle.peers ∧
          peerGroup after = update (peerGroup middle) handle (some rmaQps)) := by
  unfold VerbsDomain.addPeerGroup at done
  split at done
  next connecting =>
    cases done
    obtain ⟨group, found⟩ := isSome_iff_exists.mp connecting
    exact Or.inl ⟨by simp [peerGroup, found], rfl⟩
  next unconnecting =>
    have absent := not_isSome_iff_eq_none.mp unconnecting
    split at done
    next connected =>
      cases done
      obtain ⟨rmaQps, found⟩ := isSome_iff_exists.mp connected
      exact Or.inl ⟨by simp [peerGroup, absent, found], rfl⟩
    next unconnected =>
      have absent' := not_isSome_iff_eq_none.mp unconnected
      refine Or.inr ⟨by simp [peerGroup, absent, absent'], ?_⟩
      obtain ⟨goes, fails⟩ := visits_add addressing supply ⟨state, [], ∅, none⟩ addrs
      split at done
      next reason addr middle failed =>
        cases done
        exact ⟨after, fails _ failed, Or.inl ⟨_, rfl, rfl⟩⟩
      next middle rmaQps pendingPeers _ gathered =>
        obtain ⟨adds, listed⟩ := goes _ gathered
        refine ⟨middle, adds, Or.inr ⟨rmaQps, listed, ?_⟩⟩
        split at done
        next =>
          cases done
          exact ⟨rfl, peerGroup_connected (adds.connecting ▸ absent) rmaQps⟩
        next =>
          cases done
          exact ⟨rfl, peerGroup_connecting _⟩

theorem Adds.peerGroup {middle : VerbsDomain υ} (adds : Adds state middle) :
    Verbs.peerGroup middle = Verbs.peerGroup state := by
  funext handle
  rw [Verbs.peerGroup, Verbs.peerGroup, adds.connecting, adds.groups]

def peerProvider (addressing : Addressing υ) :
    PeerProvider (VerbsDomain υ) Qp FabricLibError (DomainAddress → Supply) where
  addPeerGroup state handle addrs supply := some (state.addPeerGroup addressing handle addrs supply)
  endpoint := endpoint
  peerGroup := peerGroup
  added done absent := by
    rcases addPeerGroup_cases (Option.some.inj done) with ⟨known, _⟩ | ⟨_, middle, adds,
      ⟨_, failed, _⟩ | ⟨rmaQps, listed, peers, groups⟩⟩
    · exact absurd absent known
    · cases failed
    · refine ⟨rmaQps, groups ▸ update_self .., listed.trans ?_⟩
      unfold endpoint
      rw [peers]
  endpoints done _ _ found := by
    rcases addPeerGroup_cases (Option.some.inj done) with ⟨_, rfl⟩ | ⟨_, middle, adds, ⟨_, _, rfl⟩ | ⟨rmaQps, _, peers, _⟩⟩
    · exact found
    · exact adds.peers found
    · rw [endpoint, peers]
      exact adds.peers found
  others done other apart := by
    rcases addPeerGroup_cases (Option.some.inj done) with ⟨_, rfl⟩ | ⟨absent, middle, adds,
      ⟨_, _, rfl⟩ | ⟨rmaQps, _, _, groups⟩⟩
    · rfl
    · rw [adds.peerGroup]
    · have differs := apart.elim id fun known same => known (same ▸ absent)
      rw [groups, update_of_ne differs, adds.peerGroup]

end Verbs

end PplxGarden.Fabric
