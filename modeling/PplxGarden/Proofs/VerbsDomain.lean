import PplxGarden.Fabric.VerbsDomain
import PplxGarden.Library.Loop
import PplxGarden.Library.Runs

/-! What the steps of a Verbs domain change, apart from the writes themselves. The log
of submissions is read place by place. -/

namespace PplxGarden.Fabric.Verbs
open Library List Option
variable {rooms : Nat → Nat} {rmaQp : Qp} {order : List PeerGroupHandle}

def placed (place : Place) (log : List (Place × TransferId × Operation)) : List (TransferId × Operation) :=
  (log.filter (·.1 = place)).map (·.2)

@[simp]
theorem placed_nil (place : Place) : placed place [] = [] := rfl

@[simp]
theorem placed_append (place : Place) (first second : List (Place × TransferId × Operation)) :
    placed place (first ++ second) = placed place first ++ placed place second := by
  simp [placed]

@[simp]
theorem placed_singleton (place other : Place) (item : TransferId × Operation) :
    placed place [(other, item)] = if other = place then [item] else [] := by
  unfold placed
  split <;> simp [*]

theorem placed_map {α : Type} (place other : Place) (item : α → TransferId × Operation) (items : List α) :
    placed place (items.map fun entry => (other, item entry)) = if other = place then items.map item else [] := by
  induction items with
  | nil => simp
  | cons first rest ih =>
    rw [map_cons, ← singleton_append, placed_append, placed_singleton, ih]
    split <;> simp

/-- A group or a context without one of the peers it waits for, and whether it then
waits for none. -/
def ConnectingPeerGroup.without (rmaQp : Qp) (group : ConnectingPeerGroup) : ConnectingPeerGroup :=
  { group with pendingPeers := group.pendingPeers.erase rmaQp }

def ConnectingPeerGroup.Last (rmaQp : Qp) (group : ConnectingPeerGroup) : Prop :=
  rmaQp ∈ group.pendingPeers ∧ group.pendingPeers.erase rmaQp = ∅

instance (rmaQp : Qp) (group : ConnectingPeerGroup) : Decidable (group.Last rmaQp) := inferInstanceAs (Decidable (_ ∧ _))

def PendingGroupWriteOp.without (rmaQp : Qp) (context : PendingGroupWriteOp) : PendingGroupWriteOp :=
  { context with pendingPeers := context.pendingPeers.erase rmaQp }

def PendingGroupWriteOp.Last (rmaQp : Qp) (context : PendingGroupWriteOp) : Prop :=
  rmaQp ∈ context.pendingPeers ∧ context.pendingPeers.erase rmaQp = ∅

instance (rmaQp : Qp) (context : PendingGroupWriteOp) : Decidable (context.Last rmaQp) := inferInstanceAs (Decidable (_ ∧ _))

def PeerState.submits : PeerState → List (TransferId × OutboundOp)
  | .connecting pendingSubmits _ => pendingSubmits
  | .established => []

def PeerState.contexts : PeerState → List Nat
  | .connecting _ pendingGroupWriteOps => pendingGroupWriteOps
  | .established => []

def Supply.Late (supply : Supply) : Prop :=
  match supply.failure with
  | some .alloc => True
  | some (.send _) => True
  | _ => False

def Peer.activated {υ : Type} (info : PeerHandshakeInfo υ) (peer : Peer υ) : Peer υ :=
  { peer with
    msgRc := peer.msgRc.activate info.msgQpNum info.msgPsn
    rmaRc := peer.rmaRc.activate info.rmaQpNum info.rmaPsn
    state := .established }

namespace VerbsDomain

variable {υ : Type} {state after : VerbsDomain υ}

structure Frame (state after : VerbsDomain υ) : Prop where
  udAddr : after.udAddr = state.udAddr
  completions : after.completions = state.completions
  nextQp : after.nextQp = state.nextQp
  outbox : after.outbox = state.outbox
  asked : after.history.asked = state.history.asked
  refused : after.history.refused = state.history.refused
  accepted : after.history.accepted = state.history.accepted

theorem Frame.refl (state : VerbsDomain υ) : Frame state state := by
  constructor <;> rfl

theorem Frame.trans {middle : VerbsDomain υ} (one : Frame state middle) (two : Frame middle after) :
    Frame state after where
  udAddr := two.udAddr.trans one.udAddr
  completions := two.completions.trans one.completions
  nextQp := two.nextQp.trans one.nextQp
  outbox := two.outbox.trans one.outbox
  asked := two.asked.trans one.asked
  refused := two.refused.trans one.refused
  accepted := two.accepted.trans one.accepted

structure Submits (items : List (Place × TransferId × Operation)) (state after : VerbsDomain υ) :
    Prop extends Frame state after where
  peers : after.peers = state.peers
  connectingPeerGroups : after.connectingPeerGroups = state.connectingPeerGroups
  peerGroups : after.peerGroups = state.peerGroups
  contexts : after.objpoolPendingGroupWriteOp = state.objpoolPendingGroupWriteOp
  submitted : after.history.submitted = state.history.submitted ++ items

theorem Submits.refl (state : VerbsDomain υ) : Submits [] state state :=
  ⟨.refl state, rfl, rfl, rfl, rfl, (append_nil _).symm⟩

theorem Submits.trans {first second : List (Place × TransferId × Operation)}
    {middle : VerbsDomain υ} (one : Submits first state middle)
    (two : Submits second middle after) :
    Submits (first ++ second) state after where
  toFrame := one.toFrame.trans two.toFrame
  peers := two.peers.trans one.peers
  connectingPeerGroups := two.connectingPeerGroups.trans one.connectingPeerGroups
  peerGroups := two.peerGroups.trans one.peerGroups
  contexts := two.contexts.trans one.contexts
  submitted := by rw [two.submitted, one.submitted, append_assoc]

theorem Submits.fold {α : Type} {body : VerbsDomain υ → α → Option (VerbsDomain υ)} {entries : List α}
    (done : entries.foldlM body state = some after) (item : α → Place × TransferId × Operation)
    (each : ∀ before entry next, body before entry = some next → Submits [item entry] before next) :
    Submits (entries.map item) state after := by
  induction entries generalizing state with
  | nil =>
    cases done
    exact .refl _
  | cons entry rest ih =>
    rw [foldlM_cons, bind_eq_bind, bind_eq_some_iff] at done
    obtain ⟨next, first, later⟩ := done
    exact (each _ _ _ first).trans (ih later)

section
variable {place : Place} {transferId : TransferId} {rooms : Nat → Nat}

private theorem doSubmitWrite_submits {op : RdmaOp Qp}
    (done : state.doSubmitWrite transferId op rooms = some after) : Submits [] state after := by
  simp only [doSubmitWrite, bind_eq_bind, bind_eq_some_iff] at done
  obtain ⟨writes, _, built⟩ := done
  cases built
  exact ⟨⟨rfl, rfl, rfl, rfl, rfl, rfl, rfl⟩, rfl, rfl, rfl, rfl, (append_nil _).symm⟩

theorem doSubmitOutboundOp_submits {op : OutboundOp} {msgQp : Qp}
    (done : state.doSubmitOutboundOp place transferId op msgQp rmaQp rooms = some after) :
    Submits [(place, transferId, .outbound op)] state after := by
  have noted : Submits [(place, transferId, .outbound op)] state (state.submitted place transferId (.outbound op)) :=
    ⟨⟨rfl, rfl, rfl, rfl, rfl, rfl, rfl⟩, rfl, rfl, rfl, rfl, rfl⟩
  cases op with
  | send op =>
    cases done
    exact noted.trans ⟨⟨rfl, rfl, rfl, rfl, rfl, rfl, rfl⟩, rfl, rfl, rfl, rfl, (append_nil _).symm⟩
  | write op => exact noted.trans (doSubmitWrite_submits done)

theorem doSubmitGroupWrite_submits {op : ScatterGroupWriteOp} {rmaQps : List Qp}
    (done : state.doSubmitGroupWrite place transferId rmaQps op rooms = some after) :
    Submits [(place, transferId, .group op)] state after := by
  have noted : Submits [(place, transferId, .group op)] state { state.submitted place transferId (.group op) with
      history.released := state.history.released ++ [(transferId, rmaQps.all state.established)] } :=
    ⟨⟨rfl, rfl, rfl, rfl, rfl, rfl, rfl⟩, rfl, rfl, rfl, rfl, rfl⟩
  exact noted.trans (doSubmitWrite_submits done)

end

section
variable {rmaQp : Qp} {groups : AList fun _ : PeerGroupHandle => ConnectingPeerGroup}

theorem lookup_strikes (order : List PeerGroupHandle) (handle : PeerGroupHandle) :
    (order.foldl (strike rmaQp) groups).lookup handle =
      (groups.lookup handle).map fun group =>
        if handle ∈ order then ConnectingPeerGroup.without rmaQp group else group := by
  induction order generalizing groups with
  | nil => simp
  | cons first rest ih =>
    rw [foldl_cons, ih, strike]
    by_cases same : handle = first
    · subst same
      cases found : groups.lookup handle with
      | none => simp [found]
      | some group => simp [ConnectingPeerGroup.without]
    · cases found : groups.lookup first with
      | none => simp [same]
      | some group => simp [AList.lookup_insert_ne same, same]

end

def pending (state : VerbsDomain υ) : Place → List (TransferId × Operation)
  | .peer addr =>
    match state.peers.lookup addr with
    | some peer => peer.state.submits.map fun item => (item.1, .outbound item.2)
    | none => []
  | .group handle =>
    match state.connectingPeerGroups.lookup handle with
    | some group => group.pendingGroupOps.map fun item => (item.1, .group item.2)
    | none => []
  | .context ptr =>
    match state.objpoolPendingGroupWriteOp.read ptr with
    | some context => (context.op.map fun op => (context.transferId, Operation.group op)).toList
    | none => []
  | .nowhere => []

/-- Groups are connected: what waited for them is submitted. -/
structure Connects (handles : List PeerGroupHandle) (state after : VerbsDomain υ) :
    Prop extends Frame state after where
  peers : after.peers = state.peers
  contexts : after.objpoolPendingGroupWriteOp = state.objpoolPendingGroupWriteOp
  connecting : ∀ handle, after.connectingPeerGroups.lookup handle =
    if handle ∈ handles then none else state.connectingPeerGroups.lookup handle
  peerGroups : ∀ handle, after.peerGroups handle =
    if handle ∈ handles then (state.connectingPeerGroups.lookup handle).map (·.rmaQps) else state.peerGroups handle
  submitted : ∀ place, placed place after.history.submitted = placed place state.history.submitted ++
    if ∃ handle ∈ handles, place = .group handle then state.pending place else []

theorem connectGroup_connects {handle : PeerGroupHandle} (done : connectGroup rooms state handle = some after) :
    (∃ group, state.connectingPeerGroups.lookup handle = some group) ∧ Connects [handle] state after := by
  simp only [connectGroup, bind_eq_bind, bind_eq_some_iff] at done
  obtain ⟨group, found, drained⟩ := done
  have submits := Submits.fold drained (fun item => (.group handle, item.1, .group item.2))
    fun _ _ _ => doSubmitGroupWrite_submits
  obtain ⟨⟨udAddr, completions, nextQp, outbox, asked, refused, accepted⟩, peers, connecting,
    peerGroups, contexts, submitted⟩ := submits
  refine ⟨⟨group, found⟩, ⟨udAddr, completions, nextQp, outbox, asked, refused, accepted⟩, peers, contexts, ?_, ?_, ?_⟩
  · intro other
    rw [connecting]
    by_cases same : other = handle
    · rw [same, if_pos (mem_singleton_self _)]
      exact AList.lookup_erase ..
    · rw [if_neg (by simpa using same)]
      exact AList.lookup_erase_ne same
  · intro other
    rw [peerGroups]
    by_cases same : other = handle
    · rw [same, if_pos (mem_singleton_self _), found]
      exact Function.update_self ..
    · rw [if_neg (by simpa using same)]
      exact Function.update_of_ne same ..
  · intro place
    rw [submitted, placed_append, placed_map]
    by_cases same : place = .group handle
    · simp [same, pending, found]
    · simp [same, Ne.symm same]

theorem connectGroups_peers {handles : List PeerGroupHandle}
    (done : handles.foldlM (connectGroup rooms) state = some after) : after.peers = state.peers := by
  induction handles generalizing state with
  | nil =>
    cases done
    rfl
  | cons handle rest ih =>
    rw [foldlM_cons, bind_eq_bind, bind_eq_some_iff] at done
    obtain ⟨middle, first, later⟩ := done
    exact (ih later).trans (connectGroup_connects first).2.peers

theorem Connects.refl (state : VerbsDomain υ) : Connects [] state state :=
  ⟨.refl state, rfl, rfl, fun _ => by simp, fun _ => by simp, fun _ => by simp⟩

theorem connectGroups_connects {handles : List PeerGroupHandle} (distinct : handles.Nodup)
    (done : handles.foldlM (connectGroup rooms) state = some after) : Connects handles state after := by
  induction handles generalizing state with
  | nil =>
    cases done
    exact .refl _
  | cons handle rest ih =>
    rw [foldlM_cons, bind_eq_bind, bind_eq_some_iff] at done
    obtain ⟨middle, first, later⟩ := done
    obtain ⟨absent, distinct⟩ := nodup_cons.mp distinct
    obtain ⟨-, one⟩ := connectGroup_connects first
    have two := ih distinct later
    refine ⟨one.toFrame.trans two.toFrame, two.peers.trans one.peers, two.contexts.trans one.contexts, ?_, ?_, ?_⟩
    · intro other
      rw [two.connecting, one.connecting]
      by_cases same : other = handle
      · simp [same]
      · simp [same]
    · intro other
      rw [two.peerGroups, one.peerGroups, one.connecting]
      by_cases same : other = handle
      · simp [same, absent]
      · simp [same]
    · intro place
      rw [two.submitted, one.submitted, append_assoc]
      congr 1
      by_cases here : place = .group handle
      · subst here
        simp [absent]
      · by_cases there : ∃ other ∈ rest, place = .group other
        · obtain ⟨other, member, rfl⟩ := there
          have apart : other ≠ handle := by
            rintro rfl
            exact absent member
          simp [member, apart, pending, one.connecting]
        · simp [here, there]

/-- The contexts of a peer that was established: those that waited for it alone are
submitted and given back. -/
structure Strikes (rmaQp : Qp) (ptrs : List Nat) (state after : VerbsDomain υ) : Prop extends Frame state after where
  peers : after.peers = state.peers
  connecting : after.connectingPeerGroups = state.connectingPeerGroups
  peerGroups : after.peerGroups = state.peerGroups
  live : ∀ ptr ∈ ptrs, ∃ context, state.objpoolPendingGroupWriteOp.read ptr = some context
  contexts : ∀ ptr, after.objpoolPendingGroupWriteOp.read ptr =
    if ptr ∈ ptrs then (state.objpoolPendingGroupWriteOp.read ptr).bind fun context =>
      if context.Last rmaQp then none else some (context.without rmaQp)
    else state.objpoolPendingGroupWriteOp.read ptr
  submitted : ∀ place, placed place after.history.submitted = placed place state.history.submitted ++
    if ∃ ptr ∈ ptrs, place = .context ptr ∧ ∃ context, state.objpoolPendingGroupWriteOp.read ptr = some context ∧ context.Last rmaQp
    then state.pending place else []

theorem Strikes.refl (rmaQp : Qp) (state : VerbsDomain υ) : Strikes rmaQp [] state state :=
  ⟨.refl state, rfl, rfl, rfl, fun _ member => (not_mem_nil member).elim, fun _ => by simp, fun _ => by simp⟩

theorem strikeContext_strikes {ptr : Nat} (done : strikeContext rmaQp rooms state ptr = some after) :
    Strikes rmaQp [ptr] state after := by
  simp only [strikeContext, bind_eq_bind, bind_eq_some_iff] at done
  obtain ⟨context, held, done⟩ := done
  have live : ∀ other ∈ [ptr], ∃ context, state.objpoolPendingGroupWriteOp.read other = some context := by
    intro other member
    exact ⟨context, mem_singleton.mp member ▸ held⟩
  split at done
  next last =>
    have finishes : ∃ middle, Submits
      ((context.op.map fun op => (Place.context ptr, context.transferId,
      Operation.group op)).toList) state middle ∧
        ((middle.objpoolPendingGroupWriteOp.free ptr).bind fun pool =>
          some { middle with objpoolPendingGroupWriteOp := pool }) = some after := by
      cases taken : context.op with
      | none =>
        rw [taken] at done
        exact ⟨state, .refl state, done⟩
      | some op =>
        rw [taken] at done
        simp only [bind_eq_some_iff] at done
        obtain ⟨middle, submitted, freed⟩ := done
        exact ⟨middle, doSubmitGroupWrite_submits submitted, bind_eq_some_iff.mpr freed⟩
    obtain ⟨middle, submits, freed⟩ := finishes
    obtain ⟨pool, cleared, read⟩ := Pool.free_live (submits.contexts ▸ held)
    rw [cleared] at freed
    cases freed
    obtain ⟨⟨udAddr, completions, nextQp, outbox, asked, refused, accepted⟩, peers, connecting,
      peerGroups, contexts, submitted⟩ := submits
    refine ⟨⟨udAddr, completions, nextQp, outbox, asked, refused, accepted⟩, peers, connecting, peerGroups, live, ?_, ?_⟩
    · intro other
      rw [read, contexts]
      by_cases same : other = ptr
      · have ends : context.Last rmaQp := last
        simp [same, held, ends]
      · simp [same]
    · intro place
      rw [submitted, placed_append]
      congr 1
      by_cases same : place = .context ptr
      · subst same
        rw [if_pos ⟨ptr, mem_singleton_self _, rfl, context, held, last⟩, pending, held]
        cases taken : context.op <;> simp [taken]
      · rw [if_neg fun found => same (by obtain ⟨other, member, equal, -⟩ := found; rw [equal, mem_singleton.mp member])]
        cases context.op <;> simp [Ne.symm same]
  next more =>
    obtain ⟨pool, written, built⟩ := bind_eq_some_iff.mp done
    obtain ⟨expected, stored, read⟩ := Pool.write_live held (context.without rmaQp)
    have same : expected = pool := Option.some.inj (stored.symm.trans written)
    cases built
    refine ⟨⟨rfl, rfl, rfl, rfl, rfl, rfl, rfl⟩, rfl, rfl, rfl, live, ?_, ?_⟩
    · intro other
      rw [← same, read]
      by_cases equal : other = ptr
      · have ends : ¬ context.Last rmaQp := more
        simp [equal, held, ends]
      · simp [equal]
    · intro place
      rw [if_neg, append_nil]
      rintro ⟨other, member, -, found, known, ends⟩
      rw [mem_singleton.mp member, held] at known
      cases known
      exact more ends

theorem strikeContexts_strikes {ptrs : List Nat} (distinct : ptrs.Nodup)
    (done : ptrs.foldlM (strikeContext rmaQp rooms) state = some after) : Strikes rmaQp ptrs state after := by
  induction ptrs generalizing state with
  | nil =>
    cases done
    exact .refl ..
  | cons ptr rest ih =>
    rw [foldlM_cons, bind_eq_bind, bind_eq_some_iff] at done
    obtain ⟨middle, first, later⟩ := done
    obtain ⟨absent, distinct⟩ := nodup_cons.mp distinct
    have one := strikeContext_strikes first
    have two := ih distinct later
    have kept : ∀ other ∈ rest, middle.objpoolPendingGroupWriteOp.read other =
        state.objpoolPendingGroupWriteOp.read other := by
      intro other member
      rw [one.contexts, if_neg]
      intro single
      exact absent (mem_singleton.mp single ▸ member)
    refine ⟨one.toFrame.trans two.toFrame, two.peers.trans one.peers, two.connecting.trans one.connecting,
      two.peerGroups.trans one.peerGroups, ?_, ?_, ?_⟩
    · intro other member
      rcases mem_cons.mp member with same | member
      · exact one.live other (same ▸ mem_singleton_self _)
      · rw [← kept other member]
        exact two.live other member
    · intro other
      rw [two.contexts]
      by_cases later : other ∈ rest
      · simp [later, kept other later]
      · simp [later, one.contexts]
    · intro place
      rw [two.submitted, one.submitted, append_assoc]
      congr 1
      by_cases here : place = .context ptr
      · subst here
        simp [absent]
      · by_cases there : ∃ other ∈ rest, place = .context other
        · obtain ⟨other, member, rfl⟩ := there
          have apart : other ≠ ptr := fun same => absent (same ▸ member)
          simp [member, apart, pending, kept other member]
        · have none_ : ∀ other ∈ rest, place ≠ .context other := fun other member equal => there ⟨other, member, equal⟩
          rw [if_neg, if_neg, if_neg, append_nil]
          · rintro ⟨other, member, equal, -⟩
            rcases mem_cons.mp member with same | member
            · exact here (same ▸ equal)
            · exact none_ other member equal
          · rintro ⟨other, member, equal, -⟩
            exact none_ other member equal
          · rintro ⟨other, member, equal, -⟩
            exact here (mem_singleton.mp member ▸ equal)

def drained (state : VerbsDomain υ) (addr : DomainAddress) (peer : Peer υ) : Place → List (TransferId × Operation)
  | .peer other => if other = addr then peer.state.submits.map fun item => (item.1, .outbound item.2) else []
  | .group handle =>
    if ∃ group, state.connectingPeerGroups.lookup handle = some group ∧ group.Last peer.rmaRc.qp then state.pending (.group handle) else []
  | .context ptr =>
    if ptr ∈ peer.state.contexts ∧ ∃ context, state.objpoolPendingGroupWriteOp.read ptr = some context ∧ context.Last peer.rmaRc.qp
    then state.pending (.context ptr) else []
  | .nowhere => []

/-- A peer is established, and everything that waited for it alone is submitted. -/
structure Establishes (addr : DomainAddress) (peer : Peer υ) (info : PeerHandshakeInfo υ)
    (state after : VerbsDomain υ) : Prop
    extends Frame state after where
  peers : after.peers = state.peers.insert addr (peer.activated info)
  connecting : ∀ handle, after.connectingPeerGroups.lookup handle =
    (state.connectingPeerGroups.lookup handle).bind fun group =>
    if group.Last peer.rmaRc.qp then none else some (group.without peer.rmaRc.qp)
  peerGroups : ∀ handle, after.peerGroups handle =
    match state.connectingPeerGroups.lookup handle with
    | some group => if group.Last peer.rmaRc.qp then some group.rmaQps else state.peerGroups handle
    | none => state.peerGroups handle
  live : ∀ ptr ∈ peer.state.contexts, ∃ context, state.objpoolPendingGroupWriteOp.read ptr = some context
  contexts : ∀ ptr, after.objpoolPendingGroupWriteOp.read ptr =
    if ptr ∈ peer.state.contexts then (state.objpoolPendingGroupWriteOp.read ptr).bind fun context =>
      if context.Last peer.rmaRc.qp then none else some (context.without peer.rmaRc.qp)
    else state.objpoolPendingGroupWriteOp.read ptr
  submitted : ∀ place, placed place after.history.submitted =
    placed place state.history.submitted ++ state.drained addr peer place

private theorem mem_connectedPeerGroups (walks : order.Perm state.connectingPeerGroups.keys)
    (handle : PeerGroupHandle) : handle ∈ state.connectedPeerGroups rmaQp order ↔
      ∃ group, state.connectingPeerGroups.lookup handle = some group ∧ group.Last rmaQp := by
  rw [connectedPeerGroups, mem_filter]
  constructor
  · rintro ⟨-, holds⟩
    obtain ⟨group, found, last⟩ := (Option.any_eq_true ..).mp holds
    exact ⟨group, found, of_decide_eq_true last⟩
  · rintro ⟨group, found, last⟩
    refine ⟨walks.mem_iff.mpr (AList.lookup_isSome.mp ?_), (Option.any_eq_true ..).mpr ⟨group, found, decide_eq_true last⟩⟩
    rw [found]
    rfl

private theorem lookup_strikes_walked {groups : AList fun _ : PeerGroupHandle => ConnectingPeerGroup}
    (walks : order.Perm groups.keys) (handle : PeerGroupHandle) :
    (order.foldl (strike rmaQp) groups).lookup handle = (groups.lookup handle).map (·.without rmaQp) := by
  rw [lookup_strikes]
  cases found : groups.lookup handle with
  | none => rfl
  | some group =>
    have listed : handle ∈ order := walks.mem_iff.mpr (AList.lookup_isSome.mp (by rw [found]; rfl))
    simp [listed]

theorem establish_establishes {addr : DomainAddress} {peer : Peer υ} {info : PeerHandshakeInfo υ}
    (walks : order.Perm state.connectingPeerGroups.keys) (waiting : peer.state ≠ .established)
    (distinct : peer.state.contexts.Nodup)
    (done : state.establish addr peer info order rooms = some after) :
    Establishes addr peer info state after := by
  cases known : peer.state with
  | established => exact absurd known waiting
  | connecting pendingSubmits pendingGroupWriteOps =>
    simp only [establish, known, bind_eq_bind, bind_eq_some_iff] at done
    obtain ⟨second, drained_, third, connected, struck⟩ := done
    rw [known] at distinct
    -- The three loops one after another.
    have one := Submits.fold drained_ (fun item => (.peer addr, item.1, .outbound item.2))
      fun _ _ _ => doSubmitOutboundOp_submits
    rw [← one.connectingPeerGroups] at walks
    have once : (second.connectedPeerGroups peer.rmaRc.qp order).Nodup :=
      (walks.nodup_iff.mpr (AList.keys_nodup _)).filter _
    have two := connectGroups_connects once connected
    have three := strikeContexts_strikes distinct struck
    have members : ∀ handle, handle ∈ second.connectedPeerGroups peer.rmaRc.qp order ↔
        ∃ group, state.connectingPeerGroups.lookup handle = some group ∧ group.Last peer.rmaRc.qp := by
      intro handle
      rw [mem_connectedPeerGroups walks, one.connectingPeerGroups]
    have lookups : ∀ handle, (order.foldl (strike peer.rmaRc.qp) second.connectingPeerGroups).lookup handle =
        (state.connectingPeerGroups.lookup handle).map (·.without peer.rmaRc.qp) := by
      intro handle
      rw [lookup_strikes_walked walks, one.connectingPeerGroups]
    have pools : third.objpoolPendingGroupWriteOp = state.objpoolPendingGroupWriteOp := two.contexts.trans one.contexts
    have first : Frame state second :=
      ⟨one.udAddr, one.completions, one.nextQp, one.outbox, one.asked, one.refused, one.accepted⟩
    have next : Frame second third :=
      ⟨two.udAddr, two.completions, two.nextQp, two.outbox, two.asked, two.refused, two.accepted⟩
    refine ⟨first.trans (next.trans three.toFrame), three.peers.trans (two.peers.trans one.peers), ?_, ?_, ?_, ?_, ?_⟩
    · intro handle
      rw [three.connecting, two.connecting]
      by_cases last : handle ∈ second.connectedPeerGroups peer.rmaRc.qp order
      · obtain ⟨group, found, ends⟩ := (members handle).mp last
        rw [if_pos last, found, bind_some, if_pos ends]
      · rw [if_neg last, lookups]
        cases found : state.connectingPeerGroups.lookup handle with
        | none => rfl
        | some group =>
          rw [map_some, bind_some, if_neg fun ends => last ((members handle).mpr ⟨group, found, ends⟩)]
    · intro handle
      rw [three.peerGroups, two.peerGroups]
      by_cases last : handle ∈ second.connectedPeerGroups peer.rmaRc.qp order
      · obtain ⟨group, found, ends⟩ := (members handle).mp last
        rw [if_pos last, lookups, found, map_some, map_some]
        exact (if_pos ends).symm
      · rw [if_neg last]
        cases found : state.connectingPeerGroups.lookup handle with
        | none => exact congrFun one.peerGroups handle
        | some group =>
          exact (congrFun one.peerGroups handle).trans (if_neg fun ends =>
            last ((members handle).mpr ⟨group, found, ends⟩)).symm
    · intro ptr member
      rw [known] at member
      rw [← pools]
      exact three.live ptr member
    · intro ptr
      rw [three.contexts, pools, known]
    · intro place
      rw [three.submitted, two.submitted, one.submitted, placed_append, placed_map, append_assoc, append_assoc]
      congr 1
      cases place with
      | peer other =>
        by_cases same : addr = other
        · subst same
          simp [drained, known, PeerState.submits]
        · simp [drained, same, Ne.symm same]
      | group handle =>
        have waits :
          ({ second with connectingPeerGroups := order.foldl (strike peer.rmaRc.qp) second.connectingPeerGroups } : VerbsDomain υ).pending
            (.group handle) = state.pending (.group handle) := by
          simp only [pending, lookups]
          cases state.connectingPeerGroups.lookup handle <;> rfl
        have same : (∃ other ∈ second.connectedPeerGroups peer.rmaRc.qp order, Place.group handle = .group other) ↔
            ∃ group, state.connectingPeerGroups.lookup handle = some group ∧ group.Last peer.rmaRc.qp := by
          rw [← members]
          simp
        simp only [waits, same, drained]
        simp
      | context ptr =>
        have waits : third.pending (.context ptr) = state.pending (.context ptr) := by simp only [pending, pools]
        simp only [waits, pools, drained, known]
        simp only [reduceCtorEq, and_false, exists_false, if_false, nil_append, Place.context.injEq, PeerState.contexts]
        refine if_congr ?_ rfl rfl
        constructor
        · rintro ⟨other, member, rfl, last⟩
          exact ⟨member, last⟩
        · rintro ⟨member, last⟩
          exact ⟨ptr, member, rfl, last⟩
      | nowhere => simp [drained]

def newPeer (state : VerbsDomain υ) (udAddr : υ) (supply : Supply) (pendingSubmits : List (TransferId × OutboundOp))
    (pendingGroupWriteOps : List Nat) : Peer υ where
  udAddr := udAddr
  msgRc := ⟨state.nextQp, supply.msgQpNum, 123, none⟩
  rmaRc := ⟨state.nextQp + 1, supply.rmaQpNum, 456, none⟩
  state := .connecting pendingSubmits pendingGroupWriteOps

section
variable {addressing : Addressing υ} {addr : DomainAddress} {supply : Supply} {pendingSubmits : List (TransferId × OutboundOp)}
  {pendingGroupWriteOps : List Nat} {peer : Peer υ}

theorem initiate_ok
    (done : state.initiate addressing addr supply pendingSubmits pendingGroupWriteOps =
      .ok (peer, after)) :
    ∃ udAddr, addressing.fromBytes addr = some udAddr ∧
      peer = state.newPeer udAddr supply pendingSubmits pendingGroupWriteOps ∧
      after = { state.insertPeer addr peer with outbox := state.outbox ++ [(udAddr, state.handshakeInfo peer)] } := by
  unfold initiate createPeer at done
  cases decoded : addressing.fromBytes addr with
  | none =>
    rw [decoded] at done
    cases done
  | some udAddr =>
    rw [decoded] at done
    cases failed : supply.failure with
    | none =>
      simp only [failed, connectPeer] at done
      cases done
      exact ⟨udAddr, rfl, rfl, rfl⟩
    | some failure =>
      cases failure with
      | create reason =>
        simp only [failed] at done
        cases done
      | alloc =>
        simp only [failed, connectPeer] at done
        cases done
      | send reason =>
        simp only [failed, connectPeer] at done
        cases done

theorem initiate_error {reason : FabricLibError}
    (done : state.initiate addressing addr supply pendingSubmits pendingGroupWriteOps = .error (reason, after)) :
    after = state ∨ supply.Late ∧ ∃ udAddr, addressing.fromBytes addr = some udAddr ∧
      after = state.insertPeer addr (state.newPeer udAddr supply pendingSubmits pendingGroupWriteOps) := by
  unfold initiate createPeer at done
  cases decoded : addressing.fromBytes addr with
  | none =>
    rw [decoded] at done
    cases done
    exact .inl rfl
  | some udAddr =>
    rw [decoded] at done
    cases failed : supply.failure with
    | none =>
      simp only [failed, connectPeer] at done
      cases done
    | some failure =>
      cases failure with
      | create reason =>
        simp only [failed] at done
        cases done
        exact .inl rfl
      | alloc =>
        simp only [failed, connectPeer] at done
        cases done
        exact .inr ⟨by simp [Supply.Late, failed], udAddr, rfl, rfl⟩
      | send reason =>
        simp only [failed, connectPeer] at done
        cases done
        exact .inr ⟨by simp [Supply.Late, failed], udAddr, rfl, rfl⟩

end

theorem Gathering.claim_peers (gathering : Gathering υ) (shares : Bool) :
    (gathering.claim shares).domain.peers = gathering.domain.peers := by
  unfold Gathering.claim
  split <;> rfl

def Gathering.join (gathering : Gathering υ) (peer : Peer υ) (domain : VerbsDomain υ) : Gathering υ :=
  { gathering with
    domain
    rmaQps := gathering.rmaQps ++ [peer.rmaRc.qp]
    pendingPeers := insert peer.rmaRc.qp gathering.pendingPeers }

/-- The loop over the peers of a group: a peer is known, or its connection fails, or it
joins the group. -/
theorem gather_rule {addressing : Addressing υ} {shares : Bool} {supply : DomainAddress → Supply}
    {addrs : List DomainAddress} {during : Gathering υ → Prop}
    {failed : FabricLibError × DomainAddress × VerbsDomain υ → Prop}
    (start : during ⟨state, [], ∅, none⟩)
    (known : ∀ {gathering addr peer}, during gathering → addr ∈ addrs →
      gathering.domain.peers.lookup addr = some peer →
      during { gathering with rmaQps := gathering.rmaQps ++ [peer.rmaRc.qp] })
    (fails : ∀ {gathering addr reason domain}, during gathering → addr ∈ addrs →
      (gathering.claim shares).domain.peers.lookup addr = none →
      (gathering.claim shares).domain.initiate addressing addr (supply addr) []
      (gathering.claim shares).ctxPtr.toList = .error (reason, domain) →
      failed (reason, addr, domain))
    (joins : ∀ {gathering addr peer domain}, during gathering → addr ∈ addrs →
      (gathering.claim shares).domain.peers.lookup addr = none →
      (gathering.claim shares).domain.initiate addressing addr (supply addr) []
      (gathering.claim shares).ctxPtr.toList = .ok (peer, domain) →
      during ((gathering.claim shares).join peer domain)) :
    (∀ gathering, state.gather addressing shares supply addrs = .ok gathering → during gathering) ∧
      ∀ error, state.gather addressing shares supply addrs = .error error → failed error := by
  refine foldlM_except start fun addr member gathering holds => ?_
  unfold Gathering.visit
  cases found : gathering.domain.peers.lookup addr with
  | some peer =>
    refine ⟨fun next done => ?_, fun error failure => by cases failure⟩
    cases done
    exact known holds member found
  | none =>
    have absent : (gathering.claim shares).domain.peers.lookup addr = none := by rw [gathering.claim_peers, found]
    cases made : (gathering.claim shares).domain.initiate addressing addr (supply addr) []
      (gathering.claim shares).ctxPtr.toList with
    | error failure =>
      obtain ⟨reason, domain⟩ := failure
      refine ⟨fun next done => by simp [made] at done, fun error failure => ?_⟩
      simp only [made] at failure
      cases failure
      exact fails holds member absent made
    | ok created =>
      obtain ⟨peer, domain⟩ := created
      refine ⟨fun next done => ?_, fun error failure => by simp [made] at failure⟩
      simp only [made] at done
      cases done
      exact joins holds member absent made

section
variable (addressing : Addressing υ) (state : VerbsDomain υ) (transferId : TransferId) (destAddr : DomainAddress) (op : OutboundOp)
  (supply : Supply) (rooms : Nat → Nat)

/-- The ways in which a domain takes an outbound operation. -/
inductive Takes : VerbsDomain υ → Prop
  | submits {peer after} (found : state.peers.lookup destAddr = some peer) (known : peer.state = .established)
      (done : (state.accept (.peer destAddr) transferId (.outbound op)).doSubmitOutboundOp (.peer destAddr) transferId op
        peer.msgRc.qp peer.rmaRc.qp rooms = some after) : Takes after
  | queues {peer pendingSubmits pendingGroupWriteOps} (found : state.peers.lookup destAddr = some peer)
      (known : peer.state = .connecting pendingSubmits pendingGroupWriteOps) :
      Takes { state.accept (.peer destAddr) transferId (.outbound op) with
        peers := state.peers.insert destAddr { peer with
          state := .connecting (pendingSubmits ++ [(transferId, op)]) pendingGroupWriteOps } }
  | fails {reason domain} (missing : state.peers.lookup destAddr = none)
      (made : state.initiate addressing destAddr supply [(transferId, op)] [] = .error (reason, domain)) :
      Takes (domain.refuse transferId (.outbound op) (failedToCreatePeer destAddr reason))
  | connects {peer domain} (missing : state.peers.lookup destAddr = none)
      (made : state.initiate addressing destAddr supply [(transferId, op)] [] = .ok (peer, domain)) :
      Takes (domain.accept (.peer destAddr) transferId (.outbound op))

variable {addressing state transferId destAddr op supply rooms}

theorem submitOutboundOp_takes
    (done : state.submitOutboundOp addressing transferId destAddr op supply rooms = some after) :
    Takes addressing (state.ask transferId (.outbound op)) transferId destAddr op supply rooms
      after := by
  unfold submitOutboundOp at done
  simp only at done
  split at done
  next found =>
    split at done
    next known => exact .submits found known done
    next known =>
      cases done
      exact .queues found known
  next missing =>
    split at done
    next made =>
      cases done
      exact .connects missing made
    next made =>
      cases done
      exact .fails missing made

end

section
variable (addressing : Addressing υ) (state : VerbsDomain υ) (transferId : TransferId) (op : ScatterGroupWriteOp)
  (supply : DomainAddress → Supply) (rooms : Nat → Nat)

/-- The ways in which a domain takes a group write. -/
inductive TakesGroup : Option PeerGroupHandle → VerbsDomain υ → Prop
  | queues {handle group} (waiting : state.connectingPeerGroups.lookup handle = some group) :
      TakesGroup (some handle) { state.accept (.group handle) transferId (.group op) with
        connectingPeerGroups := state.connectingPeerGroups.insert handle
          { group with pendingGroupOps := group.pendingGroupOps ++ [(transferId, op)] } }
  | unknown {handle} : TakesGroup (some handle) (state.refuse transferId (.group op) (.custom "Peer group not found"))
  | submits {handle rmaQps after} (connected : state.connectingPeerGroups.lookup handle = none)
    (known : state.peerGroups handle = some rmaQps)
      (done : (state.accept (.group handle) transferId (.group op)).doSubmitGroupWrite
        (.group handle) transferId rmaQps op rooms = some after) :
      TakesGroup (some handle) after
  | fails {addrs reason addr domain} (listed : op.peerAddrs = some addrs)
      (gathered : state.gather addressing true supply addrs = .error (reason, addr, domain)) :
      TakesGroup none (domain.refuse transferId (.group op) (failedToCreatePeer addr reason))
  | gathers {addrs gathering after} (listed : op.peerAddrs = some addrs)
      (gathered : state.gather addressing true supply addrs = .ok gathering)
      (done : (if gathering.pendingPeers = ∅ then
          (gathering.domain.accept .nowhere transferId (.group op)).doSubmitGroupWrite .nowhere
            transferId gathering.rmaQps op rooms
        else park transferId op gathering) = some after) : TakesGroup none after

variable {addressing state transferId op supply rooms}

theorem submitGroupWrite_takes {handle : Option PeerGroupHandle}
    (done : state.submitGroupWrite addressing transferId handle op supply rooms = some after) :
    TakesGroup addressing (state.ask transferId (.group op)) transferId op supply rooms handle after := by
  cases handle with
  | some handle =>
    simp only [submitGroupWrite] at done
    split at done
    next waiting =>
      cases done
      exact .queues waiting
    next connected =>
      split at done
      next =>
        cases done
        exact .unknown
      next known => exact .submits connected known done
  | none =>
    simp only [submitGroupWrite, bind_eq_bind, bind_eq_some_iff] at done
    obtain ⟨addrs, listed, done⟩ := done
    split at done
    next gathered =>
      cases done
      exact .fails listed gathered
    next gathered => exact .gathers listed gathered done

end

/-- A handshake establishes a peer that is known, or one that it connects first. -/
theorem handlePeerHandshake_establishes {addressing : Addressing υ} {info : PeerHandshakeInfo υ} {supply : Supply}
    (done : state.handlePeerHandshake addressing info supply order rooms = some after) :
    order.Perm state.connectingPeerGroups.keys ∧ ∃ before peer,
      before.establish (addressing.address info.udAddr) peer info order rooms = some after ∧
      (state.peers.lookup (addressing.address info.udAddr) = some peer ∧ before = state ∨
        state.peers.lookup (addressing.address info.udAddr) = none ∧
          state.initiate addressing (addressing.address info.udAddr) supply [] [] = .ok (peer, before)) := by
  unfold handlePeerHandshake at done
  simp only at done
  split at done
  next walks =>
    refine ⟨isPerm_iff.mp walks, ?_⟩
    split at done
    next peer found => exact ⟨state, peer, done, .inl ⟨found, rfl⟩⟩
    next missing =>
      split at done
      next peer before made => exact ⟨before, peer, done, .inr ⟨missing, made⟩⟩
      next => cases done
  next => cases done

end VerbsDomain

end PplxGarden.Fabric.Verbs
