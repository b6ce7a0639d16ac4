import PplxGarden.Fabric.EfaDomain
import PplxGarden.Fabric.VerbsDomain

/-! How a domain group registers a peer group with its domains. A domain keeps a group as the
list of the endpoints it has for the addresses. `none` is a panic. -/

namespace PplxGarden.Fabric

/-- `add_peer_group` of `EfaDomain`, with its result: the address that is not resolved. -/
def Efa.EfaDomain.addPeerGroupResult (state : EfaDomain) (handle : PeerGroupHandle) (addrs : List DomainAddress)
    (insert : DomainAddress → Option FiAddr) : Option (Except DomainAddress Unit × EfaDomain) :=
  if (state.peerGroups handle).isSome then some (.ok (), state)
  else do
    match ← resolve insert (addrs.map some) state with
    | (.error addr, state) => return (.error addr, state)
    | (.ok fiAddrs, state) => return (.ok (), { state with peerGroups := Function.update state.peerGroups handle (some fiAddrs) })

/-- A kind of domain, seen through its peer groups. `endpoint` is what a domain has for an
address, and `peerGroup` a group that is connecting or connected. A group that is added is
made of the endpoints of its addresses; endpoints and groups that are there stay. -/
structure PeerProvider (D β η ε : Type) where
  addPeerGroup : D → PeerGroupHandle → List DomainAddress → ε → Option (Except η Unit × D)
  endpoint : D → DomainAddress → Option β
  peerGroup : D → PeerGroupHandle → Option (List β)
  added : ∀ {domain after handle addrs answer}, addPeerGroup domain handle addrs answer = some (.ok (), after) → peerGroup domain handle = none →
    ∃ endpoints, peerGroup after handle = some endpoints ∧ endpoints.map some = addrs.map (endpoint after)
  endpoints : ∀ {domain after handle addrs answer result}, addPeerGroup domain handle addrs answer = some (result, after) →
    ∀ {addr found}, endpoint domain addr = some found → endpoint after addr = some found
  others : ∀ {domain after handle addrs answer result}, addPeerGroup domain handle addrs answer = some (result, after) →
    ∀ {other}, other ≠ handle ∨ peerGroup domain other ≠ none → peerGroup after other = peerGroup domain other

/-- The part of a domain group that knows of peer groups. -/
structure PeerGroups (D : Type) (N : Nat) where
  domains : Fin N → D
  nextPeerGroupHandle : Nat
  peerGroups : List (PeerGroupHandle × List (List DomainAddress))

/-- The addresses of a call, one for each domain of a peer, and what the domains meet with. -/
structure AddPeerGroup (N : Nat) (ε : Type) where
  addrs : List (List DomainAddress)
  answers : Fin N → ε

namespace PeerGroups

variable {D β η ε : Type} {N : Nat}

def new (domains : Fin N → D) : PeerGroups D N where
  domains := domains
  nextPeerGroupHandle := 0
  peerGroups := []

/-- The addresses of a domain; a peer with too few of them panics. -/
def domainAddrs (addrs : List (List DomainAddress)) (i : Fin N) : Option (List DomainAddress) := addrs.mapM fun addr => addr[i.val]?

variable (provider : PeerProvider D β η ε) (call : AddPeerGroup N ε)

/-- The loop over the domains, up to the first that fails. -/
def registerEach (handle : PeerGroupHandle) : List (Fin N) → (Fin N → D) → Option (Except η Unit × (Fin N → D))
  | [], domains => some (.ok (), domains)
  | i :: rest, domains => do
    let addrs ← domainAddrs call.addrs i
    let (result, domain) ← provider.addPeerGroup (domains i) handle addrs (call.answers i)
    let domains := Function.update domains i domain
    match result with
    | .error error => return (.error error, domains)
    | .ok () => registerEach handle rest domains

/-- The handle is recorded before the domains are asked. No two groups have the same
addresses, so that the order of the map does not matter. -/
def addPeerGroup (group : PeerGroups D N) : Option (Except η PeerGroupHandle × PeerGroups D N) :=
  match group.peerGroups.find? fun entry => entry.2 = call.addrs with
  | some (handle, _) => some (.ok handle, group)
  | none => do
    let handle := group.nextPeerGroupHandle
    let group := { group with
      nextPeerGroupHandle := (handle + 1) % 2 ^ 32
      peerGroups := (handle, call.addrs) :: group.peerGroups.filter fun entry => entry.1 ≠ handle }
    let (result, domains) ← registerEach provider call handle (List.finRange N) group.domains
    return (result.map fun () => handle, { group with domains })

end PeerGroups

end PplxGarden.Fabric
