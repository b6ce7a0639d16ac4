import PplxGarden.Proofs.Established
import PplxGarden.Proofs.PeerProviders

/-! A handle is valid on every domain as long as no registration fails. The group records the
handle before it asks the domains, so that a later call finds it even if a domain refused. -/

namespace PplxGarden.Fabric.Proofs
open PeerGroups Function List Option

variable {D β η ε : Type} {N : Nat}
variable {after : PeerGroups D N} {result : Except η PeerGroupHandle}

def HoldsGroup (provider : PeerProvider D β η ε) (domain : D) (handle : PeerGroupHandle)
    (addrs : List DomainAddress) : Prop :=
  ∃ endpoints, provider.peerGroup domain handle = some endpoints ∧ endpoints.map some = addrs.map (provider.endpoint domain)

/-- A call whose handle is valid on every domain and was not returned for other addresses, or
that fails and records nothing. The handles in `returned` were returned before. -/
structure ValidCall (provider : PeerProvider D β η ε)
    (returned : List (List (List DomainAddress) × PeerGroupHandle)) (before : PeerGroups D N)
    (addrs : List (List DomainAddress)) (result : Except η PeerGroupHandle)
    (after : PeerGroups D N) :
    Prop where
  valid : ∀ handle, result = .ok handle → ∀ i, ∃ own, domainAddrs addrs i = some own ∧
    HoldsGroup provider (after.domains i) handle own
  distinct : ∀ handle, result = .ok handle → ∀ other, (other, handle) ∈ returned → other = addrs
  unchanged : ∀ error, result = .error error → ∀ entry, entry ∈ after.peerGroups ↔ entry ∈ before.peerGroups

/-- The addresses are recorded, or the next handle is not in use and every domain agrees to a
group of its own component. -/
def CleanCall (provider : PeerProvider D β η ε) (before : PeerGroups D N) (call : AddPeerGroup N ε) : Prop :=
  (∃ handle, (handle, call.addrs) ∈ before.peerGroups) ∨
    (∀ other, (before.nextPeerGroupHandle, other) ∉ before.peerGroups) ∧
      ∀ i, ∃ own domain, domainAddrs call.addrs i = some own ∧
        provider.addPeerGroup (before.domains i) before.nextPeerGroupHandle own (call.answers i) = some (.ok (), domain)

def handed (addrs : List (List DomainAddress)) :
    Except η PeerGroupHandle → List (List (List DomainAddress) × PeerGroupHandle)
  | .ok handle => [(addrs, handle)]
  | .error _ => []

/-- Every call of a run is valid, up to a panic. -/
def ValidRun (provider : PeerProvider D β η ε) :
    List (List (List DomainAddress) × PeerGroupHandle) → PeerGroups D N → List (AddPeerGroup N ε) →
      Prop
  | _, _, [] => True
  | returned, group, call :: calls => ∀ result after, group.addPeerGroup provider call = some (result, after) →
    ValidCall provider returned group call.addrs result after ∧
      ValidRun provider (returned ++ handed call.addrs result) after calls

def CleanRun (provider : PeerProvider D β η ε) : PeerGroups D N → List (AddPeerGroup N ε) → Prop
  | _, [] => True
  | group, call :: calls => ∀ result after, group.addPeerGroup provider call = some (result, after) →
    CleanCall provider group call ∧ CleanRun provider after calls

section
variable {provider : PeerProvider D β η ε}

theorem HoldsGroup.kept {domain after : D} {handle other : PeerGroupHandle}
    {addrs own : List DomainAddress} {answer : ε} {result : Except η Unit}
    (holds : HoldsGroup provider domain handle own)
    (done : provider.addPeerGroup domain other addrs answer = some (result, after)) :
    HoldsGroup provider after handle own := by
  obtain ⟨endpoints, found, listed⟩ := holds
  refine ⟨endpoints, (provider.others done (Or.inr (by rw [found]; exact some_ne_none _))).trans found, listed.trans ?_⟩
  apply map_congr_left
  intro addr member
  have known : provider.endpoint domain addr ∈ endpoints.map some := listed ▸ List.mem_map_of_mem member
  obtain ⟨endpoint, _, same⟩ := List.mem_map.mp known
  rw [← same, provider.endpoints done same.symm]

section
variable {call : AddPeerGroup N ε} {handle : PeerGroupHandle} {order : List (Fin N)} {domains after : Fin N → D} {i : Fin N}

private theorem registerEach_cons {head : Fin N}
    (done : registerEach provider call handle (head :: order) domains = some (.ok (), after)) :
    ∃ own domain, domainAddrs call.addrs head = some own ∧
      provider.addPeerGroup (domains head) handle own (call.answers head) = some (.ok (), domain) ∧
      registerEach provider call handle order (update domains head domain) =
        some (.ok (), after) := by
  obtain ⟨own, listed, rest⟩ := bind_eq_some_iff.mp done
  obtain ⟨⟨result, domain⟩, asked, rest⟩ := bind_eq_some_iff.mp rest
  cases result with
  | error => cases rest
  | ok => exact ⟨own, domain, listed, asked, rest⟩

private theorem registerEach_other (absent : i ∉ order)
    (done : registerEach provider call handle order domains = some (.ok (), after)) :
    after i = domains i := by
  induction order generalizing domains with
  | nil =>
    cases done
    rfl
  | cons head order ih =>
    obtain ⟨_, domain, _, _, rest⟩ := registerEach_cons done
    rw [mem_cons, not_or] at absent
    rw [ih absent.2 rest, update_of_ne absent.1]

theorem registerEach_asks (nodup : order.Nodup) (member : i ∈ order)
    (done : registerEach provider call handle order domains = some (.ok (), after)) :
    ∃ own, domainAddrs call.addrs i = some own ∧
      provider.addPeerGroup (domains i) handle own (call.answers i) = some (.ok (), after i) := by
  induction order generalizing domains with
  | nil => cases member
  | cons head order ih =>
    obtain ⟨fresh, nodup⟩ := nodup_cons.mp nodup
    obtain ⟨own, domain, listed, asked, rest⟩ := registerEach_cons done
    rcases mem_cons.mp member with rfl | later
    · have kept := registerEach_other fresh rest
      rw [update_self] at kept
      exact ⟨own, listed, kept ▸ asked⟩
    · obtain ⟨own', listed', asked'⟩ := ih nodup later rest
      rw [update_of_ne (ne_of_mem_of_not_mem later fresh)] at asked'
      exact ⟨own', listed', asked'⟩

end

theorem registerEach_agrees {call : AddPeerGroup N ε} {handle : PeerGroupHandle}
    {order : List (Fin N)} {domains : Fin N → D} (nodup : order.Nodup)
    (agree : ∀ i ∈ order, ∃ own domain, domainAddrs call.addrs i = some own ∧
      provider.addPeerGroup (domains i) handle own (call.answers i) = some (.ok (), domain)) :
    ∃ after, registerEach provider call handle order domains = some (.ok (), after) := by
  induction order generalizing domains with
  | nil => exact ⟨domains, rfl⟩
  | cons head order ih =>
    obtain ⟨fresh, nodup⟩ := nodup_cons.mp nodup
    obtain ⟨own, domain, listed, asked⟩ := agree head mem_cons_self
    have later : ∀ i ∈ order, ∃ own domain', domainAddrs call.addrs i = some own ∧
        provider.addPeerGroup (update domains head domain i) handle own (call.answers i) = some (.ok (), domain') := by
      intro i member
      rw [update_of_ne (ne_of_mem_of_not_mem member fresh)]
      exact agree i (mem_cons_of_mem _ member)
    obtain ⟨after, rest⟩ := ih nodup later
    refine ⟨after, bind_eq_some_iff.mpr ⟨own, listed, ?_⟩⟩
    exact bind_eq_some_iff.mpr ⟨_, asked, rest⟩

/-- A call finds the handle of its addresses, or records a new one and asks the domains. -/
theorem addPeerGroup_cases {call : AddPeerGroup N ε} {group : PeerGroups D N}
    (done : group.addPeerGroup provider call = some (result, after)) :
    (∃ handle, (handle, call.addrs) ∈ group.peerGroups ∧ result = .ok handle ∧ after = group) ∨
      (∀ handle, (handle, call.addrs) ∉ group.peerGroups) ∧ ∃ outcome domains,
        registerEach provider call group.nextPeerGroupHandle (finRange N) group.domains =
          some (outcome, domains) ∧
        result = outcome.map (fun () => group.nextPeerGroupHandle) ∧ after = {
          domains
          nextPeerGroupHandle := (group.nextPeerGroupHandle + 1) % 2 ^ 32
          peerGroups := (group.nextPeerGroupHandle, call.addrs) ::
            group.peerGroups.filter fun entry => entry.1 ≠ group.nextPeerGroupHandle } := by
  unfold PeerGroups.addPeerGroup at done
  split at done
  next handle addrs found =>
    cases done
    have same : addrs = call.addrs := by simpa using find?_some found
    exact Or.inl ⟨handle, same ▸ mem_of_find?_eq_some found, rfl, rfl⟩
  next missing =>
    obtain ⟨⟨outcome, domains⟩, asked, built⟩ := bind_eq_some_iff.mp done
    cases built
    refine Or.inr ⟨?_, outcome, domains, asked, rfl, rfl⟩
    intro handle member
    exact find?_eq_none.mp missing _ member (decide_eq_true rfl)

/-- After clean calls: the recorded groups are those that were returned, every domain has
them, and no domain has another. -/
structure Settled (provider : PeerProvider D β η ε)
    (returned : List (List (List DomainAddress) × PeerGroupHandle)) (group : PeerGroups D N) :
    Prop where
  held : ∀ handle addrs, (handle, addrs) ∈ group.peerGroups →
    ∀ i, ∃ own, domainAddrs addrs i = some own ∧ HoldsGroup provider (group.domains i) handle own
  recorded : ∀ i handle, provider.peerGroup (group.domains i) handle ≠ none → ∃ addrs, (handle, addrs) ∈ group.peerGroups
  returned : ∀ addrs handle, (addrs, handle) ∈ returned ↔ (handle, addrs) ∈ group.peerGroups
  single : ∀ handle addrs other, (handle, addrs) ∈ group.peerGroups → (handle, other) ∈ group.peerGroups → other = addrs

section
variable {returned : List (List (List DomainAddress) × PeerGroupHandle)} {group : PeerGroups D N} {call : AddPeerGroup N ε}

section
variable (settled : Settled provider returned group)
include settled

theorem Settled.registers (free : ∀ other, (group.nextPeerGroupHandle, other) ∉ group.peerGroups)
    {domains : Fin N → D}
    (asked : registerEach provider call group.nextPeerGroupHandle (finRange N) group.domains =
      some (.ok (), domains)) (i : Fin N) :
    (∃ own, domainAddrs call.addrs i = some own ∧
      HoldsGroup provider (domains i) group.nextPeerGroupHandle own) ∧
      (∀ handle own, HoldsGroup provider (group.domains i) handle own →
        HoldsGroup provider (domains i) handle own) ∧
      ∀ handle, handle ≠ group.nextPeerGroupHandle →
        provider.peerGroup (domains i) handle = provider.peerGroup (group.domains i) handle := by
  obtain ⟨own, listed, agreed⟩ := registerEach_asks (nodup_finRange N) (mem_finRange i) asked
  have absent : provider.peerGroup (group.domains i) group.nextPeerGroupHandle = none := by
    by_contra taken
    obtain ⟨other, member⟩ := settled.recorded i _ taken
    exact free other member
  exact ⟨⟨own, listed, provider.added agreed absent⟩, fun _ _ holds => holds.kept agreed,
    fun _ apart => provider.others agreed (Or.inl apart)⟩

theorem validCall_iff
    (done : group.addPeerGroup provider call = some (result, after)) :
    ValidCall provider returned group call.addrs result after ↔ CleanCall provider group call := by
  rcases addPeerGroup_cases done with ⟨handle, member, rfl, rfl⟩ | ⟨unknown, outcome, domains, asked, rfl, rfl⟩
  · refine iff_of_true ⟨?_, ?_, ?_⟩ (Or.inl ⟨handle, member⟩)
    · rintro _ ⟨⟩
      exact settled.held handle call.addrs member
    · rintro _ ⟨⟩ other earlier
      exact settled.single handle call.addrs other member ((settled.returned other handle).mp earlier)
    · rintro _ ⟨⟩
  · cases outcome with
    | error error =>
      -- The handle was recorded although a domain refused.
      refine iff_of_false ?_ ?_
      · intro valid
        exact unknown _ ((valid.unchanged error rfl _).mp (mem_cons_self ..))
      · rintro (⟨handle, member⟩ | ⟨_, agree⟩)
        · exact unknown handle member
        · obtain ⟨_, agreed⟩ := registerEach_agrees (nodup_finRange N) fun i _ => agree i
          rw [agreed] at asked
          cases asked
    | ok =>
      have agree : ∀ i, ∃ own domain, domainAddrs call.addrs i = some own ∧
          provider.addPeerGroup (group.domains i) group.nextPeerGroupHandle own (call.answers i) =
            some (.ok (), domain) := by
        intro i
        obtain ⟨own, listed, agreed⟩ := registerEach_asks (nodup_finRange N) (mem_finRange i) asked
        exact ⟨own, _, listed, agreed⟩
      by_cases free : ∀ other, (group.nextPeerGroupHandle, other) ∉ group.peerGroups
      · refine iff_of_true ⟨?_, ?_, ?_⟩ (Or.inr ⟨free, agree⟩)
        · rintro _ ⟨⟩ i
          exact (settled.registers free asked i).1
        · rintro _ ⟨⟩ other earlier
          exact absurd ((settled.returned other _).mp earlier) (free other)
        · rintro _ ⟨⟩
      · refine iff_of_false ?_ ?_
        · intro valid
          push Not at free
          obtain ⟨other, taken⟩ := free
          have same := valid.distinct _ rfl other ((settled.returned other _).mpr taken)
          exact unknown _ (same ▸ taken)
        · rintro (⟨handle, member⟩ | ⟨unused, _⟩)
          · exact unknown handle member
          · exact free unused

theorem Settled.step
    (done : group.addPeerGroup provider call = some (result, after)) (clean : CleanCall provider group call) :
    Settled provider (returned ++ handed call.addrs result) after := by
  rcases addPeerGroup_cases done with ⟨handle, member, rfl, rfl⟩ | ⟨unknown, outcome, domains, asked, rfl, rfl⟩
  · refine ⟨settled.held, settled.recorded, ?_, settled.single⟩
    intro addrs other
    rw [handed, mem_append, settled.returned, mem_singleton, Prod.mk.injEq, or_iff_left_of_imp]
    rintro ⟨rfl, rfl⟩
    exact member
  · obtain ⟨free, agree⟩ := clean.resolve_left (not_exists.mpr unknown)
    obtain ⟨_, agreed⟩ := registerEach_agrees (nodup_finRange N) fun i _ => agree i
    obtain rfl : outcome = .ok () := by
      rw [agreed] at asked
      cases asked
      rfl
    have kept : group.peerGroups.filter (fun entry => entry.1 ≠ group.nextPeerGroupHandle) = group.peerGroups := by
      apply filter_eq_self.mpr
      rintro ⟨handle, other⟩ member
      refine decide_eq_true ?_
      rintro rfl
      exact free other member
    rw [kept]
    constructor
    · intro handle addrs member i
      obtain ⟨added, holds, _⟩ := settled.registers free asked i
      rcases mem_cons.mp member with same | earlier
      · cases same
        exact added
      · obtain ⟨own, listed, held⟩ := settled.held handle addrs earlier i
        exact ⟨own, listed, holds handle own held⟩
    · intro i handle found
      by_cases same : handle = group.nextPeerGroupHandle
      · exact ⟨call.addrs, same ▸ mem_cons_self ..⟩
      · rw [(settled.registers free asked i).2.2 handle same] at found
        obtain ⟨addrs, member⟩ := settled.recorded i handle found
        exact ⟨addrs, mem_cons_of_mem _ member⟩
    · intro addrs handle
      simp only [Except.map, handed]
      rw [mem_append, settled.returned, mem_singleton, mem_cons, Prod.mk.injEq, Prod.mk.injEq, or_comm, and_comm]
    · intro handle addrs other first second
      rcases mem_cons.mp first with same | earlier
      · cases same
        rcases mem_cons.mp second with same | earlier
        · cases same
          rfl
        · exact absurd earlier (free other)
      · rcases mem_cons.mp second with same | earlier'
        · cases same
          exact absurd earlier (free addrs)
        · exact settled.single handle addrs other earlier earlier'

private theorem validRun_settled_iff (calls : List (AddPeerGroup N ε)) :
    ValidRun provider returned group calls ↔ CleanRun provider group calls := by
  induction calls generalizing returned group with
  | nil => exact Iff.rfl
  | cons call calls ih =>
    constructor
    · intro valid result after done
      obtain ⟨one, rest⟩ := valid result after done
      have clean := (validCall_iff settled done).mp one
      exact ⟨clean, (ih (settled.step done clean)).mp rest⟩
    · intro run result after done
      obtain ⟨clean, rest⟩ := run result after done
      exact ⟨(validCall_iff settled done).mpr clean, (ih (settled.step done clean)).mpr rest⟩

end

end

end

/-- From domains without groups, every call of a run is valid exactly if every call is
clean. -/
theorem validRun_iff (provider : PeerProvider D β η ε) {domains : Fin N → D}
    (fresh : ∀ i handle, provider.peerGroup (domains i) handle = none)
    (calls : List (AddPeerGroup N ε)) :
    ValidRun provider [] (PeerGroups.new domains) calls ↔
      CleanRun provider (PeerGroups.new domains) calls := by
  apply validRun_settled_iff
  constructor
  · intro handle addrs member
    cases member
  · intro i handle found
    exact absurd (fresh i handle) found
  · intro addrs handle
    exact iff_of_false not_mem_nil not_mem_nil
  · intro handle addrs other member
    cases member

/-- Two domains with one peer, whose addresses are all resolved. -/
def resolved : AddPeerGroup 2 (DomainAddress → Option FiAddr) := ⟨[[10, 20]], fun _ addr => some addr⟩

/-- The second domain does not resolve its address. -/
def unresolved : AddPeerGroup 2 (DomainAddress → Option FiAddr) :=
  ⟨[[10, 20]], fun i addr => if i.val = 0 then some addr else none⟩

theorem validRun_twice :
    ValidRun Efa.peerProvider [] (PeerGroups.new fun _ => Efa.EfaDomain.new) [resolved,
      resolved] := by
  refine (validRun_iff Efa.peerProvider (fun _ _ => rfl) _).mpr ?_
  rintro _ _ ⟨⟩
  refine ⟨Or.inr ⟨fun _ => not_mem_nil, ?_⟩, ?_⟩
  · intro i
    match i with
    | 0 => exact ⟨[10], _, rfl, rfl⟩
    | 1 => exact ⟨[20], _, rfl, rfl⟩
  · rintro _ _ ⟨⟩
    exact ⟨Or.inl ⟨0, mem_cons_self ..⟩, trivial⟩

/-- The same on Verbs domains: no buffer is left for the handshake of the second domain. -/
def exhausted : AddPeerGroup 2 (DomainAddress → Verbs.Supply) :=
  ⟨[[10, 20]], fun i _ => ⟨1, 2, if i.val = 0 then none else some .alloc⟩⟩

/-- The first call fails on the second domain. The same call again returns handle 0, which
the second domain does not know. -/
theorem refused_group_returned :
    ¬ ValidRun Efa.peerProvider [] (PeerGroups.new fun _ => Efa.EfaDomain.new) [unresolved,
      unresolved] ∧
      ¬ ValidRun (Verbs.peerProvider Verbs.plainAddressing) [] (PeerGroups.new fun _ =>
        Verbs.VerbsDomain.new 1) [exhausted, exhausted] := by
  constructor
  · intro valid
    obtain ⟨_, rest⟩ := valid _ _ rfl
    obtain ⟨again, _⟩ := rest _ _ rfl
    obtain ⟨_, _, _, found, _⟩ := again.valid 0 rfl 1
    cases found
  · intro valid
    obtain ⟨_, rest⟩ := valid _ _ rfl
    obtain ⟨again, _⟩ := rest _ _ rfl
    obtain ⟨_, _, _, found, _⟩ := again.valid 0 rfl 1
    cases found

end PplxGarden.Fabric.Proofs
