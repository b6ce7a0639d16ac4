import PplxGarden.Fabric.Registration
import Mathlib.Data.List.Nodup

/-! What a key grants. A region that is registered anew gets what was asked; a region that is
found by its base pointer keeps the length and the rights of the first registration. -/

namespace PplxGarden.Fabric.Proofs.Registration
open MrProvider Function List

variable {α ε : Type} {provider : MrProvider α ε}
variable {state : MrDomain α} {mr : Mr α} {allowRemote : Bool} {answer : ε}
  {result : Except RegisterError RemoteKey × MrDomain α}

structure Made (provider : MrProvider α ε) (region : MemoryRegion) (allowRemote : Bool) (answer : ε)
    (mr : Mr α) : Prop where
  region : mr.region = region
  handle : provider.handle answer = some (mr.key, mr.desc)
  rights : allowRemote = true → ∀ right ∈ provider.remote, right ∈ mr.access

/-- What registering does: nothing if the pointer is known, otherwise the new region is kept
if the call succeeds. -/
inductive Registered (provider : MrProvider α ε) (state : MrDomain α) (region : MemoryRegion) (allowRemote : Bool) (answer : ε) :
    Except RegisterError RemoteKey × MrDomain α → Prop where
  | known {mr : Mr α} (found : state.localMrMap region.ptr = some mr) : Registered provider state
    region allowRemote answer (.ok mr.key, state)
  | failed {error : RegisterError} (unknown : state.localMrMap region.ptr = none) (cudaDevice : Nat) :
      Registered provider state region allowRemote answer (.error error, { state with cudaDevice })
  | left {error : RegisterError} {mr : Mr α} (unknown : state.localMrMap region.ptr = none)
    (made : Made provider region allowRemote answer mr)
      (cudaDevice : Nat) :
      Registered provider state region allowRemote answer (.error error,
        { state with registered := mr :: state.registered, cudaDevice })
  | made {mr : Mr α} (unknown : state.localMrMap region.ptr = none) (made : Made provider region allowRemote answer mr) :
      Registered provider state region allowRemote answer (.ok mr.key, { state with
        localMrMap := update state.localMrMap region.ptr (some mr)
        registered := mr :: state.registered })

def Lawful (provider : MrProvider α ε) : Prop :=
  ∀ state region allowRemote answer, Registered provider state region allowRemote answer
    (provider.registerMr state region allowRemote answer)

theorem efa_lawful : Lawful Efa.mrProvider := by
  intro state region allowRemote answer
  change Registered _ _ _ _ _ (Efa.registerMr state region allowRemote answer)
  unfold Efa.registerMr
  split
  next mr found => exact .known found
  next unknown =>
    dsimp only
    split
    next => exact .failed unknown _
    next key desc found =>
      have made : Made Efa.mrProvider region allowRemote answer
          ⟨region, [.send, .recv, .write, .read] ++ if allowRemote then [.remoteWrite, .remoteRead] else [], key, desc⟩ :=
        ⟨rfl, found, fun asked right member => mem_append_right _ (by rw [if_pos asked]; exact member)⟩
      split
      next => exact .left unknown made _
      next =>
        split
        next => exact .left unknown made _
        next => exact .made unknown made

theorem verbs_lawful : Lawful Verbs.mrProvider := by
  intro state region allowRemote answer
  change Registered _ _ _ _ _ (Verbs.registerMr state region allowRemote answer)
  unfold Verbs.registerMr
  split
  next mr found => exact .known found
  next unknown =>
    cases answer with
    | none => exact .failed unknown _
    | some handle =>
      have made : Made Verbs.mrProvider region allowRemote (some handle)
          ⟨region, [.localWrite, .relaxedOrdering] ++ if allowRemote then
            [.remoteRead, .remoteWrite] else [], handle.1, handle.2⟩ :=
        ⟨rfl, rfl, fun asked right member => mem_append_right _ (by rw [if_pos asked]; exact member)⟩
      exact .made unknown made

/-- The regions that are found by a pointer are known to the device, and no two regions
have the same key or the same descriptor. -/
structure Kept (state : MrDomain α) : Prop where
  known : ∀ ptr mr, state.localMrMap ptr = some mr → mr ∈ state.registered ∧ mr.region.ptr = ptr
  keys : (state.registered.map Mr.key).Nodup
  descs : (state.registered.map Mr.desc).Nodup

theorem find_of_nodup {items : List (Mr α)} {label : Mr α → Nat}
    (distinct : (items.map label).Nodup) (member : mr ∈ items) :
    items.find? (fun other => label other = label mr) = some mr := by
  induction items with
  | nil => cases member
  | cons item items ih =>
    rw [map_cons, nodup_cons] at distinct
    rw [find?_cons]
    by_cases same : label item = label mr
    · rw [decide_eq_true same]
      cases mem_cons.mp member with
      | inl first => rw [first]
      | inr later => exact absurd (same ▸ mem_map_of_mem later) distinct.1
    · rw [decide_eq_false same]
      cases mem_cons.mp member with
      | inl first => exact absurd (first ▸ rfl) same
      | inr later => exact ih distinct.2 later

theorem Kept.byKey (kept : Kept state) (member : mr ∈ state.registered) : state.byKey mr.key = some mr :=
  find_of_nodup kept.keys member

theorem Kept.byDesc (kept : Kept state) (member : mr ∈ state.registered) : state.byDesc mr.desc = some mr :=
  find_of_nodup kept.descs member

theorem Kept.add (kept : Kept state) {region : MemoryRegion}
    (made : Made provider region allowRemote answer mr) (fresh : Fresh provider state region answer)
    (unknown : state.localMrMap region.ptr = none) :
    ((mr :: state.registered).map Mr.key).Nodup ∧ ((mr :: state.registered).map Mr.desc).Nodup := by
  have other := fresh unknown _ _ made.handle
  rw [map_cons, nodup_cons, map_cons, nodup_cons]
  refine ⟨⟨fun member => ?_, kept.keys⟩, fun member => ?_, kept.descs⟩
  · obtain ⟨found, listed, same⟩ := mem_map.mp member
    exact (other found listed).1 same
  · obtain ⟨found, listed, same⟩ := mem_map.mp member
    exact (other found listed).2 same

theorem Registered.kept {region : MemoryRegion}
    (registered : Registered provider state region allowRemote answer result) (kept : Kept state)
    (fresh : Fresh provider state region answer) : Kept result.2 := by
  cases registered with
  | known found => exact kept
  | failed unknown cudaDevice => exact ⟨kept.known, kept.keys, kept.descs⟩
  | left unknown made cudaDevice =>
    obtain ⟨keys, descs⟩ := kept.add made fresh unknown
    exact ⟨fun ptr mr found => ⟨mem_cons_of_mem _ (kept.known ptr mr found).1, (kept.known ptr mr found).2⟩, keys, descs⟩
  | @made mr unknown made =>
    obtain ⟨keys, descs⟩ := kept.add made fresh unknown
    refine ⟨fun ptr other found => ?_, keys, descs⟩
    dsimp only at found ⊢
    by_cases here : ptr = region.ptr
    · subst here
      rw [update_self] at found
      cases found
      exact ⟨mem_cons_self .., by rw [made.region]⟩
    · rw [update_of_ne here] at found
      exact ⟨mem_cons_of_mem _ (kept.known ptr other found).1, (kept.known ptr other found).2⟩

theorem unregisterMr_kept (kept : Kept state) (ptr : MemoryPtr) : Kept (state.unregisterMr ptr) := by
  unfold MrDomain.unregisterMr
  split
  next mr found =>
    have shorter : (state.registered.filter fun other => other.key ≠ mr.key).Sublist state.registered := filter_sublist
    refine ⟨fun place other listed => ?_, (shorter.map _).nodup kept.keys, (shorter.map _).nodup kept.descs⟩
    dsimp only at listed ⊢
    by_cases here : place = ptr
    · subst here
      rw [update_self] at listed
      cases listed
    · rw [update_of_ne here] at listed
      obtain ⟨member, same⟩ := kept.known place other listed
      refine ⟨mem_filter.mpr ⟨member, decide_eq_true fun equal => here ?_⟩, same⟩
      have one := inj_on_of_nodup_map kept.keys member (kept.known ptr mr found).1 equal
      rw [← same, one, (kept.known ptr mr found).2]
  next => exact kept

private theorem reachable_kept (lawful : Lawful provider) (reachable : Reachable provider state) : Kept state := by
  induction reachable with
  | new cudaDevice => exact ⟨fun ptr mr found => (by cases found), nodup_nil, nodup_nil⟩
  | step before step ih =>
    cases step with
    | registerMrLocal fresh => exact (lawful _ _ _ _).kept ih fresh
    | registerMrAllowRemote fresh => exact (lawful _ _ _ _).kept ih fresh
    | unregisterMr => exact unregisterMr_kept ih _

def Covers (mr : Mr α) (region : MemoryRegion) : Prop :=
  mr.region.ptr ≤ region.ptr ∧ region.ptr + region.len ≤ mr.region.ptr + mr.region.len

/-- What a call that succeeds hands out is good for the region it was asked for. -/
def Granted (provider : MrProvider α ε) (state : MrDomain α) : Call ε → Prop
  | .registerMrLocal region answer =>
    Fresh provider state region answer → (provider.registerMrLocal state region answer).1 = .ok () →
      ∃ desc mr, (provider.registerMrLocal state region answer).2.getMemDesc region.ptr = .ok desc ∧
        (provider.registerMrLocal state region answer).2.byDesc desc = some mr ∧ Covers mr region
  | .registerMrAllowRemote region answer =>
    Fresh provider state region answer → ∀ key, (provider.registerMrAllowRemote state region answer).1 = .ok key →
      ∃ mr, (provider.registerMrAllowRemote state region answer).2.byKey key = some mr ∧
        (∀ right ∈ provider.remote, right ∈ mr.access) ∧ Covers mr region
  | .unregisterMr _ => True

/-- A region that is already registered at the pointer is long enough, and has the rights
of a remote peer if these are asked for. -/
def Suffices (provider : MrProvider α ε) (state : MrDomain α) : Call ε → Prop
  | .registerMrLocal region _ => ∀ mr, state.localMrMap region.ptr = some mr → region.len ≤ mr.region.len
  | .registerMrAllowRemote region _ => ∀ mr, state.localMrMap region.ptr = some mr →
      (∀ right ∈ provider.remote, right ∈ mr.access) ∧ region.len ≤ mr.region.len
  | .unregisterMr _ => True

theorem covers_iff {region : MemoryRegion} (same : mr.region.ptr = region.ptr) :
    Covers mr region ↔ region.len ≤ mr.region.len := by
  rw [Covers, same, and_iff_right (Nat.le_refl _), Nat.add_le_add_iff_left]

/-- The key of a call that succeeds denotes a region with the pointer: one that was known,
or one as it was asked for. -/
theorem Registered.region {region : MemoryRegion}
    (registered : Registered provider state region allowRemote answer result) (kept : Kept state)
    (fresh : Fresh provider state region answer) {key : RemoteKey} (succeeds : result.1 = .ok key) :
    ∃ mr, result.2.localMrMap region.ptr = some mr ∧ mr.key = key ∧ mr.region.ptr = region.ptr ∧
      result.2.byKey key = some mr ∧ result.2.byDesc mr.desc = some mr ∧
      (state.localMrMap region.ptr = some mr ∨ state.localMrMap region.ptr = none ∧
        Made provider region allowRemote answer mr) := by
  have after := registered.kept kept fresh
  have found : ∃ mr, result.2.localMrMap region.ptr = some mr ∧ mr.key = key ∧
      (state.localMrMap region.ptr = some mr ∨ state.localMrMap region.ptr = none ∧
        Made provider region allowRemote answer mr) := by
    cases registered with
    | @known mr found =>
      cases succeeds
      exact ⟨mr, found, rfl, Or.inl found⟩
    | failed unknown cudaDevice => cases succeeds
    | left unknown made cudaDevice => cases succeeds
    | @made mr unknown made =>
      cases succeeds
      exact ⟨mr, update_self .., rfl, Or.inr ⟨unknown, made⟩⟩
  obtain ⟨mr, listed, rfl, either⟩ := found
  obtain ⟨member, same⟩ := after.known _ _ listed
  exact ⟨mr, listed, rfl, same, after.byKey member, after.byDesc member, either⟩

theorem Registered.of_known {region : MemoryRegion}
    (registered : Registered provider state region allowRemote answer result)
    (listed : state.localMrMap region.ptr = some mr) : result = (.ok mr.key, state) := by
  cases registered with
  | known found =>
    rw [listed] at found
    cases found
    rfl
  | failed unknown cudaDevice => rw [listed] at unknown; cases unknown
  | left unknown made cudaDevice => rw [listed] at unknown; cases unknown
  | made unknown made => rw [listed] at unknown; cases unknown

private theorem fresh_of_known {region : MemoryRegion} (listed : state.localMrMap region.ptr = some mr) (answer : ε) :
    Fresh provider state region answer := by
  intro unknown
  rw [listed] at unknown
  cases unknown

theorem allowRemote_granted_iff (lawful : Lawful provider) (kept : Kept state)
    (region : MemoryRegion) (answer : ε) :
    Granted provider state (.registerMrAllowRemote region answer) ↔
      Suffices provider state (.registerMrAllowRemote region answer) := by
  have registered := lawful state region true answer
  constructor
  · intro granted mr listed
    have same := registered.of_known listed
    obtain ⟨found, denoted, rights, covers⟩ := granted (fresh_of_known listed answer) mr.key (congrArg Prod.fst same)
    obtain ⟨member, place⟩ := kept.known _ _ listed
    rw [registerMrAllowRemote, same, kept.byKey member] at denoted
    cases denoted
    exact ⟨rights, (covers_iff place).mp covers⟩
  · intro suffices_ fresh key succeeds
    obtain ⟨mr, -, -, place, denoted, -, either⟩ := registered.region kept fresh succeeds
    refine ⟨mr, denoted, ?_⟩
    rw [covers_iff place]
    cases either with
    | inl listed => exact suffices_ mr listed
    | inr new => exact ⟨new.2.rights rfl, by rw [new.2.region]⟩

theorem local_granted_iff (lawful : Lawful provider) (kept : Kept state) (region : MemoryRegion)
    (answer : ε) :
    Granted provider state (.registerMrLocal region answer) ↔
      Suffices provider state (.registerMrLocal region answer) := by
  have registered := lawful state region false answer
  constructor
  · intro granted mr listed
    have same := registered.of_known listed
    have result : provider.registerMrLocal state region answer = (.ok (), state) := by rw [registerMrLocal, same]; rfl
    obtain ⟨desc, found, described, denoted, covers⟩ := granted (fresh_of_known listed answer) (congrArg Prod.fst result)
    obtain ⟨member, place⟩ := kept.known _ _ listed
    rw [result] at described denoted
    rw [MrDomain.getMemDesc, listed] at described
    cases described
    rw [kept.byDesc member] at denoted
    cases denoted
    exact (covers_iff place).mp covers
  · intro suffices_ fresh succeeds
    cases outcome : (provider.registerMr state region false answer).1 with
    | error error =>
      simp only [registerMrLocal, outcome] at succeeds
      cases succeeds
    | ok key =>
      obtain ⟨mr, listed, -, place, -, denoted, either⟩ := registered.region kept fresh outcome
      refine ⟨mr.desc, mr, ?_, denoted, ?_⟩
      · rw [registerMrLocal, MrDomain.getMemDesc, listed]
      · rw [covers_iff place]
        cases either with
        | inl known => exact suffices_ mr known
        | inr new => rw [new.2.region]

theorem granted_iff (lawful : Lawful provider) (reachable : Reachable provider state) (call : Call ε) :
    Granted provider state call ↔ Suffices provider state call := by
  have kept := reachable_kept lawful reachable
  cases call with
  | unregisterMr ptr => exact Iff.rfl
  | registerMrAllowRemote region answer => exact allowRemote_granted_iff lawful kept region answer
  | registerMrLocal region answer => exact local_granted_iff lawful kept region answer

/-- A key grants what was asked exactly when the pointer was not registered, or with at
least this length and these rights. -/
theorem keys_grant_iff (efa : MrDomain Efa.Access) (verbs : MrDomain Verbs.Access)
    (efaReached : Reachable Efa.mrProvider efa) (verbsReached : Reachable Verbs.mrProvider verbs)
    (efaCall : Call Efa.MrAnswer) (verbsCall : Call (Option (RemoteKey × LocalDescriptor))) :
    (Granted Efa.mrProvider efa efaCall ↔ Suffices Efa.mrProvider efa efaCall) ∧
      (Granted Verbs.mrProvider verbs verbsCall ↔ Suffices Verbs.mrProvider verbs verbsCall) :=
  ⟨granted_iff efa_lawful efaReached efaCall, granted_iff verbs_lawful verbsReached verbsCall⟩

def hostRegion (len : Nat) : MemoryRegion := ⟨4096, len, .host⟩

/-- A pointer that is registered for the first time. -/
theorem keys_grant_first :
    Granted Efa.mrProvider (.new 0) (.registerMrAllowRemote (hostRegion 64) ⟨some (7, 8), 0, 0, 0⟩) ∧
      Granted Verbs.mrProvider (.new 0) (.registerMrAllowRemote (hostRegion 64) (some (7, 8))) := by
  obtain ⟨efa, verbs⟩ := keys_grant_iff (.new 0) (.new 0) (.new 0) (.new 0)
    (.registerMrAllowRemote (hostRegion 64) ⟨some (7, 8), 0, 0, 0⟩) (.registerMrAllowRemote (hostRegion 64) (some (7, 8)))
  exact ⟨efa.mpr fun mr listed => (by cases listed), verbs.mpr fun mr listed => (by cases listed)⟩

/-- A provider of which a region that was registered for local use is then made remote, and
another time registered with more bytes. -/
def Forgets (provider : MrProvider α ε) (answer : ε) : Prop :=
  ∃ state, Reachable provider state ∧ ¬ Granted provider state (.registerMrAllowRemote (hostRegion 64) answer) ∧
    ¬ Granted provider state (.registerMrLocal (hostRegion 4096) answer)

private theorem first_reachable (provider : MrProvider α ε) (answer : ε) :
    Reachable provider (provider.registerMrLocal (.new 0) (hostRegion 64) answer).2 :=
  .step (.new 0) (.registerMrLocal fun _ _ _ _ _ member => (by cases member))

theorem keys_of_first_registration :
    Forgets Efa.mrProvider ⟨some (7, 8), 0, 0, 0⟩ ∧ Forgets Verbs.mrProvider (some (7, 8)) := by
  have efa := first_reachable Efa.mrProvider ⟨some (7, 8), 0, 0, 0⟩
  have verbs := first_reachable Verbs.mrProvider (some (7, 8))
  refine ⟨⟨_, efa, fun granted => ?_, fun granted => ?_⟩, ⟨_, verbs, fun granted => ?_, fun granted => ?_⟩⟩
  · exact absurd (((granted_iff efa_lawful efa _).mp granted _ rfl).1 .remoteRead (by decide)) (by decide)
  · exact absurd ((granted_iff efa_lawful efa _).mp granted _ rfl) (by decide)
  · exact absurd (((granted_iff verbs_lawful verbs _).mp granted _ rfl).1 .remoteRead (by decide)) (by decide)
  · exact absurd ((granted_iff verbs_lawful verbs _).mp granted _ rfl) (by decide)

end PplxGarden.Fabric.Proofs.Registration
