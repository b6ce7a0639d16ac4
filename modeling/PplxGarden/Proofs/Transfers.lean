import Mathlib.Algebra.Order.BigOperators.Group.Finset
import PplxGarden.Fabric.Transfers
import PplxGarden.Library.Runs
import PplxGarden.Proofs.Polling

/-! When a group reports success. A domain keeps books for every transfer: it reports no
more contexts than it was given operations, and when it has reported all of them every
request has succeeded. A failure stands in its completions before the last report. -/

namespace PplxGarden.Fabric
open Library Proofs Function Finset Option

/-- There is an error of a transfer before all its operations were reported. -/
def Spoils (id : TransferId) (reports size : Nat) (entries : List DomainCompletionEntry) : Prop :=
  ∃ before error after, entries = before ++ .error id error :: after ∧ reports + before.count (.transfer id) < size

section
variable {id : TransferId} {entries more : List DomainCompletionEntry}

theorem Spoils.count_lt {size : Nat} (spoils : Spoils id 0 size more) (starts : entries <+: more)
    (clean : Unfailed id entries) : entries.count (.transfer id) < size := by
  obtain ⟨before, error, after, rfl, few⟩ := spoils
  rw [Nat.zero_add] at few
  refine Nat.lt_of_le_of_lt ?_ few
  rcases List.prefix_or_prefix_of_prefix starts (List.prefix_append before _) with shorter | longer
  · exact shorter.sublist.count_le _
  · obtain ⟨rest, rfl⟩ := longer
    rw [List.prefix_append_right_inj] at starts
    cases rest with
    | nil => simp
    | cons first rest =>
      obtain ⟨later, same⟩ := starts
      rw [List.cons_append, List.cons.injEq] at same
      exact absurd (List.mem_append_right _ (same.1 ▸ List.mem_cons_self ..)) (clean error)

end

variable {σ ε α : Type}

/-- A step of a domain adds to its completions; it keeps the books or fails the transfer. -/
def Advances (domain : RdmaDomain σ ε α) (books : TransferId → List DomainOp → Nat → σ → Prop)
    (id : TransferId) (ops further : List DomainOp) (state after : σ) : Prop :=
  ∃ new, domain.completions after = domain.completions state ++ new ∧ ∀ reports, books id ops reports state →
    Unfailed id new ∧ books id further (reports + new.count (.transfer id)) after ∨ Spoils id reports further.length new

/-- Domains that keep books. `finished` is what holds when every operation was reported. -/
structure Accountable (domain : RdmaDomain σ ε α) (books : TransferId → List DomainOp → Nat → σ → Prop)
    (finished : σ → TransferId → List DomainOp → Prop) : Prop where
  bound : ∀ {id ops reports state}, books id ops reports state → reports ≤ ops.length
  finished : ∀ {id ops state}, books id ops ops.length state → finished state id ops
  submit : ∀ {id ops state after transferId op input}, domain.submit state transferId op input = some after →
    Advances domain books id ops (ops ++ if transferId = id then [op] else []) state after
  act : ∀ {id ops state after action}, domain.act state action = some after → domain.messageId action ≠ some id →
    Advances domain books id ops ops state after
  get : ∀ {state entries}, domain.completions (domain.setCompletions state entries) = entries
  set : ∀ {id ops reports state entries}, books id ops reports state →
    books id ops reports (domain.setCompletions state entries)

def Account (books : TransferId → List DomainOp → Nat → σ → Prop) (id : TransferId)
    (ops : List DomainOp) (entries : List DomainCompletionEntry) (state : σ) : Prop :=
  Unfailed id entries ∧ books id ops (entries.count (.transfer id)) state ∨ Spoils id 0 ops.length entries

section
variable {domain : RdmaDomain σ ε α} {books : TransferId → List DomainOp → Nat → σ → Prop} {finished : σ → TransferId → List DomainOp → Prop}
  {id : TransferId} {ops further : List DomainOp} {entries : List DomainCompletionEntry} {state after : σ}

theorem Account.advance (account : Account books id ops (entries ++ domain.completions state) state)
    (advances : Advances domain books id ops further state after) (more : ops.length ≤ further.length) :
    Account books id further (entries ++ domain.completions after) after := by
  obtain ⟨new, added, kept⟩ := advances
  rw [added, ← List.append_assoc]
  rcases account with ⟨clean, holds⟩ | ⟨before, error, later, same, few⟩
  · rcases kept _ holds with ⟨cleaner, next⟩ | ⟨before, error, later, rfl, few⟩
    · rw [← List.count_append] at next
      exact .inl ⟨clean.append cleaner, next⟩
    · refine .inr ⟨entries ++ domain.completions state ++ before, error, later, by simp only [List.append_assoc], ?_⟩
      rw [List.count_append]
      omega
  · exact .inr ⟨before, error, later ++ new, by rw [same, List.append_assoc, List.cons_append], by omega⟩

variable (accountable : Accountable domain books finished)
include accountable

theorem Account.starts (account : Account books id ops entries state)
    {taken : List DomainCompletionEntry} (starts : taken <+: entries) (clean : Unfailed id taken) :
    taken.count (.transfer id) ≤ ops.length ∧ (taken.count (.transfer id) = ops.length →
      finished state id ops) := by
  rcases account with ⟨-, holds⟩ | spoils
  · have bound := accountable.bound holds
    have fewer := starts.sublist.count_le (.transfer id)
    refine ⟨by omega, fun all => accountable.finished ?_⟩
    rwa [show entries.count (.transfer id) = ops.length by omega] at holds
  · have few := spoils.count_lt starts clean
    exact ⟨by omega, fun all => by omega⟩

theorem Account.set {completions : List DomainCompletionEntry} (account : Account books id ops entries state) :
    Account books id ops entries (domain.setCompletions state completions) :=
  account.imp_left fun good => ⟨good.1, accountable.set good.2⟩

end

namespace Transfers

variable {N : Nat} {id : TransferId} {ops : List (Posted N)}

private theorem opsOf_append (first second : List (Posted N)) (i : Fin N) (id : TransferId) :
    opsOf (first ++ second) i id = opsOf first i id ++ opsOf second i id := by
  simp [opsOf]

private theorem opsOf_cons (op : Posted N) (ops : List (Posted N)) (i : Fin N) (id : TransferId) :
    opsOf (op :: ops) i id = (if op.domain = i ∧ op.transferId = id then [op.op] else []) ++ opsOf ops i id := by
  unfold opsOf
  rw [List.filter_cons]
  by_cases own : op.domain = i ∧ op.transferId = id <;> simp [own]

private theorem sum_opsOf (own : ∀ op ∈ ops, op.transferId = id) : ∑ i, (opsOf ops i id).length = ops.length := by
  induction ops with
  | nil => exact sum_const_zero
  | cons op ops ih =>
    have here := own op (List.mem_cons_self ..)
    have one : ∀ i, (opsOf (op :: ops) i id).length = (if op.domain = i then 1 else 0) + (opsOf ops i id).length := by
      intro i
      rw [opsOf_cons, List.length_append]
      by_cases same : op.domain = i <;> simp [same, here]
    rw [sum_congr rfl fun i _ => one i, sum_add_distrib, ih fun other member => own other (List.mem_cons_of_mem _ member),
      sum_ite_eq, if_pos (mem_univ _), List.length_cons, Nat.add_comm]

private theorem opsOf_other {transferId : TransferId} (own : ∀ op ∈ ops, op.transferId = transferId)
    (apart : transferId ≠ id) (i : Fin N) : opsOf ops i id = [] := by
  rw [opsOf, List.map_eq_nil_iff, List.filter_eq_nil_iff]
  intro op member
  simp [own op member, apart]

theorem submission_record {group after : DomainGroup N} {request : TransferRequest}
    {txCounter : Bool} {result : Except FabricLibError Unit}
    (ran : Fabric.submitTransferRequest group id request txCounter = some (result, after))
    (posts : after.posted = group.posted ++ ops) (unused : group.writeOps id = none)
    {ctx : WriteOpContext} (found : after.writeOps id = some ctx) :
    ctx.cntDomainCompletion = 0 ∧ ops.length ≤ ctx.numUsedDomains := by
  have outcome := submit_outcome group id txCounter request
  rw [ran] at outcome
  cases outcome with
  | accepted turn accepts =>
    rw [insert_self] at found
    cases found
    exact ⟨rfl, Nat.le_of_eq (congrArg List.length (List.append_cancel_left posts)).symm⟩
  | refused error fails survives left =>
    cases left with
    | early turn => exact absurd (found.symm.trans unused) nofun
    | late turn count others own short =>
      rw [insert_self] at found
      cases found
      have same : others = ops := List.append_cancel_left posts
      refine ⟨rfl, ?_⟩
      rcases short with fewer | none_
      · rw [← same]
        exact Nat.le_of_lt fewer
      · rw [← same, none_]
        exact Nat.zero_le _

variable {domain : RdmaDomain σ ε α} {books : TransferId → List DomainOp → Nat → σ → Prop} {finished : σ → TransferId → List DomainOp → Prop}
  {messages : TransferId → Bool} {state next : Transfers σ N}

/-- The books of all domains for a transfer, and its record. -/
structure Watched (domain : RdmaDomain σ ε α) (books : TransferId → List DomainOp → Nat → σ → Prop) (id : TransferId)
    (taken : Fin N → List DomainCompletionEntry) (state : Transfers σ N) : Prop where
  accounts : ∀ i, Account books id (state.handed i id) (taken i ++ domain.completions (state.domains i)) (state.domains i)
  record : ∀ ctx, state.group.writeOps id = some ctx → Recorded id (fun i => (state.handed i id).length) taken ctx
  unused : id ∉ state.ids → state.group.writeOps id = none ∧ ∀ i, state.handed i id = []

def Followed (domain : RdmaDomain σ ε α) (books : TransferId → List DomainOp → Nat → σ → Prop)
    (id : TransferId) (state : Transfers σ N) : Prop :=
  ∃ taken, Watched domain books id taken state

section
variable {taken : Fin N → List DomainCompletionEntry}

theorem Watched.setDomain (watched : Watched domain books id taken state) {i : Fin N} {after : σ}
    (advances : ∀ ops, Advances domain books id ops ops (state.domains i) after) :
    Watched domain books id taken (state.setDomain i after) := by
  refine ⟨fun j => ?_, watched.record, watched.unused⟩
  show Account books id (state.handed j id) (taken j ++ domain.completions (update state.domains i after j))
    (update state.domains i after j)
  by_cases same : j = i
  · subst same
    rw [update_self]
    exact (watched.accounts j).advance (advances _) (Nat.le_refl _)
  · rw [update_of_ne same]
    exact watched.accounts j

theorem Watched.polls (watched : Watched domain books id taken state) :
    Polls id (fun i => (state.handed i id).length) (fun i => taken i ++ domain.completions
      (state.domains i)) (state.engine domain)
      (state.engine domain).getCompletion :=
  getCompletionFrom_polls _ ⟨fun _ => rfl, watched.record⟩ nofun

variable (accountable : Accountable domain books finished)
include accountable

theorem submitOps_accounts {inputs : Nat → ε} {domains after : Fin N → σ} {given : Fin N → List DomainOp}
    (accounts : ∀ i, Account books id (given i) (taken i ++ domain.completions (domains i)) (domains i))
    (done : submitOps domain inputs ops domains = some after) :
    ∀ i, Account books id (given i ++ opsOf ops i id) (taken i ++ domain.completions (after i)) (after i) := by
  unfold submitOps at done
  generalize 0 = k at done
  induction ops generalizing k domains given with
  | nil =>
    cases done
    simpa [opsOf] using accounts
  | cons op ops ih =>
    rw [List.zipIdx_cons, List.foldlM_cons] at done
    obtain ⟨middle, first, rest⟩ := bind_eq_some_iff.mp done
    obtain ⟨changed, submitted, equal⟩ := bind_eq_some_iff.mp first
    cases equal
    have each : ∀ i, Account books id (given i ++ if op.domain = i ∧ op.transferId = id then [op.op] else [])
        (taken i ++ domain.completions (update domains op.domain changed i)) (update domains op.domain changed i) := by
      intro i
      by_cases same : i = op.domain
      · subst same
        have advanced := (accounts op.domain).advance (accountable.submit submitted) (by simp)
        simpa using advanced
      · simpa [same, Ne.symm same] using accounts i
    have later := ih each (k + 1) rest
    intro i
    rw [opsOf_cons, ← List.append_assoc]
    exact later i

theorem Watched.silent (watched : Watched domain books id taken state) (fresh : id ∉ state.ids) (i : Fin N) :
    Unfailed id (taken i ++ domain.completions (state.domains i)) ∧ (taken i).count (.transfer id) = 0 := by
  have account := watched.accounts i
  rw [(watched.unused fresh).2 i] at account
  have clean : Unfailed id (taken i ++ domain.completions (state.domains i)) := by
    rcases account with ⟨clean, -⟩ | ⟨_, _, _, -, few⟩
    · exact clean
    · cases few
  have starts := List.prefix_append (taken i) (domain.completions (state.domains i))
  exact ⟨clean, Nat.le_zero.mp (account.starts accountable starts (clean.starts starts)).1⟩

theorem Watched.submit {transferId : TransferId} {request : TransferRequest} {txCounter : Bool}
    {inputs : Nat → ε} (watched : Watched domain books id taken state)
    (fresh : transferId ∉ state.ids)
    (done : state.submitTransferRequest domain transferId request txCounter inputs = some next) :
    Watched domain books id taken next := by
  obtain ⟨⟨result, group⟩, ran, rest⟩ := bind_eq_some_iff.mp done
  obtain ⟨domains, submitted, equal⟩ := bind_eq_some_iff.mp rest
  cases equal
  obtain ⟨⟨ops, posts, own⟩, others⟩ := submission_own ran
  have handed : ∀ i, opsOf group.posted i id = state.handed i id ++ opsOf ops i id :=
    fun i => by rw [posts, opsOf_append]; rfl
  rw [posts, List.drop_left] at submitted
  refine ⟨fun i => ?_, fun ctx found => ?_, fun absent => ?_⟩
  · show Account books id (opsOf group.posted i id) _ _
    rw [handed]
    exact submitOps_accounts accountable watched.accounts submitted i
  · by_cases same : transferId = id
    · subst same
      obtain ⟨closed, none_⟩ := watched.unused fresh
      obtain ⟨zero, enough⟩ := submission_record ran posts closed found
      have silent := watched.silent accountable fresh
      refine ⟨fun i => (silent i).1.starts (List.prefix_append ..), ?_, ?_⟩
      · rw [zero, sum_congr rfl fun i _ => (silent i).2, sum_const_zero]
      · have posted : ∀ i, opsOf group.posted i transferId = opsOf ops i transferId := fun i => by
          rw [handed, none_, List.nil_append]
        show ∑ i, (opsOf group.posted i transferId).length ≤ _
        simp only [posted, sum_opsOf own]
        exact enough
    · rw [others id (Ne.symm same)] at found
      obtain ⟨clean, counted, enough⟩ := watched.record ctx found
      refine ⟨clean, counted, ?_⟩
      show ∑ i, (opsOf group.posted i id).length ≤ _
      simp only [handed, opsOf_other own same, List.append_nil]
      exact enough
  · obtain ⟨different, absent⟩ := not_or.mp fun member => absent (List.mem_cons.mpr member)
    obtain ⟨closed, none_⟩ := watched.unused absent
    refine ⟨(others id different).trans closed, fun i => (handed i).trans ?_⟩
    rw [none_ i, opsOf_other own (Ne.symm different)]
    rfl

theorem notice_advances {entry : DomainCompletionEntry} (noticed : notice messages entry = true)
    (transfer : messages id = false) (state : σ) (ops : List DomainOp) :
    Advances domain books id ops ops state
      (domain.setCompletions state (domain.completions state ++ [entry])) := by
  refine ⟨[entry], accountable.get, fun reports holds => .inl ⟨?_, ?_⟩⟩
  · intro error member
    rw [← List.mem_singleton.mp member] at noticed
    exact absurd (transfer.symm.trans noticed) nofun
  · have silent : entry ≠ .transfer id := by
      rintro rfl
      cases noticed
    rw [List.count_singleton, if_neg (by simpa using silent), Nat.add_zero]
    exact accountable.set holds

theorem Watched.getCompletion (watched : Watched domain books id taken state) :
    ∃ further, Watched domain books id further (state.getCompletion domain).2.2 := by
  have polls := watched.polls
  obtain ⟨further, polled⟩ := polls.polled
  have handed : ∀ i, (state.getCompletion domain).2.2.handed i id = state.handed i id := fun i => by
    show opsOf ((state.engine domain).getCompletion).2.group.posted i id = _
    rw [polls.posted]
    rfl
  refine ⟨further, fun i => ?_, fun ctx found => ?_, fun absent => ?_⟩
  · have stream : further i ++ domain.completions ((state.getCompletion domain).2.2.domains i) =
        taken i ++ domain.completions (state.domains i) :=
      (congrArg (further i ++ ·) accountable.get).trans (polled.streams i)
    rw [handed, stream]
    exact (watched.accounts i).set accountable
  · obtain ⟨clean, counted, enough⟩ := polled.record ctx found
    exact ⟨clean, counted, by simpa only [handed] using enough⟩
  · obtain ⟨closed, none_⟩ := watched.unused absent
    exact ⟨polls.closed closed, fun i => (handed i).trans (none_ i)⟩

theorem fire_watched {action : Action N ε α} (transfer : messages id = false)
    (watched : Watched domain books id taken state)
    (fired : fire domain messages state action = some next) : Followed domain books id next := by
  cases action with
  | submit transferId request txCounter inputs =>
    simp only [fire] at fired
    split at fired
    next => cases fired
    next allowed => exact ⟨taken, watched.submit accountable (fun member => allowed (.inl member)) fired⟩
  | call call =>
    cases fired
    exact ⟨taken, watched.accounts, watched.record, watched.unused⟩
  | act i action =>
    simp only [fire] at fired
    split at fired
    next known =>
      obtain ⟨after, acted, rfl⟩ := map_eq_some_iff.mp fired
      refine ⟨taken, watched.setDomain fun ops => accountable.act acted fun named => ?_⟩
      rw [named, all_some, transfer] at known
      cases known
    next => cases fired
  | notice i entry =>
    simp only [fire] at fired
    split at fired
    next noticed =>
      cases fired
      exact ⟨taken, watched.setDomain fun ops => notice_advances accountable noticed transfer _ ops⟩
    next => cases fired
  | getCompletion =>
    cases fired
    exact watched.getCompletion accountable

theorem Watched.complete (watched : Watched domain books id taken state)
    (succeeds : state.Succeeds domain id) (i : Fin N) :
    finished (state.domains i) id (state.handed i id) := by
  obtain ⟨-, -, seen, starts, clean, enough⟩ := watched.polls.succeeds succeeds
  have each := fun j => (watched.accounts j).starts accountable (starts j) (clean j)
  have equal := (sum_eq_sum_iff_of_le fun j _ => (each j).1).mp (Nat.le_antisymm (sum_le_sum fun j _ => (each j).1) enough)
  exact (each i).2 (equal i (mem_univ i))

theorem Watched.failed (watched : Watched domain books id taken state) (fails : state.Fails domain id) :
    id ∈ state.ids ∧ (state.getCompletion domain).2.2.group.writeOps id = none := by
  obtain ⟨error, returned⟩ := fails
  obtain ⟨closed, i, member⟩ := watched.polls.fails error returned
  refine ⟨?_, closed⟩
  by_contra fresh
  exact (watched.silent accountable fresh i).1 error member

end

def Closed (messages : TransferId → Bool) (id : TransferId) (state : Transfers σ N) : Prop :=
  state.group.writeOps id = none ∧ (id ∈ state.ids ∨ messages id = true)

private theorem closed_polls (domain : RdmaDomain σ ε α) (closed : state.group.writeOps id = none) :
    Polls id (fun _ => 0) (fun i => domain.completions (state.domains i)) (state.engine domain)
      (state.engine domain).getCompletion := by
  have polled : Polled id (fun _ => 0) (fun i => domain.completions (state.domains i)) (fun _ => [])
      (state.engine domain) :=
    ⟨fun _ => rfl, fun _ found => absurd (closed.symm.trans found) nofun⟩
  exact getCompletionFrom_polls _ polled nofun

theorem Closed.silent (closed : Closed messages id state) : ¬ state.Succeeds domain id :=
  fun succeeds => ((closed_polls domain closed.1).succeeds succeeds).1 closed.1

theorem fire_closed {action : Action N ε α} (closed : Closed messages id state)
    (fired : fire domain messages state action = some next) : Closed messages id next := by
  obtain ⟨absent, known⟩ := closed
  cases action with
  | submit transferId request txCounter inputs =>
    simp only [fire] at fired
    split at fired
    next => cases fired
    next allowed =>
      obtain ⟨⟨result, group⟩, ran, rest⟩ := bind_eq_some_iff.mp fired
      obtain ⟨domains, -, equal⟩ := bind_eq_some_iff.mp rest
      cases equal
      have apart : id ≠ transferId := by
        rintro rfl
        exact allowed known
      exact ⟨((submission_own ran).2 id apart).trans absent, known.imp_left (List.mem_cons_of_mem _)⟩
  | call call =>
    cases fired
    exact ⟨absent, known⟩
  | act i action =>
    simp only [fire] at fired
    split at fired
    next =>
      obtain ⟨after, -, rfl⟩ := map_eq_some_iff.mp fired
      exact ⟨absent, known⟩
    next => cases fired
  | notice i entry =>
    simp only [fire] at fired
    split at fired
    next =>
      cases fired
      exact ⟨absent, known⟩
    next => cases fired
  | getCompletion =>
    cases fired
    exact ⟨(closed_polls domain absent).closed absent, known⟩

/-- Success is reported at most once, only when every domain has finished, and never after
a failure. -/
structure Honest (domain : RdmaDomain σ ε α) (messages : TransferId → Bool)
    (finished : σ → TransferId → List DomainOp → Prop) (start : Transfers σ N) : Prop where
  complete : ∀ actions state id, runs (fire domain messages) start actions = some state → state.Succeeds domain id →
    ∀ i, finished (state.domains i) id (state.handed i id)
  single : ∀ actions state id, runs (fire domain messages) start actions = some state → state.successes domain id ≤ 1
  last : ∀ actions state id later final, runs (fire domain messages) start actions = some state →
    state.Succeeds domain id ∨ state.Fails domain id →
      runs (fire domain messages) state (.getCompletion :: later) = some final →
    ¬ final.Succeeds domain id

theorem honest (accountable : Accountable domain books finished) (positive : 0 < N)
    (regions : Fin N → Domain) (domains : Fin N → σ) (opened : ∀ id i, books id [] 0 (domains i))
    (empty : ∀ i, domain.completions (domains i) = []) :
    Honest domain messages finished (.new positive regions domains) := by
  have watches : ∀ {id actions state}, messages id = false →
    runs (fire domain messages) (.new positive regions domains) actions = some state →
      Followed domain books id state := by
    intro id actions state transfer reached
    refine runs_invariant ⟨fun _ => [], fun i => ?_, (fun _ found => by cases found), fun _ => ⟨rfl, fun _ => rfl⟩⟩
      (fun _ _ _ ⟨_, watched⟩ fired => fire_watched accountable transfer watched fired) reached
    show Account books id [] ([] ++ domain.completions (domains i)) (domains i)
    rw [empty i]
    exact .inl ⟨nofun, opened id i⟩
  have mutes : ∀ {id actions state}, messages id = true →
    runs (fire domain messages) (.new positive regions domains) actions = some state →
      Closed messages id state := fun message reached =>
    runs_invariant ⟨rfl, .inr message⟩ (fun before action after closed fired => fire_closed closed fired) reached
  refine ⟨fun actions state id reached succeeds i => ?_, fun actions state id _ =>
    ?_, fun actions state id later final reached ends continued => ?_⟩
  · cases transfer : messages id with
    | false =>
      obtain ⟨taken, watched⟩ := watches transfer reached
      exact watched.complete accountable succeeds i
    | true => exact absurd succeeds (mutes transfer reached).silent
  · exact getCompletionFrom_once id _ (state.engine domain)
  · rw [runs_cons] at continued
    refine Closed.silent (runs_invariant ?_ (fun before action after closed fired => fire_closed closed fired) continued)
    cases transfer : messages id with
    | false =>
      obtain ⟨taken, watched⟩ := watches transfer reached
      rcases ends with succeeds | fails
      · obtain ⟨opened, closed, -⟩ := watched.polls.succeeds succeeds
        exact ⟨closed, .inl (by_contra fun fresh => opened (watched.unused fresh).1)⟩
      · obtain ⟨submitted, closed⟩ := watched.failed accountable fails
        exact ⟨closed, .inl submitted⟩
    | true => exact fire_closed (mutes transfer reached) (show fire domain messages state .getCompletion = _ from rfl)

end Transfers

end PplxGarden.Fabric
