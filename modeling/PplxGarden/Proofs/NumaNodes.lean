import PplxGarden.Proofs.CpuLists

/-! What is read of the NUMA nodes. The CPUs of the nodes that have some come one after the
other, in the order of the node numbers, and the numbers themselves are lost. -/

namespace PplxGarden.Fabric.Proofs
open Library Text List
variable {entries : List NodeEntry}

def IsNode (entry : NodeEntry) : Prop := entry.isDir = true ∧ ['n', 'o', 'd', 'e'].isPrefixOf entry.filename = true

instance (entry : NodeEntry) : Decidable (IsNode entry) := inferInstanceAs (Decidable (_ ∧ _))

def nodeNumber (entry : NodeEntry) : Option Nat :=
  if IsNode entry then fromStrRadix 10 (2 ^ 64) (entry.filename.drop 4) else none

def listedCpus (entry : NodeEntry) : List Nat := (entry.cpulist.bind parseCommaDashIntList).getD []

def cpusOf (entries : List NodeEntry) (node : Nat) : List Nat :=
  ((entries.find? fun entry => nodeNumber entry = some node).map listedCpus).getD []

/-- Directories of nodes with different numbers and CPUs of their own. -/
structure NodeDirectories (entries : List NodeEntry) : Prop where
  numbered : ∀ entry ∈ entries, IsNode entry → nodeNumber entry ≠ none
  distinct : (entries.filterMap nodeNumber).Nodup
  nodup : ∀ node, (cpusOf entries node).Nodup
  disjoint : ∀ first second, first ≠ second → (cpusOf entries first).Disjoint (cpusOf entries second)

def maxNode (entries : List NodeEntry) : Nat := (entries.filterMap nodeNumber).foldl max 0

def nodesWithCpus (entries : List NodeEntry) : List Nat :=
  (List.range (maxNode entries + 1)).filter fun node => cpusOf entries node ≠ []

private theorem lookup_filter_ne {entries : List (Nat × List Nat)} {key other : Nat} (differ : key ≠ other) :
    (entries.filter (·.1 ≠ other)).lookup key = entries.lookup key := by
  induction entries with
  | nil => rfl
  | cons entry entries ih =>
    obtain ⟨first, value⟩ := entry
    by_cases same : first = other
    · subst same
      rw [filter_cons_of_neg (by simp), lookup_cons, beq_false_of_ne differ]
      exact ih
    · rw [filter_cons_of_pos (by simpa using same), lookup_cons, lookup_cons, ih]

private theorem parse_returns (s : Text) : ∃ cpus, parseCommaDashIntList s = some cpus := by
  obtain ⟨parts, parsed⟩ := mapM_succeeds (s.splitOn ',') parsePart fun part _ => parsePart_returns part
  exact ⟨parts.flatten, by rw [parseCommaDashIntList, parsed]; rfl⟩

section Reading
variable {entry : NodeEntry} {rest : List NodeEntry} {state : NumaCpusMap}

private theorem readNodes_other (other : ¬ IsNode entry) : readNodes state (entry :: rest) = readNodes state rest := by
  rw [readNodes, if_pos]
  exact not_and_or.mp other

private theorem cut_node (node : IsNode entry) :
    entry.filename.cut 4 = some (['n', 'o', 'd', 'e'], entry.filename.drop 4) := by
  obtain ⟨name, same⟩ := isPrefixOf_iff_prefix.mp node.2
  rw [← same]
  exact cut_append ['n', 'o', 'd', 'e'] name

theorem readNodes_node {nodeId : Nat} (number : nodeNumber entry = some nodeId) :
    readNodes state (entry :: rest) =
      readNodes (if listedCpus entry = [] then state.1 else (nodeId, listedCpus entry) ::
        state.1.filter (·.1 ≠ nodeId), max state.2 nodeId) rest := by
  have node : IsNode entry := by
    by_contra other
    rw [nodeNumber, if_neg other] at number
    cases number
  rw [nodeNumber, if_pos node] at number
  have skipped : ¬ (¬ entry.isDir = true ∨
      ¬ ['n', 'o', 'd', 'e'].isPrefixOf entry.filename = true) := by
    simp [node.1, node.2]
  rw [readNodes, if_neg skipped, cut_node node]
  simp only [Option.bind_some, number]
  cases readable : entry.cpulist with
  | none =>
    have nothing : listedCpus entry = [] := by rw [listedCpus, readable]; rfl
    rw [if_pos nothing]
  | some cpulist =>
    obtain ⟨cpus, parsed⟩ := parse_returns cpulist
    have listed : listedCpus entry = cpus := by rw [listedCpus, readable, Option.bind_some, parsed]; rfl
    rw [listed]
    simp only [parsed, Option.bind_some]

end Reading

section
variable {entry : NodeEntry} {rest : List NodeEntry}

theorem cpusOf_cons (node : Nat) :
    cpusOf (entry :: rest) node = if nodeNumber entry = some node then listedCpus entry else cpusOf rest node := by
  rw [cpusOf, find?_cons]
  by_cases here : nodeNumber entry = some node
  · rw [decide_eq_true here, if_pos here]
    rfl
  · rw [decide_eq_false here, if_neg here]
    rfl

private theorem cpusOf_absent {node : Nat} (absent : node ∉ entries.filterMap nodeNumber) :
    cpusOf entries node = [] := by
  have missing : entries.find? (fun entry => nodeNumber entry = some node) = none := by
    refine find?_eq_none.mpr fun entry member here => absent ?_
    exact mem_filterMap.mpr ⟨entry, member, of_decide_eq_true here⟩
  rw [cpusOf, missing]
  rfl

theorem readNodes_reads (numbered : ∀ entry ∈ entries, IsNode entry → nodeNumber entry ≠ none)
    (distinct : (entries.filterMap nodeNumber).Nodup) (state : NumaCpusMap) :
    ∃ map, readNodes state entries =
      some (.ok (map, (entries.filterMap nodeNumber).foldl max state.2)) ∧
      ∀ node, map.lookup node = if cpusOf entries node = [] then state.1.lookup node
        else some (cpusOf entries node) := by
  induction entries generalizing state with
  | nil => exact ⟨state.1, rfl, fun node => (if_pos rfl).symm⟩
  | cons entry rest ih =>
    have later := forall_mem_cons.mp numbered
    cases number : nodeNumber entry with
    | none =>
      have other : ¬ IsNode entry := fun node => later.1 node number
      rw [filterMap_cons_none number] at distinct ⊢
      obtain ⟨map, read, lookup⟩ := ih later.2 distinct state
      refine ⟨map, (readNodes_other other).trans read, fun node => ?_⟩
      rw [lookup, cpusOf_cons, number]
      rfl
    | some nodeId =>
      rw [filterMap_cons_some number, nodup_cons] at distinct
      rw [filterMap_cons_some number, foldl_cons, readNodes_node number]
      obtain ⟨map, read, lookup⟩ := ih later.2 distinct.2
        (if listedCpus entry = [] then state.1 else (nodeId, listedCpus entry) :: state.1.filter
          (·.1 ≠ nodeId), max state.2 nodeId)
      refine ⟨map, read, fun node => ?_⟩
      rw [lookup, cpusOf_cons, number]
      by_cases here : nodeId = node
      · subst here
        rw [cpusOf_absent distinct.1, if_pos rfl, if_pos rfl]
        split
        next => rfl
        next => rw [lookup_cons, beq_self_eq_true]
      · rw [if_neg fun same => here (Option.some.inj same)]
        congr 1
        split
        next => rfl
        next => rw [lookup_cons, beq_false_of_ne (Ne.symm here)]; exact lookup_filter_ne (Ne.symm here)

end

private theorem filterMap_nonempty (values : Nat → List Nat) (nodes : List Nat) :
    (nodes.filterMap fun node => if values node = [] then none else some (values node)) =
      (nodes.filter fun node => values node ≠ []).map values := by
  induction nodes with
  | nil => rfl
  | cons node nodes ih =>
    by_cases empty : values node = []
    · rw [filterMap_cons_none (by rw [if_pos empty]), filter_cons_of_neg (by simpa using empty), ih]
    · rw [filterMap_cons_some (by rw [if_neg empty]), filter_cons_of_pos (by simpa using empty), map_cons, ih]

theorem getNumaPhysicalCpus_eq (directories : NodeDirectories entries) (cpuinfo : Option Text) :
    getNumaPhysicalCpus entries cpuinfo =
      if nodesWithCpus entries = [] then getFallbackCpus cpuinfo
        else some (.ok ((nodesWithCpus entries).map (cpusOf entries))) := by
  obtain ⟨map, read, lookup⟩ := readNodes_reads directories.numbered directories.distinct ([], 0)
  have cpus : ((List.range (maxNode entries + 1)).filterMap fun nodeId => map.lookup nodeId) =
      (nodesWithCpus entries).map (cpusOf entries) := by
    simp only [lookup]
    exact filterMap_nonempty (cpusOf entries) _
  rw [getNumaPhysicalCpus, read]
  show (if ((List.range (maxNode entries + 1)).filterMap fun nodeId => map.lookup nodeId) = [] then getFallbackCpus cpuinfo
    else some (.ok ((List.range (maxNode entries + 1)).filterMap fun nodeId => map.lookup nodeId))) = _
  simp only [cpus, map_eq_nil_iff]

private theorem le_foldl_max {numbers : List Nat} {number : Nat} (least : Nat)
    (within : number ≤ least ∨ number ∈ numbers) : number ≤ numbers.foldl max least := by
  induction numbers generalizing least with
  | nil => exact within.resolve_right not_mem_nil
  | cons first numbers ih =>
    refine ih (max least first) ?_
    rcases within with below | member
    · exact .inl (below.trans (Nat.le_max_left ..))
    · rcases mem_cons.mp member with rfl | later
      · exact .inl (Nat.le_max_right ..)
      · exact .inr later

theorem mem_nodesWithCpus {node : Nat} : node ∈ nodesWithCpus entries ↔ cpusOf entries node ≠ [] := by
  rw [nodesWithCpus, mem_filter, decide_eq_true_iff, and_iff_right_iff_imp]
  intro some_
  have listed : node ∈ entries.filterMap nodeNumber := by
    by_contra absent
    exact some_ (cpusOf_absent absent)
  exact mem_range.mpr (Nat.lt_succ_of_le (le_foldl_max 0 (.inr listed)))

theorem nodesWithCpus_sorted (entries : List NodeEntry) :
    (nodesWithCpus entries).Pairwise (· < ·) :=
  pairwise_lt_range.filter _

private theorem processorLine_returns (line : Text) : ∃ cpus, processorLine line = some cpus := by
  unfold processorLine
  split
  next =>
    split
    next colonPos found =>
      obtain ⟨before, after, rfl, _, rfl⟩ := find_eq_some found
      rw [cut_past rfl]
      exact ⟨_, rfl⟩
    next => exact ⟨_, rfl⟩
  next => exact ⟨_, rfl⟩

theorem getFallbackCpus_returns (cpuinfo : Option Text) : ∃ found, getFallbackCpus cpuinfo = some found := by
  cases cpuinfo with
  | none => exact ⟨_, rfl⟩
  | some cpuinfo =>
    obtain ⟨results, read⟩ := mapM_succeeds (cpuinfo.splitOn '\n') processorLine fun line _ => processorLine_returns line
    rw [getFallbackCpus, read]
    exact ⟨_, rfl⟩

end PplxGarden.Fabric.Proofs
