import PplxGarden.Library.Shares
import PplxGarden.Proofs.NumaNodes

/-! What a GPU is given. The GPUs of a node share its network cards, and the CPUs that stand at
the place of the node's number among the nodes with CPUs. -/

namespace PplxGarden.Fabric.Proofs
open Library Function List Option

def onNode (devices : List PciProp) (node : Nat) : List PciProp := devices.filter (·.numaNode = node)

theorem mem_onNode {devices : List PciProp} {node : Nat} {device : PciProp} :
    device ∈ onNode devices node ↔ device ∈ devices ∧ device.numaNode = node := by
  rw [onNode, mem_filter, decide_eq_true_iff]

section Counting
variable {size : Nat}

private theorem increment_tabulate (entry : Nat → Nat) {index : Nat} (inside : index < size) :
    increment (tabulate size entry) index = some (tabulate size (update entry index (entry index + 1))) := by
  rw [increment, tabulate_get entry inside, bind_some, tabulate_set entry _ inside]

private theorem increment_inside {vector after : List Nat} {index : Nat}
    (counted : increment vector index = some after) :
    index < vector.length ∧ after.length = vector.length := by
  obtain ⟨count, found, stored⟩ := bind_eq_some_iff.mp counted
  have inside := (List.getElem?_eq_some_iff.mp found).1
  rw [vecSet, if_pos inside] at stored
  cases stored
  exact ⟨inside, length_set⟩

theorem countGpus_tabulate {gpus : List PciProp} (inside : ∀ gpu ∈ gpus, gpu.numaNode < size) (entry : Nat → Nat) :
    gpus.foldlM (fun counts gpu => increment counts gpu.numaNode) (tabulate size entry) =
      some (tabulate size fun node => entry node + (onNode gpus node).length) := by
  induction gpus generalizing entry with
  | nil => rfl
  | cons gpu gpus ih =>
    obtain ⟨here, later⟩ := forall_mem_cons.mp inside
    rw [foldlM_cons, increment_tabulate entry here, bind_eq_bind, bind_some, ih later]
    refine congrArg some (tabulate_congr fun node _ => ?_)
    by_cases same : gpu.numaNode = node
    · subst same
      rw [update_self, onNode, onNode, filter_cons_of_pos (by simp), length_cons]
      omega
    · rw [update_of_ne (Ne.symm same), onNode, onNode, filter_cons_of_neg (by simpa using same)]

private theorem countGpus_eq {gpus : List PciProp} (inside : ∀ gpu ∈ gpus, gpu.numaNode < size) :
    countGpus gpus size = some (tabulate size fun node => (onNode gpus node).length) := by
  rw [countGpus, replicate_eq_tabulate, countGpus_tabulate inside]
  simp only [Nat.zero_add]

theorem countGpus_inside {gpus : List PciProp} {counts : List Nat} (counted : countGpus gpus size = some counts) :
    ∀ gpu ∈ gpus, gpu.numaNode < size := by
  have general (start : List Nat) (ran : gpus.foldlM (fun counts gpu =>
    increment counts gpu.numaNode) start = some counts) :
      ∀ gpu ∈ gpus, gpu.numaNode < start.length := by
    clear counted
    induction gpus generalizing start with
    | nil => exact fun _ member => absurd member not_mem_nil
    | cons gpu gpus ih =>
      rw [foldlM_cons] at ran
      obtain ⟨middle, here, later⟩ := bind_eq_some_iff.mp ran
      obtain ⟨inside, length⟩ := increment_inside here
      exact forall_mem_cons.mpr ⟨inside, length ▸ ih middle later⟩
  simpa using general _ counted

end Counting

def shareGroup (nics : List PciProp) (cpus : List Nat) (count : Nat) (numbered : PciProp × Nat) : PciTopoGroup :=
  ⟨numbered.1, share nics (nics.length / count) numbered.2, share cpus (cpus.length / count) numbered.2⟩

private theorem vecSlice_share {α : Type} (items : List α) {count place : Nat}
    (owner : place < count) :
    vecSlice items (place * (items.length / count)) ((place + 1) * (items.length / count)) =
      some (share items (items.length / count) place) := by
  have fits : (place + 1) * (items.length / count) ≤ items.length := share_fits owner
  have ordered : place * (items.length / count) ≤ (place + 1) * (items.length / count) :=
    Nat.mul_le_mul_right _ (Nat.le_succ _)
  rw [vecSlice, if_pos ⟨ordered, fits⟩, Nat.succ_mul, Nat.add_sub_cancel_left]
  rfl

section Assigning
variable {numaCpus : List (List Nat)} {counts : Nat → Nat} {node : Nat} {cpus : List Nat} {switch : PciSwitchGroup}

theorem assignGpu_eq (placed : numaCpus[node]? = some cpus)
    (counted : counts node = switch.gpus.length) {entry : Nat → Nat} {groups : List PciTopoGroup}
    {numbered : PciProp × Nat} (here : numbered.1.numaNode = node) (next : entry node = numbered.2)
    (owner : numbered.2 < switch.gpus.length) :
    assignGpu numaCpus (tabulate numaCpus.length counts) switch (tabulate numaCpus.length entry,
      groups) numbered =
      some (tabulate numaCpus.length (update entry node (numbered.2 + 1)),
        groups ++ [shareGroup switch.nics cpus switch.gpus.length numbered]) := by
  obtain ⟨gpu, place⟩ := numbered
  subst here
  have inside := (List.getElem?_eq_some_iff.mp placed).1
  have some_ : switch.gpus.length ≠ 0 := by omega
  simp only at next owner
  simp only [assignGpu, vecSlice_share switch.nics owner, tabulate_get entry inside,
    increment_tabulate entry inside, placed, tabulate_get counts inside,
    counted, if_neg some_, next, bind_eq_bind, bind_some]
  rw [← Nat.succ_mul, vecSlice_share cpus owner]
  rfl

theorem assignSwitch_from (placed : numaCpus[node]? = some cpus)
    (counted : counts node = switch.gpus.length) (gpus : List PciProp)
    (here : ∀ gpu ∈ gpus, gpu.numaNode = node) {place : Nat}
    (fits : place + gpus.length ≤ switch.gpus.length) {entry : Nat → Nat}
    (next : entry node = place) (groups : List PciTopoGroup) :
    (gpus.zipIdx place).foldlM (assignGpu numaCpus (tabulate numaCpus.length counts) switch)
      (tabulate numaCpus.length entry, groups) =
      some (tabulate numaCpus.length (update entry node (place + gpus.length)),
        groups ++ (gpus.zipIdx place).map (shareGroup switch.nics cpus switch.gpus.length)) := by
  induction gpus generalizing place entry groups with
  | nil =>
    subst next
    rw [zipIdx_nil, map_nil, append_nil, length_nil, Nat.add_zero, update_eq_self]
    rfl
  | cons gpu gpus ih =>
    obtain ⟨first, later⟩ := forall_mem_cons.mp here
    rw [length_cons] at fits
    rw [zipIdx_cons, foldlM_cons, assignGpu_eq placed counted first next (show place <
      switch.gpus.length by omega), bind_eq_bind,
      bind_some, ih later (by omega) (update_self ..), update_idem, map_cons, append_assoc, length_cons,
      Nat.add_comm gpus.length, ← Nat.add_assoc]
    rfl

variable {gpus nics : List PciProp}

def switchOn (gpus nics : List PciProp) (node : Nat) : PciSwitchGroup := ⟨onNode gpus node, onNode nics node⟩

def placeCpus (numaCpus : List (List Nat)) (node : Nat) : List Nat := numaCpus[node]?.getD []

def groupsOn (numaCpus : List (List Nat)) (gpus nics : List PciProp) (node : Nat) : List PciTopoGroup :=
  (onNode gpus node).zipIdx.map (shareGroup (onNode nics node) (placeCpus numaCpus node) (onNode gpus node).length)

theorem assignSwitch_eq (inside : node < numaCpus.length) {entry : Nat → Nat}
    (zero : entry node = 0) (groups : List PciTopoGroup) :
    assignSwitch numaCpus (tabulate numaCpus.length fun node => (onNode gpus node).length)
      (tabulate numaCpus.length entry, groups)
        (switchOn gpus nics node) =
      some (tabulate numaCpus.length (update entry node (onNode gpus node).length),
        groups ++ groupsOn numaCpus gpus nics node) := by
  have placed := List.getElem?_eq_getElem inside
  have served := @assignSwitch_from numaCpus (fun node => (onNode gpus node).length) node
    _ (switchOn gpus nics node) placed rfl
    (onNode gpus node) (fun gpu member => (mem_onNode.mp member).2) 0 (by simp [switchOn]) entry zero groups
  rw [Nat.zero_add] at served
  rw [groupsOn, placeCpus, placed]
  exact served

theorem assignSwitches {nodes : List Nat} (distinct : nodes.Nodup)
    (inside : ∀ node ∈ nodes, node < numaCpus.length) {entry : Nat → Nat}
    (start : ∀ node ∈ nodes, entry node = 0) (groups : List PciTopoGroup) :
    ∃ final, (nodes.map (switchOn gpus nics)).foldlM
        (assignSwitch numaCpus (tabulate numaCpus.length fun node => (onNode gpus node).length))
          (tabulate numaCpus.length entry, groups) =
      some (final, groups ++ nodes.flatMap (groupsOn numaCpus gpus nics)) := by
  induction nodes generalizing entry groups with
  | nil => exact ⟨_, by rw [flatMap_nil, append_nil]; rfl⟩
  | cons node nodes ih =>
    obtain ⟨absent, others⟩ := nodup_cons.mp distinct
    obtain ⟨first, later⟩ := forall_mem_cons.mp inside
    obtain ⟨zero, zeros⟩ := forall_mem_cons.mp start
    have untouched (other) (member : other ∈ nodes) : update entry node (onNode gpus node).length other = 0 := by
      rw [update_of_ne (ne_of_mem_of_not_mem member absent)]
      exact zeros other member
    obtain ⟨final, rest⟩ := ih others later untouched (groups ++ groupsOn numaCpus gpus nics node)
    refine ⟨final, ?_⟩
    rw [map_cons, foldlM_cons, assignSwitch_eq first zero, bind_eq_bind, bind_some, flatMap_cons, ← append_assoc]
    exact rest

end Assigning

private theorem switchGroups_eq (gpus nics : List PciProp) (nodes : List Nat) :
    ∃ sorted : List Nat, sorted.Perm nodes ∧ switchGroups gpus nics nodes = sorted.map (switchOn gpus nics) :=
  ⟨_, mergeSort_perm nodes fun first second => (switchOn gpus nics first).key ≤ (switchOn gpus nics second).key,
    (map_mergeSort (f := switchOn gpus nics) fun _ _ _ _ => rfl).symm⟩

section Detecting
variable {allPcis : List PciProp} {gpuId nicId : PciDeviceId} {order : NodeOrder (devicesOf allPcis gpuId)} {entries : List NodeEntry}
  {cpuinfo : Option Text} {numaCpus : List (List Nat)}

theorem detectSystemTopo_eq (read : getNumaPhysicalCpus entries cpuinfo = some (.ok numaCpus))
    (inside : ∀ gpu ∈ devicesOf allPcis gpuId, gpu.numaNode < numaCpus.length) :
    ∃ sorted : List Nat, sorted.Perm order.nodes ∧ detectSystemTopo allPcis gpuId nicId order entries cpuinfo =
      some (.ok (sorted.flatMap (groupsOn numaCpus (devicesOf allPcis gpuId) (devicesOf allPcis nicId)))) := by
  obtain ⟨sorted, perm, switches⟩ := switchGroups_eq (devicesOf allPcis gpuId) (devicesOf allPcis nicId) order.nodes
  have nodes (node) (member : node ∈ sorted) : node < numaCpus.length := by
    obtain ⟨gpu, listed, rfl⟩ := (order.complete node).mp (perm.mem_iff.mp member)
    exact inside gpu listed
  obtain ⟨final, assigned⟩ := @assignSwitches numaCpus (devicesOf allPcis gpuId)
    (devicesOf allPcis nicId) sorted (perm.nodup_iff.mpr order.distinct)
    nodes (fun _ => 0) (fun _ _ => rfl) []
  refine ⟨sorted, perm, ?_⟩
  rw [detectSystemTopo, read]
  simp only [bind_some, countGpus_eq inside, switches, replicate_eq_tabulate, assigned, map_some, nil_append]

private theorem detectSystemTopo_panics
    (read : getNumaPhysicalCpus entries cpuinfo = some (.ok numaCpus)) {gpu : PciProp}
    (member : gpu ∈ devicesOf allPcis gpuId) (outside : numaCpus.length ≤ gpu.numaNode) :
    detectSystemTopo allPcis gpuId nicId order entries cpuinfo = none := by
  have uncounted : countGpus (devicesOf allPcis gpuId) numaCpus.length = none := by
    refine eq_none_iff_forall_ne_some.mpr fun counts counted => ?_
    exact absurd (countGpus_inside counted gpu member) (Nat.not_lt.mpr outside)
  rw [detectSystemTopo, read]
  simp only [bind_some, uncounted, bind_none]

end Detecting

/-- The groups that are returned; an error returns none. -/
def groupsFound (found : Except FabricLibError (List PciTopoGroup)) : List PciTopoGroup := found.toOption.getD []

/-- Every GPU has one group, whose cards and CPUs are local to it and its own. -/
structure LocalGroups (cpus : Nat → List Nat) (gpus : List PciProp) (groups : List PciTopoGroup) : Prop where
  once : ∀ gpu ∈ gpus, (groups.map PciTopoGroup.gpu).count gpu = 1
  cpus : ∀ group ∈ groups, group.cpus ⊆ cpus group.gpu.numaNode
  nics : ∀ group ∈ groups, ∀ nic ∈ group.nics, nic.numaNode = group.gpu.numaNode
  apart : groups.Pairwise fun first second => first.cpus.Disjoint second.cpus ∧ first.nics.Disjoint second.nics

/-- The CPUs that stand at the place of a node's number are the node's, or too few to be given
to its GPUs. -/
def FindsCpus (entries : List NodeEntry) (gpus : List PciProp) (node : Nat) : Prop :=
  ∃ place, (nodesWithCpus entries)[node]? = some place ∧
    (place = node ∨ (cpusOf entries place).length < (onNode gpus node).length)

section Local
variable {numaCpus : List (List Nat)} {gpus nics : List PciProp}

private theorem mem_groupsOn {node : Nat} {group : PciTopoGroup}
    (member : group ∈ groupsOn numaCpus gpus nics node) :
    ∃ place, (onNode gpus node)[place]? = some group.gpu ∧
      group = shareGroup (onNode nics node) (placeCpus numaCpus node) (onNode gpus node).length
        (group.gpu, place) := by
  obtain ⟨⟨gpu, place⟩, listed, rfl⟩ := List.mem_map.mp member
  exact ⟨place, mem_zipIdx_iff_getElem?.mp listed, rfl⟩

private theorem groupsOn_gpus (node : Nat) :
    (groupsOn numaCpus gpus nics node).map PciTopoGroup.gpu = onNode gpus node := by
  rw [groupsOn, List.map_map]
  exact zipIdx_map_fst ..

private theorem groups_once {sorted : List Nat} (distinct : sorted.Nodup)
    (complete : ∀ gpu ∈ gpus, gpu.numaNode ∈ sorted) (nodup : gpus.Nodup) {gpu : PciProp}
    (member : gpu ∈ gpus) :
    ((sorted.flatMap (groupsOn numaCpus gpus nics)).map PciTopoGroup.gpu).count gpu = 1 := by
  rw [map_flatMap]
  simp only [groupsOn_gpus]
  refine count_eq_one_of_mem ?_ (mem_flatMap.mpr ⟨_, complete gpu member, mem_onNode.mpr ⟨member, rfl⟩⟩)
  refine nodup_flatMap.mpr ⟨fun node _ => nodup.filter _, distinct.imp fun differ => ?_⟩
  intro other here there
  exact differ ((mem_onNode.mp here).2.symm.trans (mem_onNode.mp there).2)

private theorem groupsOn_apart {node : Nat} (cpus : (placeCpus numaCpus node).Nodup)
    (cards : nics.Nodup) :
    (groupsOn numaCpus gpus nics node).Pairwise fun first second =>
      first.cpus.Disjoint second.cpus ∧ first.nics.Disjoint second.nics := by
  rw [groupsOn, pairwise_map, pairwise_iff_getElem]
  intro first second inside within before
  simp only [getElem_zipIdx, shareGroup, Nat.zero_add]
  exact ⟨share_disjoint cpus before, share_disjoint (cards.filter _) before⟩

theorem groupsOn_local {node : Nat} {group : PciTopoGroup} (member : group ∈ groupsOn numaCpus gpus nics node) :
    group.gpu.numaNode = node ∧ group.cpus ⊆ placeCpus numaCpus node ∧ ∀ nic ∈ group.nics, nic.numaNode = node := by
  obtain ⟨place, found, shape⟩ := mem_groupsOn member
  refine ⟨(mem_onNode.mp (mem_of_getElem? found)).2, ?_, ?_⟩
  · rw [shape]
    exact share_subset ..
  · rw [shape]
    exact fun nic listed => (mem_onNode.mp (share_subset _ _ _ listed)).2

/-- The groups of different nodes have nothing in common if the CPUs of their places have not. -/
theorem groups_apart {sorted : List Nat} (distinct : sorted.Nodup) (cards : nics.Nodup)
    (cpus : ∀ node, (placeCpus numaCpus node).Nodup)
    (disjoint : ∀ first second, first ≠ second →
      (placeCpus numaCpus first).Disjoint (placeCpus numaCpus second)) :
    (sorted.flatMap (groupsOn numaCpus gpus nics)).Pairwise fun first second =>
      first.cpus.Disjoint second.cpus ∧ first.nics.Disjoint second.nics := by
  refine pairwise_flatMap.mpr ⟨fun node _ => groupsOn_apart (cpus node) cards, distinct.imp fun differ => ?_⟩
  intro first here second there
  obtain ⟨_, firstCpus, firstNics⟩ := groupsOn_local here
  obtain ⟨_, secondCpus, secondNics⟩ := groupsOn_local there
  refine ⟨fun cpu left right => disjoint _ _ differ (firstCpus left) (secondCpus right), fun nic left right => ?_⟩
  exact differ ((firstNics nic left).symm.trans (secondNics nic right))

private theorem groupsOn_first {node : Nat} {gpu : PciProp} (member : gpu ∈ onNode gpus node)
    (enough : (onNode gpus node).length ≤ (placeCpus numaCpus node).length) :
    ∃ group ∈ groupsOn numaCpus gpus nics node, group.cpus ≠ [] := by
  have some_ := length_pos_of_mem member
  refine ⟨shareGroup _ _ _ ((onNode gpus node)[0], 0),
    List.mem_map_of_mem (mem_zipIdx_iff_getElem?.mpr (List.getElem?_eq_getElem some_)), ?_⟩
  exact share_first (Nat.div_pos enough some_) (Nat.div_le_self ..)

end Local

section Places
variable {entries : List NodeEntry}

theorem placeCpus_eq (node : Nat) :
    placeCpus ((nodesWithCpus entries).map (cpusOf entries)) node =
      ((nodesWithCpus entries)[node]?.map (cpusOf entries)).getD [] := by
  rw [placeCpus, getElem?_map]

private theorem placeCpus_nodup (directories : NodeDirectories entries) (node : Nat) :
    (placeCpus ((nodesWithCpus entries).map (cpusOf entries)) node).Nodup := by
  rw [placeCpus_eq]
  cases (nodesWithCpus entries)[node]? with
  | none => exact nodup_nil
  | some place => exact directories.nodup place

theorem placeCpus_disjoint (directories : NodeDirectories entries) (first second : Nat)
    (differ : first ≠ second) :
    (placeCpus ((nodesWithCpus entries).map (cpusOf entries)) first).Disjoint
      (placeCpus ((nodesWithCpus entries).map (cpusOf entries)) second) := by
  rw [placeCpus_eq, placeCpus_eq]
  cases here : (nodesWithCpus entries)[first]? with
  | none => exact disjoint_nil_left _
  | some place =>
    cases there : (nodesWithCpus entries)[second]? with
    | none => exact disjoint_nil_right _
    | some other =>
      refine directories.disjoint place other fun same => differ ?_
      have nodup : (nodesWithCpus entries).Nodup := (nodesWithCpus_sorted entries).imp Nat.ne_of_lt
      exact (getElem?_inj (List.getElem?_eq_some_iff.mp here).1 nodup).mp (here.trans (same ▸ there.symm))

end Places

section Groups
variable {entries : List NodeEntry} {gpus nics : List PciProp} {node place : Nat}

theorem placeCpus_of (found : (nodesWithCpus entries)[node]? = some place) :
    placeCpus ((nodesWithCpus entries).map (cpusOf entries)) node = cpusOf entries place := by
  rw [placeCpus_eq, found]
  rfl

theorem groupsOn_cpus {group : PciTopoGroup}
    (member : group ∈ groupsOn ((nodesWithCpus entries).map (cpusOf entries)) gpus nics node)
    (finds : FindsCpus entries gpus node) : group.cpus ⊆ cpusOf entries node := by
  obtain ⟨place, found, own | few⟩ := finds
  · subst own
    have subset := (groupsOn_local member).2.1
    rwa [placeCpus_of found] at subset
  · -- Another node has too few CPUs for a share, so none is given out.
    obtain ⟨_, _, shape⟩ := mem_groupsOn member
    have empty : group.cpus = [] := by
      rw [shape, placeCpus_of found]
      show share _ ((cpusOf entries place).length / (onNode gpus node).length) _ = []
      rw [Nat.div_eq_of_lt few, share_zero]
    rw [empty]
    exact nil_subset _

theorem findsCpus_of_local (directories : NodeDirectories entries) {gpu : PciProp}
    (listed : gpu ∈ gpus) (found : (nodesWithCpus entries)[gpu.numaNode]? = some place)
    (inside : ∀ group ∈ groupsOn ((nodesWithCpus entries).map
      (cpusOf entries)) gpus nics gpu.numaNode, group.cpus ⊆ cpusOf entries group.gpu.numaNode) :
    FindsCpus entries gpus gpu.numaNode := by
  refine ⟨place, found, or_iff_not_imp_left.mpr fun other => ?_⟩
  by_contra enough
  rw [← placeCpus_of found, Nat.not_lt] at enough
  obtain ⟨group, member, some_⟩ := groupsOn_first (mem_onNode.mpr ⟨listed, rfl⟩) enough
  obtain ⟨cpu, given⟩ := exists_mem_of_ne_nil _ some_
  obtain ⟨here, subset, _⟩ := groupsOn_local member
  have elsewhere := subset given
  have own := inside group member given
  rw [placeCpus_of found] at elsewhere
  rw [here] at own
  exact directories.disjoint place gpu.numaNode other elsewhere own

theorem localGroups_iff (directories : NodeDirectories entries) (distinctGpus : gpus.Nodup)
    (distinctNics : nics.Nodup) {sorted : List Nat} (distinct : sorted.Nodup)
    (complete : ∀ node, node ∈ sorted ↔ ∃ gpu ∈ gpus, gpu.numaNode = node)
    (inside : ∀ gpu ∈ gpus, gpu.numaNode < (nodesWithCpus entries).length) :
    LocalGroups (cpusOf entries) gpus
      (sorted.flatMap (groupsOn ((nodesWithCpus entries).map (cpusOf entries)) gpus nics)) ↔
      ∀ gpu ∈ gpus, FindsCpus entries gpus gpu.numaNode := by
  constructor
  · intro groups gpu listed
    have used : gpu.numaNode ∈ sorted := (complete _).mpr ⟨gpu, listed, rfl⟩
    have found := List.getElem?_eq_getElem (inside gpu listed)
    exact @findsCpus_of_local entries gpus nics _ directories gpu listed found fun group member =>
      groups.cpus group (mem_flatMap.mpr ⟨_, used, member⟩)
  · intro finds
    refine ⟨fun gpu listed => groups_once distinct (fun other member =>
      (complete _).mpr ⟨other, member, rfl⟩) distinctGpus listed, ?_, ?_,
      groups_apart distinct distinctNics (placeCpus_nodup directories) (placeCpus_disjoint directories)⟩
    · intro group member
      obtain ⟨node, used, here⟩ := mem_flatMap.mp member
      obtain ⟨gpu, listed, rfl⟩ := (complete node).mp used
      rw [(groupsOn_local here).1]
      exact groupsOn_cpus here (finds gpu listed)
    · intro group member
      obtain ⟨node, _, here⟩ := mem_flatMap.mp member
      rw [(groupsOn_local here).1]
      exact (groupsOn_local here).2.2

end Groups

private theorem devicesOf_nodup {allPcis : List PciProp}
    (distinct : (allPcis.map PciProp.pciAddr).Nodup) (id : PciDeviceId) :
    (devicesOf allPcis id).Nodup :=
  (Nodup.of_map _ distinct).filter _

theorem detectSystemTopo_unused {allPcis : List PciProp} {gpuId nicId : PciDeviceId}
    {order : NodeOrder (devicesOf allPcis gpuId)} {entries : List NodeEntry} {cpuinfo : Option Text}
    {numaCpus : Except FabricLibError (List (List Nat))} {cpus : Nat → List Nat}
    (read : getNumaPhysicalCpus entries cpuinfo = some numaCpus)
    (unused : devicesOf allPcis gpuId = []) :
    ∃ found, detectSystemTopo allPcis gpuId nicId order entries cpuinfo = some found ∧
      LocalGroups cpus (devicesOf allPcis gpuId) (groupsFound found) := by
  have fresh : LocalGroups cpus (devicesOf allPcis gpuId) [] := ⟨by simp [unused], by simp, by simp, Pairwise.nil⟩
  cases numaCpus with
  | error error => exact ⟨.error error, by rw [detectSystemTopo, read]; rfl, fresh⟩
  | ok numaCpus =>
    obtain ⟨sorted, perm, detected⟩ :=
      @detectSystemTopo_eq allPcis gpuId nicId order entries cpuinfo _ read (by simp [unused])
    have empty : order.nodes = [] := eq_nil_iff_forall_not_mem.mpr fun node listed => by
      simpa [unused] using (order.complete node).mp listed
    rw [empty, perm_nil] at perm
    subst perm
    exact ⟨_, detected, fresh⟩

/-- The detection is right exactly if the CPUs at the place of each GPU's node are the node's
own, or are not given out. -/
theorem topology_local {allPcis : List PciProp} {gpuId nicId : PciDeviceId}
    {order : NodeOrder (devicesOf allPcis gpuId)} {entries : List NodeEntry} (cpuinfo : Option Text)
    (distinct : (allPcis.map PciProp.pciAddr).Nodup) (directories : NodeDirectories entries)
    (served : ∀ gpu ∈ devicesOf allPcis gpuId, cpusOf entries gpu.numaNode ≠ []) :
    (∃ found, detectSystemTopo allPcis gpuId nicId order entries cpuinfo = some found ∧
        LocalGroups (cpusOf entries) (devicesOf allPcis gpuId) (groupsFound found)) ↔
      ∀ gpu ∈ devicesOf allPcis gpuId,
        FindsCpus entries (devicesOf allPcis gpuId) gpu.numaNode := by
  have read := getNumaPhysicalCpus_eq directories cpuinfo
  by_cases none : nodesWithCpus entries = []
  · -- The fallback is reached only on a machine without GPUs.
    have unused : devicesOf allPcis gpuId = [] := eq_nil_iff_forall_not_mem.mpr fun gpu member => by
      simpa [none] using mem_nodesWithCpus.mpr (served gpu member)
    rw [if_pos none] at read
    refine iff_of_true ?_ (by simp [unused])
    obtain ⟨found, fell⟩ := getFallbackCpus_returns cpuinfo
    exact detectSystemTopo_unused (read.trans fell) unused
  · rw [if_neg none] at read
    by_cases inside : ∀ gpu ∈ devicesOf allPcis gpuId, gpu.numaNode < (nodesWithCpus entries).length
    · obtain ⟨sorted, perm, detected⟩ :=
        @detectSystemTopo_eq allPcis gpuId nicId order entries cpuinfo _ read
        (by simpa using inside)
      have groups := localGroups_iff directories (devicesOf_nodup distinct gpuId) (devicesOf_nodup distinct nicId)
        (perm.nodup_iff.mpr order.distinct) (fun node => perm.mem_iff.trans (order.complete node)) inside
      rw [detected, ← groups]
      simp only [Option.some.injEq, exists_eq_left']
      exact Iff.rfl
    · -- Fewer nodes have CPUs than the number of a GPU's node says.
      obtain ⟨gpu, listed, outside⟩ : ∃ gpu ∈ devicesOf allPcis gpuId, (nodesWithCpus entries).length ≤ gpu.numaNode := by
        simpa using inside
      refine iff_of_false ?_ fun finds => ?_
      · rw [@detectSystemTopo_panics allPcis gpuId nicId order entries cpuinfo _ read gpu listed (by simpa using outside)]
        simp
      · obtain ⟨place, found, _⟩ := finds gpu listed
        exact absurd (List.getElem?_eq_some_iff.mp found).1 (Nat.not_lt.mpr outside)

/-- A machine with two nodes, given by their cpulists. -/
def twoNodes (first second : Text) : List NodeEntry :=
  [⟨true, "node0".toList, some first⟩, ⟨true, "node1".toList, some second⟩]

section TwoNodes
variable {first second : Text} {cpus others : List Nat}

theorem cpusOf_twoNodes (here : parseCommaDashIntList first = some cpus)
    (there : parseCommaDashIntList second = some others) (node : Nat) :
    cpusOf (twoNodes first second) node = if node = 0 then cpus else if node = 1 then others
      else [] := by
  have zero : nodeNumber ⟨true, "node0".toList, some first⟩ = some 0 := rfl
  have one : nodeNumber ⟨true, "node1".toList, some second⟩ = some 1 := rfl
  have cpusZero : listedCpus ⟨true, "node0".toList, some first⟩ = cpus := by simp [listedCpus, here]
  have cpusOne : listedCpus ⟨true, "node1".toList, some second⟩ = others := by simp [listedCpus, there]
  rw [twoNodes, cpusOf_cons, cpusOf_cons, zero, one, cpusZero, cpusOne]
  simp only [Option.some.injEq, eq_comm]
  rfl

theorem twoNodes_directories (here : parseCommaDashIntList first = some cpus)
    (there : parseCommaDashIntList second = some others) (nodup : cpus.Nodup)
    (nodupOthers : others.Nodup) (apart : ∀ cpu ∈ cpus, cpu ∉ others) :
    NodeDirectories (twoNodes first second) := by
  have numbers : (twoNodes first second).filterMap nodeNumber = [0, 1] := rfl
  refine ⟨?_, by rw [numbers]; decide, fun node => ?_, fun node other differ => ?_⟩
  · intro entry member _
    simp only [twoNodes, mem_cons, not_mem_nil, or_false] at member
    rcases member with rfl | rfl
    · exact some_ne_none 0
    · exact some_ne_none 1
  · rw [cpusOf_twoNodes here there]
    by_cases zero : node = 0
    · rwa [if_pos zero]
    by_cases one : node = 1
    · rwa [if_neg zero, if_pos one]
    · rw [if_neg zero, if_neg one]
      exact nodup_nil
  · intro cpu left right
    rw [cpusOf_twoNodes here there] at left right
    grind

end TwoNodes

def soleGpuId : PciDeviceId := ⟨0x10de, 0x2330⟩

def soleNicId : PciDeviceId := ⟨0x17db, 0x0501⟩

/-- The one GPU of the machine, on its second node. -/
def soleGpu : PciProp := ⟨⟨0, 1, 0, 0⟩, soleGpuId, 1⟩

def soleOrder : NodeOrder (devicesOf [soleGpu] soleGpuId) where
  nodes := [1]
  distinct := nodup_singleton 1
  complete node := by simp [devicesOf, soleGpu, eq_comm]

theorem second_node_panics :
    NodeDirectories (twoNodes "\n".toList "0-3\n".toList) ∧
      (∀ gpu ∈ devicesOf [soleGpu] soleGpuId, cpusOf (twoNodes "\n".toList "0-3\n".toList) gpu.numaNode ≠ []) ∧
      detectSystemTopo [soleGpu] soleGpuId soleNicId soleOrder (twoNodes "\n".toList "0-3\n".toList) none = none := by
  refine ⟨@twoNodes_directories _ _ [] [0, 1, 2, 3] rfl rfl (by decide) (by decide) (by decide), by decide, by rfl⟩

theorem topology_local_second :
    FindsCpus (twoNodes "0-3\n".toList "4-7\n".toList) (devicesOf [soleGpu] soleGpuId) 1 ∧
      ∃ found, detectSystemTopo [soleGpu] soleGpuId soleNicId soleOrder
        (twoNodes "0-3\n".toList "4-7\n".toList) none = some found ∧
        LocalGroups (cpusOf (twoNodes "0-3\n".toList "4-7\n".toList))
          (devicesOf [soleGpu] soleGpuId) (groupsFound found) := by
  have own : FindsCpus (twoNodes "0-3\n".toList "4-7\n".toList) (devicesOf [soleGpu] soleGpuId) 1 := ⟨1, by rfl, Or.inl rfl⟩
  have directories := @twoNodes_directories "0-3\n".toList "4-7\n".toList [0, 1, 2, 3] [4, 5, 6,
    7] rfl rfl (by decide) (by decide) (by decide)
  refine ⟨own, (topology_local none (by decide) directories (by decide)).mpr fun gpu listed => ?_⟩
  rw [show gpu = soleGpu by simpa [devicesOf] using (mem_filter.mp listed).1]
  exact own

end PplxGarden.Fabric.Proofs
