import AutopinPlus.CpuInfo
import AutopinPlus.SysFiles
import Mathlib.Data.List.Sort

/-!
# Reading the topology

`setupCpuInfo` sizes its tables by the number of CPUs and of nodes that are online and subscripts
them by ids. The ids of a machine are those subscripts exactly when they are contiguous. On a
machine where they are, a node without a CPU is read as the node of CPU 0.
-/
namespace AutopinPlus

open PartialStep (subscript assign assignAll)

namespace CpuInfo

def onlinePath : String := "/sys/devices/system/node/online"

def nodePath (node : Int) (name : String) : String :=
  "/sys/devices/system/node/node" ++ toString node ++ "/" ++ name

/-- The body of the loop over the nodes. -/
def addNode (fs : Sysfs) (c : CpuInfo) (node : Int) : Option CpuInfo := do
  let cpus := parseSysRangeFile fs (nodePath node "cpulist")
  let mapping ← cpus.foldlM (fun mapping cpu => assign mapping cpu node) c.mapping
  let distance := parseSysNodeDistance fs (nodePath node "distance")
  pure { mapping := mapping, distances := c.distances ++ [distance] }

def setupCpuInfo (fs : Sysfs) : Option CpuInfo :=
  (parseSysRangeFile fs onlinePath).foldlM (addNode fs) ⟨List.replicate fs.nprocs 0, []⟩

end CpuInfo

/-- What is online: the nodes, the CPUs of each, and the distances between nodes. Ids are
nonnegative `int`s that a loop can count past. -/
structure Topology where
  nodes : List Nat
  cpus : Nat → List Nat
  distance : Nat → Nat → Nat
  nodes_sorted : nodes.Pairwise (· < ·)
  cpus_sorted : ∀ node ∈ nodes, (cpus node).Pairwise (· < ·)
  apart : ∀ m ∈ nodes, ∀ n ∈ nodes, ∀ cpu ∈ cpus m, cpu ∈ cpus n → m = n
  populated : ∃ node ∈ nodes, cpus node ≠ []
  node_lt : ∀ node ∈ nodes, node < 2 ^ 31 - 1
  cpu_lt : ∀ node ∈ nodes, ∀ cpu ∈ cpus node, cpu < 2 ^ 31 - 1
  distance_lt : ∀ m n, distance m n < 2 ^ 31

namespace Topology

variable (T : Topology)

/-- The CPUs that are online, node by node. -/
def online : List Nat := T.nodes.flatMap T.cpus

/-- The ids are `0 .. n - 1` and `0 .. k - 1`. -/
structure Contiguous : Prop where
  cpus : ∀ cpu ∈ T.online, cpu < T.online.length
  nodes : ∀ node ∈ T.nodes, node < T.nodes.length

end Topology

/-- The files of a machine with this topology, as the kernel prints them. -/
structure Sysfs.Describes (fs : Sysfs) (T : Topology) : Prop where
  nprocs : fs.nprocs = T.online.length
  nodes : fs.file CpuInfo.onlinePath = some (SysText.list T.nodes)
  cpus : ∀ node ∈ T.nodes, fs.file (CpuInfo.nodePath node "cpulist") = some (SysText.list (T.cpus node))
  distances : ∀ node ∈ T.nodes,
    fs.file (CpuInfo.nodePath node "distance") = some (SysText.distances (T.nodes.map (T.distance node)))

namespace Topology

variable {T : Topology} {fs : Sysfs}

/-! ## What the setup assigns -/

/-- The CPUs that are read for a node. -/
def listed (T : Topology) (node : Nat) : List Nat := if T.cpus node = [] then [0] else T.cpus node

/-- The assignments made for a node. -/
def writes (T : Topology) (node : Nat) : List (Int × Int) :=
  (T.listed node).map (fun cpu => (Int.ofNat cpu, Int.ofNat node))

def row (T : Topology) (node : Nat) : List Int := T.nodes.map (fun other => Int.ofNat (T.distance node other))

theorem nodes_ne_nil (T : Topology) : T.nodes ≠ [] := by
  obtain ⟨node, hnode, -⟩ := T.populated
  exact List.ne_nil_of_mem hnode

theorem parse_nodes (h : fs.Describes T) :
    CpuInfo.parseSysRangeFile fs CpuInfo.onlinePath = T.nodes.map Int.ofNat := by
  have hlt : ∀ node ∈ T.nodes, node < 2 ^ 31 := by
    intro node hnode
    have := T.node_lt node hnode
    omega
  simp only [CpuInfo.parseSysRangeFile, h.nodes]
  exact SysText.parse_list T.nodes_ne_nil hlt

theorem parse_cpus (h : fs.Describes T) {node : Nat} (hnode : node ∈ T.nodes) :
    CpuInfo.parseSysRangeFile fs (CpuInfo.nodePath node "cpulist") = (T.listed node).map Int.ofNat := by
  have hlt : ∀ cpu ∈ T.cpus node, cpu < 2 ^ 31 := by
    intro cpu hcpu
    have := T.cpu_lt node hnode cpu hcpu
    omega
  simp only [CpuInfo.parseSysRangeFile, h.cpus node hnode, listed]
  split
  · rename_i hnil
    rw [hnil]
    exact SysText.parse_nil
  · rename_i hne
    exact SysText.parse_list hne hlt

theorem parse_row (h : fs.Describes T) {node : Nat} (hnode : node ∈ T.nodes) :
    CpuInfo.parseSysNodeDistance fs (CpuInfo.nodePath node "distance") = T.row node := by
  have hlt : ∀ d ∈ T.nodes.map (T.distance node), d < 2 ^ 31 := by
    intro d hd
    obtain ⟨other, -, rfl⟩ := List.mem_map.mp hd
    exact T.distance_lt node other
  simp only [CpuInfo.parseSysNodeDistance, h.distances node hnode]
  rw [SysText.parse_distances (by simpa using T.nodes_ne_nil) hlt, List.map_map]
  rfl

theorem addNode_eq (h : fs.Describes T) {node : Nat} (hnode : node ∈ T.nodes) (c : CpuInfo) :
    CpuInfo.addNode fs c (Int.ofNat node) =
      (assignAll c.mapping (T.writes node)).map (fun mapping => ⟨mapping, c.distances ++ [T.row node]⟩) := by
  have hloop : assignAll c.mapping (T.writes node) =
      ((T.listed node).map Int.ofNat).foldlM (fun mapping cpu => assign mapping cpu (Int.ofNat node))
        c.mapping := by
    rw [assignAll, writes, List.foldlM_map, List.foldlM_map]
  rw [hloop, ← parse_cpus h hnode, ← parse_row h hnode, Option.map_eq_bind]
  rfl

theorem addNodes_eq (h : fs.Describes T) {ns : List Nat} (hns : ∀ node ∈ ns, node ∈ T.nodes) (c : CpuInfo) :
    (ns.map Int.ofNat).foldlM (CpuInfo.addNode fs) c =
      (assignAll c.mapping (ns.flatMap T.writes)).map
        (fun mapping => ⟨mapping, c.distances ++ ns.map T.row⟩) := by
  induction ns generalizing c with
  | nil => simp [assignAll]
  | cons node ns ih =>
    rw [List.map_cons, List.foldlM_cons, addNode_eq h (hns node List.mem_cons_self), List.flatMap_cons,
      PartialStep.assignAll_append, Option.bind_eq_bind]
    cases assignAll c.mapping (T.writes node) with
    | none => rfl
    | some mapping =>
      rw [Option.map_some, Option.bind_some, Option.bind_some,
        ih (fun n hn => hns n (List.mem_cons_of_mem node hn))]
      simp only [List.append_assoc, List.singleton_append, List.map_cons]

/-- The setup makes the assignments of all nodes, in the order of their ids. -/
theorem setup_eq (h : fs.Describes T) :
    CpuInfo.setupCpuInfo fs =
      (assignAll (List.replicate T.online.length 0) (T.nodes.flatMap T.writes)).map
        (fun mapping => ⟨mapping, T.nodes.map T.row⟩) := by
  rw [CpuInfo.setupCpuInfo, parse_nodes h, addNodes_eq h (fun _ hn => hn), h.nprocs, List.nil_append]

/-! ## The CPUs that are online -/

theorem mem_online {cpu : Nat} : cpu ∈ T.online ↔ ∃ node ∈ T.nodes, cpu ∈ T.cpus node := List.mem_flatMap

theorem nodup_online (T : Topology) : T.online.Nodup := by
  refine List.nodup_flatMap.mpr ⟨?_, ?_⟩
  · intro node hnode
    exact (T.cpus_sorted node hnode).imp (fun h => ne_of_lt h)
  · refine T.nodes_sorted.imp_of_mem ?_
    intro m n hm hn hlt cpu hcm hcn
    exact absurd (T.apart m hm n hn cpu hcm hcn) (ne_of_lt hlt)

theorem online_ne_nil (T : Topology) : T.online ≠ [] := by
  obtain ⟨node, hnode, hne⟩ := T.populated
  obtain ⟨cpu, hcpu⟩ := List.exists_mem_of_ne_nil _ hne
  exact List.ne_nil_of_mem (mem_online.mpr ⟨node, hnode, hcpu⟩)

/-- As many ids as there are numbers below their count: they are all of these numbers. -/
theorem mem_of_lt_length {l : List Nat} (hnodup : l.Nodup) (hlt : ∀ a ∈ l, a < l.length) {a : Nat}
    (ha : a < l.length) : a ∈ l := by
  have hsub : l ⊆ List.range l.length := fun b hb => List.mem_range.mpr (hlt b hb)
  have hperm : l.Perm (List.range l.length) :=
    (List.subperm_of_subset hnodup hsub).perm_of_length_le (by simp)
  exact hperm.mem_iff.mpr (List.mem_range.mpr ha)

theorem zero_mem_online (h : ∀ cpu ∈ T.online, cpu < T.online.length) : 0 ∈ T.online :=
  mem_of_lt_length T.nodup_online h (List.length_pos_of_ne_nil T.online_ne_nil)

theorem Contiguous.nodes_eq_range (hT : T.Contiguous) : T.nodes = List.range T.nodes.length := by
  have hnodup : T.nodes.Nodup := T.nodes_sorted.imp (fun h => ne_of_lt h)
  refine T.nodes_sorted.eq_of_mem_iff List.pairwise_lt_range ?_
  intro node
  rw [List.mem_range]
  exact ⟨hT.nodes node, mem_of_lt_length hnodup hT.nodes⟩

theorem Contiguous.getElem?_nodes (hT : T.Contiguous) {node : Nat} (hnode : node ∈ T.nodes) :
    T.nodes[node]? = some node := by
  rw [hT.nodes_eq_range]
  exact List.getElem?_range (hT.nodes node hnode)

/-! ## The assignments -/

theorem mem_listed {cpu node : Nat} :
    cpu ∈ T.listed node ↔ cpu ∈ T.cpus node ∨ T.cpus node = [] ∧ cpu = 0 := by
  unfold listed
  split
  · rename_i hnil
    simp [hnil]
  · rename_i hne
    simp [hne]

theorem mem_writes {ns : List Nat} {w : Int × Int} :
    w ∈ ns.flatMap T.writes ↔ ∃ node ∈ ns, ∃ cpu ∈ T.listed node, w = (Int.ofNat cpu, Int.ofNat node) := by
  simp only [List.mem_flatMap, writes, List.mem_map, eq_comm]

/-- All assignments are inside the table exactly when all CPUs are. -/
theorem setup_isSome_iff (h : fs.Describes T) :
    (CpuInfo.setupCpuInfo fs).isSome ↔ ∀ cpu ∈ T.online, cpu < T.online.length := by
  rw [setup_eq h, Option.isSome_map, PartialStep.assignAll_isSome_iff, List.length_replicate]
  constructor
  · intro hall cpu hcpu
    obtain ⟨node, hnode, hmem⟩ := mem_online.mp hcpu
    have hlt := (hall _ (mem_writes.mpr ⟨node, hnode, cpu, mem_listed.mpr (.inl hmem), rfl⟩)).2
    exact Int.ofNat_lt.mp hlt
  · intro hall w hw
    obtain ⟨node, hnode, cpu, hcpu, rfl⟩ := mem_writes.mp hw
    have hlt : cpu < T.online.length := by
      rcases mem_listed.mp hcpu with hmem | ⟨-, rfl⟩
      · exact hall cpu (mem_online.mpr ⟨node, hnode, hmem⟩)
      · exact List.length_pos_of_ne_nil T.online_ne_nil
    exact ⟨Int.natCast_nonneg cpu, Int.ofNat_lt.mpr hlt⟩

section Setup

variable (h : fs.Describes T) {c : CpuInfo} (hc : CpuInfo.setupCpuInfo fs = some c)
include h hc

theorem setup_tables :
    assignAll (List.replicate T.online.length 0) (T.nodes.flatMap T.writes) = some c.mapping ∧
    c.distances = T.nodes.map T.row := by
  rw [setup_eq h] at hc
  obtain ⟨mapping, hmapping, rfl⟩ := Option.map_eq_some_iff.mp hc
  exact ⟨hmapping, rfl⟩

theorem setup_length : c.mapping.length = T.online.length := by
  rw [PartialStep.length_assignAll (setup_tables h hc).1, List.length_replicate]

/-- The distances of the nodes stand in the order of their ids. -/
theorem setup_distances : c.distances = T.nodes.map T.row := (setup_tables h hc).2

/-- A CPU that one of the last nodes lists is put on one of those that list it. -/
theorem setup_value {ns ms : List Nat} (hsplit : T.nodes = ns ++ ms) {cpu : Nat}
    (hcpu : ∃ node ∈ ms, cpu ∈ T.listed node) :
    ∃ node ∈ ms, cpu ∈ T.listed node ∧ c.mapping[cpu]? = some (node : Int) := by
  have hmapping := (setup_tables h hc).1
  rw [hsplit, List.flatMap_append, PartialStep.assignAll_append] at hmapping
  obtain ⟨before, -, hafter⟩ := Option.bind_eq_some_iff.mp hmapping
  have hassigned : ∃ w ∈ ms.flatMap T.writes, w.1 = Int.ofNat cpu := by
    obtain ⟨node, hnode, hmem⟩ := hcpu
    exact ⟨_, mem_writes.mpr ⟨node, hnode, cpu, hmem, rfl⟩, rfl⟩
  obtain ⟨w, hmem, hindex, hvalue⟩ := PartialStep.assignAll_value hafter hassigned
  obtain ⟨node, hnode, cpu', hlisted, rfl⟩ := mem_writes.mp hmem
  obtain rfl : cpu' = cpu := Int.ofNat.inj hindex
  rw [Int.ofNat_eq_natCast, PartialStep.subscript_natCast] at hvalue
  exact ⟨node, hnode, hlisted, hvalue⟩

/-- A CPU is put on a node that lists it. -/
theorem setup_online {cpu : Nat} (hcpu : cpu ∈ T.online) :
    ∃ node ∈ T.nodes, cpu ∈ T.listed node ∧ c.mapping[cpu]? = some (node : Int) := by
  obtain ⟨node, hnode, hmem⟩ := mem_online.mp hcpu
  exact setup_value h hc (List.nil_append T.nodes).symm ⟨node, hnode, mem_listed.mpr (.inl hmem)⟩

/-- On contiguous ids the tables have the form the lookups need. -/
theorem setup_dense (hT : T.Contiguous) : c.Dense T.online.length := by
  have hlength := setup_length h hc
  have hdistances := setup_distances h hc
  refine ⟨hlength, ?_, ?_⟩
  · intro value hvalue
    obtain ⟨cpu, hcpu⟩ := List.getElem?_of_mem hvalue
    have hlt : cpu < T.online.length := hlength ▸ (List.getElem?_eq_some_iff.mp hcpu).1
    obtain ⟨node, hnode, -, hmapping⟩ := setup_online h hc (mem_of_lt_length T.nodup_online hT.cpus hlt)
    obtain rfl : (node : Int) = value := Option.some.inj (hmapping.symm.trans hcpu)
    have hbound := hT.nodes node hnode
    rw [hdistances, List.length_map]
    omega
  · intro row hrow
    rw [hdistances] at hrow
    obtain ⟨node, -, rfl⟩ := List.mem_map.mp hrow
    rw [hdistances, row, List.length_map, List.length_map]

/-- The last node lists a CPU that is online, and this CPU is put on it. -/
theorem setup_last {ns : List Nat} {node : Nat} (hsplit : T.nodes = ns ++ [node]) :
    ∃ cpu ∈ T.online, c.mapping[cpu]? = some (node : Int) := by
  have hall := (setup_isSome_iff h).mp (Option.isSome_iff_exists.mpr ⟨c, hc⟩)
  have hlisted : ∃ cpu ∈ T.online, cpu ∈ T.listed node := by
    -- a node without a CPU lists CPU 0, and the ids that are online leave none out below their number
    cases hcpus : T.cpus node with
    | nil => exact ⟨0, zero_mem_online hall, mem_listed.mpr (.inr ⟨hcpus, rfl⟩)⟩
    | cons cpu rest =>
      have hmem : cpu ∈ T.cpus node := hcpus ▸ List.mem_cons_self
      have hnode : node ∈ T.nodes := hsplit ▸ List.mem_append_right ns (List.mem_singleton_self node)
      exact ⟨cpu, mem_online.mpr ⟨node, hnode, hmem⟩, mem_listed.mpr (.inl hmem)⟩
  obtain ⟨cpu, hcpu, hmem⟩ := hlisted
  obtain ⟨node', hnode', -, hvalue⟩ := setup_value h hc hsplit ⟨node, List.mem_singleton_self node, hmem⟩
  rw [List.mem_singleton.mp hnode'] at hvalue
  exact ⟨cpu, hcpu, hvalue⟩

end Setup

/-! ## Subscripts -/

/-- No subscript of the setup is out of bounds, and none of a lookup for CPUs that are online. -/
def IndicesValid (T : Topology) (fs : Sysfs) : Prop :=
  ∃ c, CpuInfo.setupCpuInfo fs = some c ∧
    ∀ cpu1 ∈ T.online, (c.getNodeByCpu cpu1).isSome ∧ ∀ cpu2 ∈ T.online, (c.getCpuDistance cpu1 cpu2).isSome

theorem Contiguous.indicesValid (hT : T.Contiguous) (h : fs.Describes T) : T.IndicesValid fs := by
  obtain ⟨c, hc⟩ := Option.isSome_iff_exists.mp ((setup_isSome_iff h).mpr hT.cpus)
  have hdense := setup_dense h hc hT
  refine ⟨c, hc, fun cpu1 hcpu1 => ⟨?_, fun cpu2 hcpu2 => ?_⟩⟩
  · obtain ⟨node, hnode, -⟩ :=
      hdense.getNodeByCpu (Int.natCast_nonneg cpu1) (Int.ofNat_lt.mpr (hT.cpus cpu1 hcpu1))
    exact Option.isSome_iff_exists.mpr ⟨node, hnode⟩
  · exact Option.isSome_iff_exists.mpr (hdense.getCpuDistance (hT.cpus cpu1 hcpu1) (hT.cpus cpu2 hcpu2))

theorem node_lt_of_getCpuDistance {c : CpuInfo} {cpu node : Nat} (hnode : c.mapping[cpu]? = some (node : Int))
    (h : (c.getCpuDistance cpu cpu).isSome) : node < c.distances.length := by
  simp only [CpuInfo.getCpuDistance, PartialStep.subscript_natCast, hnode, Option.bind_eq_bind,
    Option.bind_some] at h
  obtain ⟨d, hd⟩ := Option.isSome_iff_exists.mp h
  obtain ⟨row, hrow, -⟩ := Option.bind_eq_some_iff.mp hd
  exact (List.getElem?_eq_some_iff.mp hrow).1

/-- The subscripts are valid exactly when the ids are contiguous. -/
theorem indicesValid_iff (h : fs.Describes T) : T.IndicesValid fs ↔ T.Contiguous := by
  constructor
  · rintro ⟨c, hc, hlookups⟩
    refine ⟨(setup_isSome_iff h).mp (Option.isSome_iff_exists.mpr ⟨c, hc⟩), ?_⟩
    intro node hnode
    have hsplit := (List.dropLast_append_getLast T.nodes_ne_nil).symm
    obtain ⟨cpu, hcpu, hlast⟩ := setup_last h hc hsplit
    have hlt := node_lt_of_getCpuDistance hlast ((hlookups cpu hcpu).2 cpu hcpu)
    rw [setup_distances h hc, List.length_map] at hlt
    have hle : node ≤ T.nodes.getLast T.nodes_ne_nil := by
      have hsorted := T.nodes_sorted
      rw [hsplit] at hnode hsorted
      rcases List.mem_append.mp hnode with hmem | hmem
      · exact le_of_lt ((List.pairwise_append.mp hsorted).2.2 node hmem _ (List.mem_singleton_self _))
      · exact le_of_eq (List.mem_singleton.mp hmem)
    exact lt_of_le_of_lt hle hlt
  · intro hT
    exact hT.indicesValid h

/-- Four CPUs on two nodes. -/
def twoNodes : Topology where
  nodes := [0, 1]
  cpus node := if node = 0 then [0, 1] else [2, 3]
  distance m n := if m = n then 10 else 20
  nodes_sorted := by decide
  cpus_sorted := by decide
  apart := by decide
  populated := by decide
  node_lt := by decide
  cpu_lt := by decide
  distance_lt m n := by split <;> decide

def twoNodesFiles : Sysfs where
  nprocs := 4
  file path := List.lookup path
    [("/sys/devices/system/node/online", "0-1\n"),
      ("/sys/devices/system/node/node0/cpulist", "0-1\n"),
      ("/sys/devices/system/node/node0/distance", "10 20\n"),
      ("/sys/devices/system/node/node1/cpulist", "2-3\n"),
      ("/sys/devices/system/node/node1/distance", "20 10\n")]

theorem twoNodes_described : twoNodesFiles.Describes twoNodes := by constructor <;> decide +kernel

theorem twoNodes_contiguous : twoNodes.Contiguous := ⟨by decide, by decide⟩

theorem indicesValid_twoNodes : twoNodesFiles.Describes twoNodes ∧ twoNodes.IndicesValid twoNodesFiles :=
  ⟨twoNodes_described, (indicesValid_iff twoNodes_described).mpr twoNodes_contiguous⟩

/-- Two CPUs with an id between them that is offline. -/
def gap : Topology where
  nodes := [0]
  cpus _ := [0, 2]
  distance _ _ := 10
  nodes_sorted := by decide
  cpus_sorted := by decide
  apart := by decide
  populated := by decide
  node_lt := by decide
  cpu_lt := by decide
  distance_lt _ _ := by decide

def gapFiles : Sysfs where
  nprocs := 2
  file path := List.lookup path
    [("/sys/devices/system/node/online", "0\n"),
      ("/sys/devices/system/node/node0/cpulist", "0,2\n"),
      ("/sys/devices/system/node/node0/distance", "10\n")]

theorem not_indicesValid_gap : gapFiles.Describes gap ∧ ¬ gap.IndicesValid gapFiles := by
  have hnone : CpuInfo.setupCpuInfo gapFiles = none := by decide +kernel
  refine ⟨by constructor <;> decide +kernel, ?_⟩
  rintro ⟨c, hc, -⟩
  rw [hnone] at hc
  cases hc

/-! ## What the lookups return -/

/-- The lookups return what the files say. -/
structure ReadAs (T : Topology) (c : CpuInfo) : Prop where
  nodeByCpu : ∀ node ∈ T.nodes, ∀ cpu ∈ T.cpus node, c.getNodeByCpu cpu = some (node : Int)
  cpusByNode : ∀ node ∈ T.nodes, c.getCpusByNode node = T.cpus node
  cpuDistance : ∀ m ∈ T.nodes, ∀ n ∈ T.nodes, ∀ cpu1 ∈ T.cpus m, ∀ cpu2 ∈ T.cpus n,
    c.getCpuDistance cpu1 cpu2 = some (T.distance m n : Int)

/-- The nodes without a CPU come before the node of CPU 0. -/
def MemoryFirst (T : Topology) : Prop :=
  ∀ m ∈ T.nodes, T.cpus m = [] → ∀ n ∈ T.nodes, 0 ∈ T.cpus n → m < n

theorem Contiguous.getElem?_row (hT : T.Contiguous) {m n : Nat} (hn : n ∈ T.nodes) :
    (T.row m)[n]? = some (T.distance m n : Int) := by
  rw [row, List.getElem?_map, hT.getElem?_nodes hn, Option.map_some]
  rfl

/-- The nodes from a node on have no smaller id. -/
theorem le_of_split {ns ms : List Nat} {m n : Nat} (hsplit : T.nodes = ns ++ m :: ms) (hn : n ∈ m :: ms) :
    m ≤ n := by
  have hsorted := T.nodes_sorted
  rw [hsplit] at hsorted
  rcases List.mem_cons.mp hn with rfl | hn
  · exact le_refl n
  · exact le_of_lt ((List.pairwise_cons.mp (List.pairwise_append.mp hsorted).2.1).1 n hn)

section Lookups

variable (h : fs.Describes T) {c : CpuInfo} (hc : CpuInfo.setupCpuInfo fs = some c)
include h hc

/-- With these nodes first, no later node takes a CPU from the node that has it. -/
theorem MemoryFirst.setup_mapping (hfirst : T.MemoryFirst) {node cpu : Nat} (hnode : node ∈ T.nodes)
    (hcpu : cpu ∈ T.cpus node) : c.mapping[cpu]? = some (node : Int) := by
  obtain ⟨ns, ms, hsplit⟩ := List.append_of_mem hnode
  obtain ⟨node', hmem, hlisted, hvalue⟩ :=
    setup_value h hc hsplit ⟨node, List.mem_cons_self, mem_listed.mpr (.inl hcpu)⟩
  have hnode' : node' ∈ T.nodes := hsplit ▸ List.mem_append_right ns hmem
  -- the last node to list the CPU has it, or has none and would have to come before its node
  rcases mem_listed.mp hlisted with hcpu' | ⟨hnil, rfl⟩
  · rw [T.apart node hnode node' hnode' cpu hcpu hcpu']
    exact hvalue
  · have hlt := hfirst node' hnode' hnil node hnode hcpu
    have hle := le_of_split hsplit hmem
    omega

/-- A later node without a CPU takes CPU 0. -/
theorem setup_takes {m n : Nat} (hm : m ∈ T.nodes) (hnil : T.cpus m = []) (hlt : n < m) :
    c.mapping[0]? ≠ some (n : Int) := by
  obtain ⟨ns, ms, hsplit⟩ := List.append_of_mem hm
  obtain ⟨node, hmem, -, hvalue⟩ :=
    setup_value h hc hsplit ⟨m, List.mem_cons_self, mem_listed.mpr (.inr ⟨hnil, rfl⟩)⟩
  have hle := le_of_split hsplit hmem
  rw [hvalue]
  intro heq
  have : (node : Int) = n := Option.some.inj heq
  omega

theorem Contiguous.setup_row (hT : T.Contiguous) {node : Nat} (hnode : node ∈ T.nodes) :
    c.distances[node]? = some (T.row node) := by
  rw [setup_distances h hc, List.getElem?_map, hT.getElem?_nodes hnode, Option.map_some]

theorem MemoryFirst.readAs (hfirst : T.MemoryFirst) (hT : T.Contiguous) : T.ReadAs c := by
  have hmapping : ∀ node ∈ T.nodes, ∀ cpu ∈ T.cpus node, c.mapping[cpu]? = some (node : Int) :=
    fun _ hnode _ hcpu => hfirst.setup_mapping h hc hnode hcpu
  refine ⟨?_, ?_, ?_⟩
  · intro node hnode cpu hcpu
    rw [CpuInfo.getNodeByCpu, PartialStep.subscript_natCast]
    exact hmapping node hnode cpu hcpu
  · intro node hnode
    refine (List.pairwise_lt_range.filter _).eq_of_mem_iff (T.cpus_sorted node hnode) ?_
    intro cpu
    rw [← CpuInfo.getCpusByNode, CpuInfo.mem_getCpusByNode]
    constructor
    · intro hcpu
      have hlt : cpu < T.online.length := setup_length h hc ▸ (List.getElem?_eq_some_iff.mp hcpu).1
      obtain ⟨owner, howner, hmem⟩ := mem_online.mp (mem_of_lt_length T.nodup_online hT.cpus hlt)
      have hsame : (node : Int) = owner := Option.some.inj (hcpu.symm.trans (hmapping owner howner cpu hmem))
      rwa [Int.ofNat.inj hsame]
    · exact hmapping node hnode cpu
  · intro m hm n hn cpu1 hcpu1 cpu2 hcpu2
    simp only [CpuInfo.getCpuDistance, PartialStep.subscript_natCast, hmapping m hm cpu1 hcpu1,
      hmapping n hn cpu2 hcpu2, Option.bind_eq_bind, Option.bind_some, hT.setup_row h hc hm,
      hT.getElem?_row hn]

end Lookups

/-- On contiguous ids the topology is read as it is exactly when no node without a CPU comes after
the node of CPU 0. -/
theorem readAs_iff (h : fs.Describes T) (hT : T.Contiguous) :
    (∃ c, CpuInfo.setupCpuInfo fs = some c ∧ T.ReadAs c) ↔ T.MemoryFirst := by
  constructor
  · rintro ⟨c, hc, hread⟩ m hm hnil n hn hzero
    have hnode := hread.nodeByCpu n hn 0 hzero
    rw [CpuInfo.getNodeByCpu, PartialStep.subscript_natCast] at hnode
    by_contra hlt
    have hne : m ≠ n := by
      rintro rfl
      rw [hnil] at hzero
      cases hzero
    exact setup_takes h hc hm hnil (by omega) hnode
  · intro hfirst
    obtain ⟨c, hc⟩ := Option.isSome_iff_exists.mp ((setup_isSome_iff h).mpr hT.cpus)
    exact ⟨c, hc, hfirst.readAs h hc hT⟩

theorem readAs_twoNodes :
    twoNodesFiles.Describes twoNodes ∧ twoNodes.Contiguous ∧
      ∃ c, CpuInfo.setupCpuInfo twoNodesFiles = some c ∧ twoNodes.ReadAs c := by
  refine ⟨twoNodes_described, twoNodes_contiguous, (readAs_iff twoNodes_described twoNodes_contiguous).mpr ?_⟩
  unfold MemoryFirst
  decide

/-- Two CPUs on node 0 and memory on node 1. -/
def memoryLast : Topology where
  nodes := [0, 1]
  cpus node := if node = 0 then [0, 1] else []
  distance m n := if m = n then 10 else 20
  nodes_sorted := by decide
  cpus_sorted := by decide
  apart := by decide
  populated := by decide
  node_lt := by decide
  cpu_lt := by decide
  distance_lt m n := by split <;> decide

def memoryLastFiles : Sysfs where
  nprocs := 2
  file path := List.lookup path
    [("/sys/devices/system/node/online", "0-1\n"),
      ("/sys/devices/system/node/node0/cpulist", "0-1\n"),
      ("/sys/devices/system/node/node0/distance", "10 20\n"),
      ("/sys/devices/system/node/node1/cpulist", "\n"),
      ("/sys/devices/system/node/node1/distance", "20 10\n")]

/-- CPU 0 is put on node 1. -/
theorem not_readAs_memoryLast :
    memoryLastFiles.Describes memoryLast ∧ memoryLast.Contiguous ∧
      ¬ ∃ c, CpuInfo.setupCpuInfo memoryLastFiles = some c ∧ memoryLast.ReadAs c := by
  have hsetup : CpuInfo.setupCpuInfo memoryLastFiles = some ⟨[1, 0], [[10, 20], [20, 10]]⟩ := by
    decide +kernel
  refine ⟨by constructor <;> decide +kernel, ⟨by decide, by decide⟩, ?_⟩
  rintro ⟨c, hc, hread⟩
  obtain rfl : _ = c := Option.some.inj (hsetup.symm.trans hc)
  exact absurd (hread.nodeByCpu 0 (by decide) 0 (by decide)) (by decide)

end Topology

end AutopinPlus
