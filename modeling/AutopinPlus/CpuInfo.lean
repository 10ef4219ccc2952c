import AutopinPlus.PartialStep

/-!
# CPU topology

The two static tables of `CpuInfo` and the lookups the strategies make. A lookup
outside a table has no defined result.
-/
namespace AutopinPlus

open PartialStep (subscript subscript_isSome_iff)

/-- `mapping` gives the NUMA node of a CPU, `distances` the node distances. -/
structure CpuInfo where
  mapping : List Int
  distances : List (List Int)
  deriving DecidableEq, Repr

namespace CpuInfo

def getNodeCount (c : CpuInfo) : Nat := c.distances.length

def getNodeByCpu (c : CpuInfo) (cpu : Int) : Option Int := subscript c.mapping cpu

def getCpuDistance (c : CpuInfo) (cpu1 cpu2 : Int) : Option Int := do
  let node1 ← subscript c.mapping cpu1
  let node2 ← subscript c.mapping cpu2
  let row ← subscript c.distances node1
  subscript row node2

def getCpusByNode (c : CpuInfo) (node : Int) : List Nat :=
  (List.range c.mapping.length).filter (fun i => c.mapping[i]? = some node)

theorem mem_getCpusByNode (c : CpuInfo) (node : Int) (cpu : Nat) :
    cpu ∈ c.getCpusByNode node ↔ c.mapping[cpu]? = some node := by
  simp only [getCpusByNode, List.mem_filter, List.mem_range, decide_eq_true_eq, and_iff_right_iff_imp]
  intro h
  exact (List.getElem?_eq_some_iff.mp h).1

/-- `n` CPUs, each on one of the nodes `0 .. k - 1`, and a full distance table. -/
structure Dense (c : CpuInfo) (n : Nat) : Prop where
  cpus : c.mapping.length = n
  nodes : ∀ node ∈ c.mapping, 0 ≤ node ∧ node < c.distances.length
  rows : ∀ row ∈ c.distances, row.length = c.distances.length

theorem Dense.getNodeByCpu {c : CpuInfo} {n : Nat} (h : c.Dense n) {cpu : Int}
    (h0 : 0 ≤ cpu) (hn : cpu < n) :
    ∃ node, c.getNodeByCpu cpu = some node ∧ 0 ≤ node ∧ node < c.distances.length := by
  have hs : (subscript c.mapping cpu).isSome :=
    (subscript_isSome_iff _ _).mpr ⟨h0, by rw [h.cpus]; exact hn⟩
  obtain ⟨node, hnode⟩ := Option.isSome_iff_exists.mp hs
  refine ⟨node, hnode, h.nodes node ?_⟩
  exact List.mem_of_getElem? (PartialStep.subscript_eq_some hnode).2.2

/-- On such a machine every distance between two of its CPUs is defined. -/
theorem Dense.getCpuDistance {c : CpuInfo} {n : Nat} (h : c.Dense n) {i j : Nat}
    (hi : i < n) (hj : j < n) : ∃ d, c.getCpuDistance i j = some d := by
  obtain ⟨a, ha, ha0, hak⟩ := h.getNodeByCpu (Int.natCast_nonneg i) (Int.ofNat_lt.mpr hi)
  obtain ⟨b, hb, hb0, hbk⟩ := h.getNodeByCpu (Int.natCast_nonneg j) (Int.ofNat_lt.mpr hj)
  obtain ⟨row, hrow⟩ :=
    Option.isSome_iff_exists.mp ((subscript_isSome_iff c.distances a).mpr ⟨ha0, hak⟩)
  have hmem : row ∈ c.distances := List.mem_of_getElem? (PartialStep.subscript_eq_some hrow).2.2
  obtain ⟨d, hd⟩ := Option.isSome_iff_exists.mp
    ((subscript_isSome_iff row b).mpr ⟨hb0, by rw [h.rows row hmem]; exact hbk⟩)
  refine ⟨d, ?_⟩
  rw [CpuInfo.getNodeByCpu] at ha hb
  simp only [CpuInfo.getCpuDistance, ha, hb, hrow, Option.bind_eq_bind, Option.bind_some, hd]

end CpuInfo

end AutopinPlus
