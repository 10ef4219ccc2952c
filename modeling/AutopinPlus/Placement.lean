import AutopinPlus.FirstBest
import AutopinPlus.IdleCpu

/-!
# Where a new task goes

Both strategies put a new task on one free CPU if there is any. Compact keeps the best pair of a free
CPU and a CPU of its own process; its bound starts at the number of CPUs, which is no distance.
-/
namespace AutopinPlus

open FirstBest (improve foldl_improve)

variable {D : Type}

/-! ## The loops of Compact as one list of candidates -/

namespace Compact

variable {c : CpuInfo} {pid tid : Int} {cur : Pinning} {i j : Nat}

/-- The process has a task on the CPU. -/
def Held (cur : Pinning) (pid : Int) (j : Nat) : Prop := ∃ task, cur[j]? = some task ∧ task.pid = pid

/-- There is a distance from every free CPU to every CPU of the process. -/
def Measured (c : CpuInfo) (pid : Int) (cur : Pinning) : Prop :=
  ∀ i j : Nat, cur[i]? = some emptyTask → Held cur pid j → ∃ d, c.getCpuDistance i j = some d

theorem measured_of_dense (h : c.Dense cur.length) (pid : Int) : Measured c pid cur := by
  rintro i j hi ⟨task, hj, -⟩
  exact h.getCpuDistance (List.getElem?_eq_some_iff.mp hi).1 (List.getElem?_eq_some_iff.mp hj).1

/-- The distance from `i` to `j`, when the process has `j`. -/
def candidate (c : CpuInfo) (pid : Int) (cur : Pinning) (i j : Nat) : Option (Nat × Int) :=
  if cur[j]?.map Task.pid = some pid then
    (c.getCpuDistance i j).map (fun d => ((d % 2 ^ 32).toNat, (i : Int)))
  else none

def candidates (c : CpuInfo) (pid : Int) (cur : Pinning) (i : Nat) : List (Nat × Int) :=
  (List.range cur.length).filterMap (candidate c pid cur i)

def frees (cur : Pinning) : List Nat :=
  (List.range cur.length).filter (fun i => decide (cur[i]? = some emptyTask))

theorem compare_eq (hm : Measured c pid cur) (hi : cur[i]? = some emptyTask) (hj : j < cur.length)
    (acc : Nat × Int) :
    compare c pid cur i acc j = some ((candidate c pid cur i j).toList.foldl improve acc) := by
  obtain ⟨task, htask⟩ : ∃ task, cur[j]? = some task := ⟨_, List.getElem?_eq_getElem hj⟩
  by_cases hpid : task.pid = pid
  · obtain ⟨d, hd⟩ := hm i j hi ⟨task, htask, hpid⟩
    simp only [compare, candidate, htask, hd, hpid, Option.bind_eq_bind, Option.bind_some, Option.map_some,
      if_true, Option.toList_some, List.foldl_cons, List.foldl_nil, improve]
    split <;> rfl
  · simp [compare, candidate, htask, hpid]

theorem compareAll_eq (hm : Measured c pid cur) (hi : cur[i]? = some emptyTask) {l : List Nat}
    (hl : ∀ j ∈ l, j < cur.length) (acc : Nat × Int) :
    l.foldlM (compare c pid cur i) acc = some ((l.filterMap (candidate c pid cur i)).foldl improve acc) := by
  induction l generalizing acc with
  | nil => rfl
  | cons j l ih =>
    rw [List.foldlM_cons, compare_eq hm hi (hl j List.mem_cons_self), Option.bind_eq_bind, Option.bind_some,
      ih (fun k hk => hl k (List.mem_cons_of_mem j hk))]
    cases hc : candidate c pid cur i j with
    | none => rw [List.filterMap_cons_none hc]; rfl
    | some x => rw [List.filterMap_cons_some hc]; rfl

theorem consider_free (hm : Measured c pid cur) (hi : cur[i]? = some emptyTask) (acc : Nat × Int) :
    consider c pid cur acc i =
      some ((candidates c pid cur i).foldl improve (if acc.2 = -1 then (acc.1, (i : Int)) else acc)) := by
  have hfree : Task.isCpuFree emptyTask = true := (Task.isCpuFree_iff _).mpr rfl
  rw [consider, hi, Option.bind_eq_bind, Option.bind_some, if_pos hfree,
    compareAll_eq hm hi (fun j hj => List.mem_range.mp hj)]
  rfl

theorem consider_busy (hi : i < cur.length) (hbusy : cur[i]? ≠ some emptyTask) (acc : Nat × Int) :
    consider c pid cur acc i = some acc := by
  obtain ⟨task, htask⟩ : ∃ task, cur[i]? = some task := ⟨_, List.getElem?_eq_getElem hi⟩
  have hfree : ¬ task.isCpuFree = true := by
    rw [Task.isCpuFree_iff]
    rintro rfl
    exact hbusy htask
  rw [consider, htask, Option.bind_eq_bind, Option.bind_some, if_neg hfree]

theorem candidates_ne {x : Nat × Int} (hx : x ∈ candidates c pid cur i) : x.2 ≠ -1 := by
  obtain ⟨j, -, hj⟩ := List.mem_filterMap.mp hx
  unfold candidate at hj
  split at hj
  · obtain ⟨d, -, rfl⟩ := Option.map_eq_some_iff.mp hj
    change (i : Int) ≠ -1
    omega
  · cases hj

theorem improved_ne {acc : Nat × Int} (hacc : acc.2 ≠ -1) :
    ((candidates c pid cur i).foldl improve acc).2 ≠ -1 := by
  rcases foldl_improve (candidates c pid cur i) acc with ⟨hsame, -⟩ | ⟨hmem, -⟩
  · rwa [hsame]
  · exact candidates_ne hmem

/-- With a CPU chosen, the loops go through the candidates of the free CPUs. -/
theorem considerAll_chosen (hm : Measured c pid cur) {l : List Nat} (hl : ∀ i ∈ l, i < cur.length)
    {acc : Nat × Int} (hacc : acc.2 ≠ -1) :
    l.foldlM (consider c pid cur) acc =
      some (((l.filter (fun i => decide (cur[i]? = some emptyTask))).flatMap (candidates c pid cur)).foldl
        improve acc) := by
  induction l generalizing acc with
  | nil => rfl
  | cons i l ih =>
    have hl' : ∀ k ∈ l, k < cur.length := fun k hk => hl k (List.mem_cons_of_mem i hk)
    rw [List.foldlM_cons]
    by_cases hfree : cur[i]? = some emptyTask
    · rw [consider_free hm hfree, if_neg hacc, Option.bind_eq_bind, Option.bind_some,
        ih hl' (improved_ne hacc), List.filter_cons_of_pos (by simpa using hfree), List.flatMap_cons,
        List.foldl_append]
    · rw [consider_busy (hl i List.mem_cons_self) hfree, Option.bind_eq_bind, Option.bind_some, ih hl' hacc,
        List.filter_cons_of_neg (by simpa using hfree)]

/-- What the loops leave of some free CPUs: the first one is chosen before any distance is compared. -/
def settle (c : CpuInfo) (pid : Int) (cur : Pinning) (bound : Nat) : List Nat → Nat × Int
  | [] => (bound, -1)
  | i :: rest => ((i :: rest).flatMap (candidates c pid cur)).foldl improve (bound, (i : Int))

theorem considerAll_eq (hm : Measured c pid cur) {l : List Nat} (hl : ∀ i ∈ l, i < cur.length) (bound : Nat) :
    l.foldlM (consider c pid cur) (bound, -1) =
      some (settle c pid cur bound (l.filter (fun i => decide (cur[i]? = some emptyTask)))) := by
  induction l with
  | nil => rfl
  | cons i l ih =>
    have hl' : ∀ k ∈ l, k < cur.length := fun k hk => hl k (List.mem_cons_of_mem i hk)
    rw [List.foldlM_cons]
    by_cases hfree : cur[i]? = some emptyTask
    · have hchosen : ((bound, (i : Int)) : Nat × Int).2 ≠ -1 := by
        change (i : Int) ≠ -1
        omega
      rw [consider_free hm hfree, if_pos rfl, Option.bind_eq_bind, Option.bind_some,
        considerAll_chosen hm hl' (improved_ne hchosen), List.filter_cons_of_pos (by simpa using hfree),
        settle, List.flatMap_cons, List.foldl_append]
    · rw [consider_busy (hl i List.mem_cons_self) hfree, Option.bind_eq_bind, Option.bind_some, ih hl',
        List.filter_cons_of_neg (by simpa using hfree)]

theorem mem_frees : i ∈ frees cur ↔ cur[i]? = some emptyTask := by
  simp only [frees, List.mem_filter, List.mem_range, decide_eq_true_eq, and_iff_right_iff_imp]
  exact fun h => (List.getElem?_eq_some_iff.mp h).1

theorem frees_eq_nil_iff : frees cur = [] ↔ ¬ AnyFree cur := by
  rw [List.eq_nil_iff_forall_not_mem]
  simp only [mem_frees, AnyFree, not_exists]

theorem considerFrees_eq (hm : Measured c pid cur) :
    (List.range cur.length).foldlM (consider c pid cur) (cur.length, -1) =
      some (settle c pid cur cur.length (frees cur)) :=
  considerAll_eq hm (fun _ hi => List.mem_range.mp hi) cur.length

/-- Without a free CPU the table stays. -/
theorem getPinning_full (hm : Measured c pid cur) (htid : tid ≠ 0) (hfull : ¬ AnyFree cur) :
    getPinning c pid tid cur = some cur := by
  rw [getPinning, if_neg htid, considerFrees_eq hm, frees_eq_nil_iff.mpr hfull]
  rfl

theorem settle_ne {bound : Nat} {rest : List Nat} : (settle c pid cur bound (i :: rest)).2 ≠ -1 := by
  rcases foldl_improve ((i :: rest).flatMap (candidates c pid cur)) (bound, (i : Int)) with
    ⟨hsame, -⟩ | ⟨hmem, -⟩
  · rw [settle, hsame]
    change (i : Int) ≠ -1
    omega
  · obtain ⟨k, -, hk⟩ := List.mem_flatMap.mp hmem
    exact candidates_ne hk

/-- Otherwise the task goes where the loops point. -/
theorem getPinning_settle (hm : Measured c pid cur) (htid : tid ≠ 0) {rest : List Nat}
    (hfrees : frees cur = i :: rest) :
    getPinning c pid tid cur =
      some (cur.set (settle c pid cur cur.length (i :: rest)).2.toNat ⟨pid, tid⟩) := by
  rw [getPinning, if_neg htid, considerFrees_eq hm, hfrees, Option.bind_eq_bind, Option.bind_some,
    if_neg settle_ne]

end Compact

/-! ## A task is placed when there is room -/

/-- The tables differ in one slot, which was free and holds the task now. -/
def FillsOne (cur new : Pinning) (t : Task) : Prop :=
  ∃ j : Nat, cur[j]? = some emptyTask ∧ new[j]? = some t ∧ ∀ i, i ≠ j → new[i]? = cur[i]?

theorem fillsOne_set {cur : Pinning} {j : Nat} (hj : cur[j]? = some emptyTask) (t : Task) :
    FillsOne cur (cur.set j t) t := by
  have hlt : j < cur.length := (List.getElem?_eq_some_iff.mp hj).1
  exact ⟨j, hj, List.getElem?_set_self hlt, fun i hi => List.getElem?_set_ne (Ne.symm hi)⟩

/-- The table stays when no CPU is free, and otherwise one free CPU gets the task. -/
def Places (cur new : Pinning) (t : Task) : Prop :=
  (¬ AnyFree cur → new = cur) ∧ (AnyFree cur → FillsOne cur new t)

/-- Both strategies place a new task exactly when there is room, whatever the counts and the order of
nodes with equal counts. -/
theorem getPinning_places (env : Env D) (pid tid : Int) (cur : Pinning) (htid : tid ≠ 0) :
    (Compact.Measured env.cpu pid cur →
      ∃ new, Compact.getPinning env.cpu pid tid cur = some new ∧ Places cur new ⟨pid, tid⟩) ∧
    ∀ pinCount, env.cpu.mapping.length = cur.length →
      (∀ node ∈ env.cpu.mapping, 0 ≤ node ∧ node < pinCount.length) →
      ∃ new pinCount', Scatter.getPinning env pid tid pinCount cur = some (new, pinCount') ∧
        Places cur new ⟨pid, tid⟩ := by
  refine ⟨fun hm => ?_, fun pinCount hcpus hnodes => ?_⟩
  · by_cases hfree : AnyFree cur
    · cases hfrees : Compact.frees cur with
      | nil => exact absurd hfree (Compact.frees_eq_nil_iff.mp hfrees)
      | cons i rest =>
        have hnew := Compact.getPinning_settle hm htid hfrees
        obtain ⟨j, hj, hset⟩ := Compact.getPinning_fills htid hfree hnew
        exact ⟨_, hnew, fun hfull => absurd hfree hfull, fun _ => hset ▸ fillsOne_set hj _⟩
    · exact ⟨cur, Compact.getPinning_full hm htid hfree, fun _ => rfl, fun h => absurd h hfree⟩
  · obtain ⟨⟨new, pinCount'⟩, hnew⟩ := Scatter.getPinning_isSome hcpus pid tid pinCount
    refine ⟨new, pinCount', hnew, fun hfull => ?_, fun hfree => ?_⟩
    · rcases (Scatter.getPinning_proposes hnew).1 with hsame | ⟨j, hj, -⟩
      · exact hsame
      · exact absurd ⟨j, hj⟩ hfull
    · obtain ⟨j, hj, rfl⟩ := Scatter.getPinning_fills hcpus hnodes htid hfree hnew
      exact fillsOne_set hj _

theorem getPinning_places_twoNodes :
    let cur : Pinning := [⟨5, 5⟩, emptyTask]
    (∃ new, Compact.getPinning Env.twoNodes.cpu 5 6 cur = some new ∧ Places cur new ⟨5, 6⟩) ∧
    ∃ new pinCount', Scatter.getPinning Env.twoNodes 5 6 [1, 0] cur = some (new, pinCount') ∧
      Places cur new ⟨5, 6⟩ := by
  intro cur
  have hdense : Env.twoNodes.cpu.Dense cur.length := ⟨rfl, by decide, by decide⟩
  have hplaces := getPinning_places Env.twoNodes 5 6 cur (by decide)
  exact ⟨hplaces.1 (Compact.measured_of_dense hdense 5), hplaces.2 [1, 0] rfl (by decide)⟩

/-! ## Compact and the nearest CPU -/

namespace Compact

variable {c : CpuInfo} {pid tid : Int} {cur : Pinning} {i : Nat}

/-- Distances are not negative. -/
def Metric (c : CpuInfo) : Prop := ∀ row ∈ c.distances, ∀ d ∈ row, 0 ≤ d ∧ d < 2 ^ 31

instance (c : CpuInfo) : Decidable (Metric c) := inferInstanceAs (Decidable (∀ row ∈ _, ∀ d ∈ row, _))

/-- `i` is free, and no free CPU is closer to the process. -/
def Nearest (c : CpuInfo) (pid : Int) (cur : Pinning) (i : Nat) : Prop :=
  cur[i]? = some emptyTask ∧ ∃ (j : Nat) (d : Int), Held cur pid j ∧ c.getCpuDistance i j = some d ∧
    ∀ (i' j' : Nat) (d' : Int), cur[i']? = some emptyTask → Held cur pid j' →
      c.getCpuDistance i' j' = some d' → d ≤ d'

/-- The new task is put on a nearest free CPU. -/
def PlacesNearest (c : CpuInfo) (pid tid : Int) (cur : Pinning) : Prop :=
  ∃ i, Nearest c pid cur i ∧ getPinning c pid tid cur = some (cur.set i ⟨pid, tid⟩)

def FirstFree (cur : Pinning) (i : Nat) : Prop :=
  cur[i]? = some emptyTask ∧ ∀ k < i, cur[k]? ≠ some emptyTask

theorem FirstFree.unique {k : Nat} (hi : FirstFree cur i) (hk : FirstFree cur k) : i = k := by
  rcases Nat.lt_trichotomy i k with hlt | heq | hlt
  · exact absurd hi.1 (hk.2 i hlt)
  · exact heq
  · exact absurd hk.1 (hi.2 k hlt)

theorem firstFree_of_frees {rest : List Nat} (h : frees cur = i :: rest) : FirstFree cur i := by
  have hfind : (List.range cur.length).find? (fun i => decide (cur[i]? = some emptyTask)) = some i := by
    rw [← List.head?_filter]
    exact congrArg List.head? h
  obtain ⟨hi, -, hbefore⟩ := List.find?_range_eq_some.mp hfind
  exact ⟨by simpa using hi, fun k hk => by simpa using hbefore k hk⟩

theorem Metric.getCpuDistance (h : Metric c) {j : Nat} {d : Int} (hd : c.getCpuDistance i j = some d) :
    0 ≤ d ∧ d < 2 ^ 31 := by
  simp only [CpuInfo.getCpuDistance, Option.bind_eq_bind, Option.bind_eq_some_iff] at hd
  obtain ⟨node1, -, node2, -, row, hrow, hd⟩ := hd
  exact h row (List.mem_of_getElem? (PartialStep.subscript_eq_some hrow).2.2) d
    (List.mem_of_getElem? (PartialStep.subscript_eq_some hd).2.2)

/-- The candidates are the distances from the free CPUs to those of the process. -/
theorem mem_candidates (h : Metric c) {x : Nat × Int} :
    x ∈ (frees cur).flatMap (candidates c pid cur) ↔ ∃ (i j : Nat) (d : Int), cur[i]? = some emptyTask ∧
      Held cur pid j ∧ c.getCpuDistance i j = some d ∧ x = (d.toNat, (i : Int)) := by
  have hnat : ∀ {i j : Nat} {d : Int}, c.getCpuDistance i j = some d → (d % 2 ^ 32).toNat = d.toNat := by
    intro i j d hd
    obtain ⟨hnonneg, hlt⟩ := h.getCpuDistance hd
    rw [Int.emod_eq_of_lt hnonneg (by omega)]
  constructor
  · intro hx
    obtain ⟨i, hi, hx⟩ := List.mem_flatMap.mp hx
    obtain ⟨j, -, hj⟩ := List.mem_filterMap.mp hx
    unfold candidate at hj
    split at hj
    · rename_i hpid
      obtain ⟨task, htask, hpid⟩ := Option.map_eq_some_iff.mp hpid
      obtain ⟨d, hd, rfl⟩ := Option.map_eq_some_iff.mp hj
      exact ⟨i, j, d, mem_frees.mp hi, ⟨task, htask, hpid⟩, hd, by rw [hnat hd]⟩
    · cases hj
  · rintro ⟨i, j, d, hi, ⟨task, htask, hpid⟩, hd, rfl⟩
    refine List.mem_flatMap.mpr ⟨i, mem_frees.mpr hi, List.mem_filterMap.mpr ⟨j, ?_, ?_⟩⟩
    · exact List.mem_range.mpr (List.getElem?_eq_some_iff.mp htask).1
    · rw [candidate, htask, Option.map_some, hpid, if_pos rfl, hd, Option.map_some, hnat hd]

/-- A task put on another CPU than a free one gives another table. -/
theorem set_free_inj {k : Nat} {t : Task} (ht : t ≠ emptyTask) (hi : cur[i]? = some emptyTask)
    (h : cur.set i t = cur.set k t) : i = k := by
  by_contra hne
  have hslot : (cur.set i t)[i]? = (cur.set k t)[i]? := by rw [h]
  rw [List.getElem?_set_self (List.getElem?_eq_some_iff.mp hi).1, List.getElem?_set_ne (Ne.symm hne),
    hi] at hslot
  exact ht (Option.some.inj hslot)

/-- The task goes to a CPU with the least distance if this is below the bound, else to the first free CPU. -/
theorem getPinning_cases (hm : Measured c pid cur) (hmetric : Metric c) (htid : tid ≠ 0)
    (hfree : AnyFree cur) :
    (∃ i, FirstFree cur i ∧ getPinning c pid tid cur = some (cur.set i ⟨pid, tid⟩) ∧
      ∀ (i j : Nat) (d : Int), cur[i]? = some emptyTask → Held cur pid j → c.getCpuDistance i j = some d →
        cur.length ≤ d) ∨
    (∃ (i j : Nat) (d : Int), Held cur pid j ∧ c.getCpuDistance i j = some d ∧ d < cur.length ∧
      Nearest c pid cur i ∧ getPinning c pid tid cur = some (cur.set i ⟨pid, tid⟩)) := by
  cases hfrees : frees cur with
  | nil => exact absurd hfree (frees_eq_nil_iff.mp hfrees)
  | cons i rest =>
    have hnew := getPinning_settle hm htid hfrees
    rw [settle, ← hfrees] at hnew
    rcases foldl_improve ((frees cur).flatMap (candidates c pid cur)) (cur.length, (i : Int)) with
      ⟨hsame, hle⟩ | ⟨hmem, hlt, hle⟩
    · rw [hsame] at hnew
      refine .inl ⟨i, firstFree_of_frees hfrees, hnew, fun i' j' d' hi' hj' hd' => ?_⟩
      have hbound : cur.length ≤ d'.toNat :=
        hle _ ((mem_candidates hmetric).mpr ⟨i', j', d', hi', hj', hd', rfl⟩)
      have hnonneg := (hmetric.getCpuDistance hd').1
      omega
    · obtain ⟨k, j, d, hk, hj, hd, hbest⟩ := (mem_candidates hmetric).mp hmem
      rw [hbest] at hlt hle hnew
      have hnonneg := (hmetric.getCpuDistance hd).1
      refine .inr ⟨k, j, d, hj, hd, ?_, ⟨hk, j, d, hj, hd, fun i' j' d' hi' hj' hd' => ?_⟩, hnew⟩
      · change d.toNat < cur.length at hlt
        omega
      · have hleast : d.toNat ≤ d'.toNat :=
          hle _ ((mem_candidates hmetric).mpr ⟨i', j', d', hi', hj', hd', rfl⟩)
        have hnonneg' := (hmetric.getCpuDistance hd').1
        omega

/-- Compact finds a nearest CPU exactly if some free CPU is closer to the process than the number of CPUs,
or the first free CPU happens to be a nearest one. -/
theorem placesNearest_iff (c : CpuInfo) (pid tid : Int) (cur : Pinning) (hm : Measured c pid cur)
    (hmetric : Metric c) (htask : (⟨pid, tid⟩ : Task) ≠ emptyTask) (hfree : AnyFree cur) :
    PlacesNearest c pid tid cur ↔ tid ≠ 0 ∧
      ((∃ (i j : Nat) (d : Int), cur[i]? = some emptyTask ∧ Held cur pid j ∧ c.getCpuDistance i j = some d ∧
        d < cur.length) ∨
      ∃ i, FirstFree cur i ∧ Nearest c pid cur i) := by
  by_cases htid : tid = 0
  · -- nothing is placed
    refine ⟨?_, fun h => absurd htid h.1⟩
    rintro ⟨i, ⟨hi, -⟩, hnew⟩
    rw [getPinning, if_pos htid] at hnew
    have hslot : cur[i]? = (cur.set i ⟨pid, tid⟩)[i]? := by rw [← Option.some.inj hnew]
    rw [List.getElem?_set_self (List.getElem?_eq_some_iff.mp hi).1, hi] at hslot
    exact absurd (Option.some.inj hslot).symm htask
  · rcases getPinning_cases hm hmetric htid hfree with
      ⟨i, hfirst, hnew, hfar⟩ | ⟨i, j, d, hj, hd, hlt, hi, hnew⟩
    · constructor
      · rintro ⟨k, hk, hnew'⟩
        have hset := Option.some.inj (hnew'.symm.trans hnew)
        obtain rfl := set_free_inj htask hk.1 hset
        exact ⟨htid, .inr ⟨k, hfirst, hk⟩⟩
      · rintro ⟨-, ⟨i', j', d', hi', hj', hd', hlt⟩ | ⟨k, hk, hnearest⟩⟩
        · exact absurd (hfar i' j' d' hi' hj' hd') (by omega)
        · obtain rfl := hk.unique hfirst
          exact ⟨k, hnearest, hnew⟩
    · exact ⟨fun _ => ⟨htid, .inl ⟨i, j, d, hi.1, hj, hd, hlt⟩⟩, fun _ => ⟨i, hi, hnew⟩⟩

/-- Twelve CPUs of one node, the first of them taken. -/
theorem placesNearest_twelve :
    PlacesNearest ⟨List.replicate 12 0, [[10]]⟩ 5 6 (⟨5, 5⟩ :: List.replicate 11 emptyTask) := by
  have hdense : CpuInfo.Dense ⟨List.replicate 12 0, [[10]]⟩ (⟨5, 5⟩ :: List.replicate 11 emptyTask).length :=
    ⟨rfl, by decide, by decide⟩
  rw [placesNearest_iff _ 5 6 _ (measured_of_dense hdense 5) (by decide) (by decide) ⟨1, rfl⟩]
  exact ⟨by decide, .inl ⟨1, 0, 10, rfl, ⟨⟨5, 5⟩, rfl, rfl⟩, by decide, by decide⟩⟩

/-- Two nodes with two CPUs each, and the process is on the second: the bound 4 is below every distance,
and the task goes to the first CPU, on the other node. -/
theorem not_placesNearest_four :
    ¬ PlacesNearest ⟨[0, 0, 1, 1], [[10, 20], [20, 10]]⟩ 5 6 [emptyTask, emptyTask, ⟨5, 5⟩, emptyTask] := by
  rintro ⟨i, ⟨hi, j, d, ⟨task, htask, hpid⟩, hd, hleast⟩, hnew⟩
  have hzero : getPinning ⟨[0, 0, 1, 1], [[10, 20], [20, 10]]⟩ 5 6 [emptyTask, emptyTask, ⟨5, 5⟩, emptyTask] =
      some (List.set [emptyTask, emptyTask, ⟨5, 5⟩, emptyTask] 0 ⟨5, 6⟩) := by decide
  obtain rfl : i = 0 := set_free_inj (by decide) hi (Option.some.inj (hnew.symm.trans hzero))
  have hj : j = 2 := by
    match j, htask with
    | 0, htask => cases htask; cases hpid
    | 1, htask => cases htask; cases hpid
    | 2, _ => rfl
    | 3, htask => cases htask; cases hpid
    | _ + 4, htask => cases htask
  subst hj
  have hd' : d = 20 := Option.some.inj (hd.symm.trans (by decide))
  have hten : d ≤ 10 := hleast 3 2 10 rfl ⟨⟨5, 5⟩, rfl, rfl⟩ (by decide)
  omega

end Compact

end AutopinPlus
