import AutopinPlus.SampleProcessing
import AutopinPlus.FirstBest
import Mathlib.Data.List.Induction

/-!
# The migration of the pages

`do_great_migration` looks up where the candidates are, chooses for each the node with the most accesses, and asks
the kernel to move those that are elsewhere. The two arrays of that request are filled with one counter.
-/
namespace AutopinPlus

/-! ## The destination -/

/-- The loop over the nodes, which keeps `greatest_count` and `destination_node`. -/
def greatestCount (threshold : Nat) (procAccesses : List Nat) : Nat × Nat :=
  procAccesses.zipIdx.foldl (fun best access => if access.1 > best.1 then access else best) (threshold, 0)

def destinationNode (threshold : Nat) (procAccesses : List Nat) : Nat := (greatestCount threshold procAccesses).2

theorem greatestCount_append (threshold : Nat) (procAccesses : List Nat) (count : Nat) :
    greatestCount threshold (procAccesses ++ [count]) =
      if count > (greatestCount threshold procAccesses).1 then (count, procAccesses.length)
      else greatestCount threshold procAccesses := by
  simp [greatestCount, List.zipIdx_append]

/-- An entry above all entries so far is the first best. -/
theorem first_append_above {rs : List Nat} {v : Nat} (h : ∀ x ∈ rs, x < v) :
    FirstBest.First (· ≥ ·) (rs ++ [v]) rs.length := by
  refine ⟨⟨v, by simp, ?_⟩, ?_⟩
  · intro x hx
    rcases List.mem_append.mp hx with hx | hx
    · exact Nat.le_of_lt (h x hx)
    · exact Nat.le_of_eq (List.mem_singleton.mp hx)
  · rintro i hi ⟨x, hx, hopt⟩
    rw [List.getElem?_append_left hi] at hx
    have hlt := h x (List.mem_of_getElem? hx)
    have hle : x ≥ v := hopt v (by simp)
    omega

/-- Either no node has a count above the threshold, or the destination is the first of those with the greatest. -/
theorem greatestCount_cases (threshold : Nat) (procAccesses : List Nat) :
    ((∀ count ∈ procAccesses, count ≤ threshold) ∧ greatestCount threshold procAccesses = (threshold, 0)) ∨
    ∃ greatest node, greatestCount threshold procAccesses = (greatest, node) ∧ threshold < greatest ∧
      procAccesses[node]? = some greatest ∧ FirstBest.First (· ≥ ·) procAccesses node := by
  induction procAccesses using List.reverseRecOn with
  | nil => exact .inl ⟨by simp, rfl⟩
  | append_singleton procAccesses count ih =>
    rw [greatestCount_append]
    rcases ih with ⟨hall, hloop⟩ | ⟨greatest, node, hloop, habove, hnode, hfirst⟩
    · rw [hloop]
      by_cases hcount : count > threshold
      · rw [if_pos hcount]
        refine .inr ⟨count, _, rfl, hcount, by simp, first_append_above ?_⟩
        intro x hx
        have := hall x hx
        omega
      · rw [if_neg hcount]
        refine .inl ⟨?_, rfl⟩
        rw [List.forall_mem_append, List.forall_mem_singleton]
        exact ⟨hall, Nat.not_lt.mp hcount⟩
    · rw [hloop]
      have hlt : node < procAccesses.length := (List.getElem?_eq_some_iff.mp hnode).1
      by_cases hcount : count > greatest
      · rw [if_pos hcount]
        exact .inr ⟨count, _, rfl, by omega, by simp, hfirst.append_better hnode (Nat.not_le.mpr hcount)⟩
      · rw [if_neg hcount]
        refine .inr ⟨greatest, node, rfl, habove, ?_, hfirst.append_other hnode (Nat.not_lt.mp hcount)⟩
        rw [List.getElem?_append_left hlt, hnode]

theorem destinationNode_lt {threshold : Nat} {procAccesses : List Nat} (h : procAccesses ≠ []) :
    destinationNode threshold procAccesses < procAccesses.length := by
  unfold destinationNode
  rcases greatestCount_cases threshold procAccesses with ⟨-, hloop⟩ | ⟨greatest, node, hloop, -, hnode, -⟩
  · rw [hloop]
    exact List.length_pos_iff.mpr h
  · rw [hloop]
    exact (List.getElem?_eq_some_iff.mp hnode).1

/-! ## The request -/

/-- `MAX_SINGLE_MIGRATE` -/
def maxSingleMigrate : Nat := 200000

/-- What `move_pages` does: it tells for each page the node it is on or a negated error, and moves pages to nodes. -/
structure MovePages (K : Type) where
  query : K → List UInt64 → List Int
  move : K → List (UInt64 × Int) → List Int × K

/-- The arrays `pages`, `nodes` and `destinations` with the counters of the loop that fills them. -/
structure Bundle where
  pages : List UInt64
  nodes : List Int
  destinations : List Nat
  count : Nat := 0
  count2 : Nat := 0
  sameHome : Nat := 0

namespace Bundle

/-- One candidate. The counter is incremented between the two assignments. -/
def consolidate (table : AList (fun _ : UInt64 => PageStats)) (threshold : Nat) (nodesQuery : List Int) (b : Bundle)
    (page : UInt64) : Option Bundle :=
  match table.lookup page with
  | none => some { b with count2 := b.count2 + 1 }
  | some sear =>
    let destination := destinationNode threshold sear.procAccesses
    -- the array was cleared before the query
    if nodesQuery.getD b.count2 0 = destination then
      some { b with sameHome := b.sameHome + 1, count2 := b.count2 + 1 }
    else do
      let destinations ← Histogram.bump b.destinations destination
      let pages ← PartialStep.assign b.pages b.count page
      let nodes ← PartialStep.assign b.nodes (b.count + 1 : Nat) destination
      some { b with
        destinations := destinations
        pages := pages
        nodes := nodes
        count := b.count + 1
        count2 := b.count2 + 1 }

/-- The n-th of `pages` goes to the n-th of `nodes`. -/
def request (b : Bundle) : List (UInt64 × Int) := (b.pages.take b.count).zip (b.nodes.take b.count)

end Bundle

/-- The loop around `move_pages`. -/
def moveCalls (request : List (UInt64 × Int)) : List (List (UInt64 × Int)) :=
  if request.length > maxSingleMigrate then
    request.take maxSingleMigrate :: moveCalls (request.drop maxSingleMigrate)
  else [request]
termination_by request.length
decreasing_by
  rw [List.length_drop]
  unfold maxSingleMigrate at *
  omega

def moveAll {K : Type} (mp : MovePages K) (k : K) (calls : List (List (UInt64 × Int))) : List Int × K :=
  calls.foldl (fun done call => (done.1 ++ (mp.move done.2 call).1, (mp.move done.2 call).2)) ([], k)

/-- `do_great_migration`, with the calls that move pages. `heap` is what `malloc` leaves in `nodes`. The last query
is about as many pages as the last of the calls. -/
def doGreatMigration {K : Type} (cfg : SamplingConfig) (mp : MovePages K) (threshold : Nat) (heap : Nat → Int) (k : K)
    (s : SampleStats) : Option (List (List (UInt64 × Int)) × SampleStats × K) :=
  let n := s.numberPages2move.toNat
  if s.pages2move.length > n then none
  else do
    let nodesQuery := mp.query k s.pages2move
    -- what `memset` clears of `pages` is read only where it was assigned again
    let b ← s.pages2move.foldlM (Bundle.consolidate s.metrics.pageAccesses threshold nodesQuery) {
      pages := s.pages2move ++ List.replicate (n - s.pages2move.length) 0
      nodes := (List.range n).map heap
      destinations := List.replicate cfg.nCpus 0 }
    let calls := moveCalls b.request
    let (status, k) := moveAll mp k calls
    let moveSize := (calls.getLastD []).length
    let status := mp.query k (b.pages.take moveSize) ++ status.drop moveSize
    let succesfullyMoved := (status.take b.count).countP fun node : Int => 0 ≤ node ∧ node < cfg.nCpus
    some (calls, { s with
      numberPages2move := s.numberPages2move - (b.count + b.count2 + b.sameHome : Nat)
      movedPages := s.movedPages + succesfullyMoved }, k)

/-! ## Who is sent where -/

/-- Each page is in one of the calls. -/
theorem flatten_moveCalls (request : List (UInt64 × Int)) : (moveCalls request).flatten = request := by
  induction request using moveCalls.induct with
  | case1 request hmore ih => rw [moveCalls, if_pos hmore, List.flatten_cons, ih, List.take_append_drop]
  | case2 request hmore => rw [moveCalls, if_neg hmore, List.flatten_singleton]

/-- A candidate that is not at its destination, with the destination. -/
def wantedMove (table : AList (fun _ : UInt64 => PageStats)) (threshold : Nat) (nodesQuery : List Int)
    (candidate : UInt64 × Nat) : Option (UInt64 × Int) :=
  (table.lookup candidate.1).bind fun sear =>
    if nodesQuery.getD candidate.2 0 = destinationNode threshold sear.procAccesses then none
    else some (candidate.1, (destinationNode threshold sear.procAccesses : Int))

def wantedMoves (table : AList (fun _ : UInt64 => PageStats)) (threshold : Nat) (nodesQuery : List Int)
    (candidates : List UInt64) : List (UInt64 × Int) :=
  candidates.zipIdx.filterMap (wantedMove table threshold nodesQuery)

/-- The arrays after some candidates, all of which have an entry. -/
structure Filled (table : AList (fun _ : UInt64 => PageStats)) (threshold : Nat) (nodesQuery : List Int)
    (heap : Nat → Int) (nCpus n : Nat) (b : Bundle) (before : List UInt64) : Prop where
  count2 : b.count2 = before.length
  count : b.count = (wantedMoves table threshold nodesQuery before).length
  found : b.count + b.sameHome = before.length
  pages : b.pages.take b.count = (wantedMoves table threshold nodesQuery before).map Prod.fst
  nodes : 0 < n → b.nodes.take (b.count + 1) = heap 0 :: (wantedMoves table threshold nodesQuery before).map Prod.snd
  within : b.count = 0 ∨ b.count < n
  length_pages : b.pages.length = n
  length_nodes : b.nodes.length = n
  length_destinations : b.destinations.length = nCpus

/-- An assignment behind the part that is filled makes it longer by one. -/
theorem take_assign {α : Type} {v w : List α} {i : Nat} {a : α} (h : PartialStep.assign v (i : Int) a = some w) :
    w.take (i + 1) = v.take i ++ [a] := by
  unfold PartialStep.assign at h
  split_ifs at h with hi
  cases h
  have hlt : i < v.length := by omega
  rw [Int.toNat_natCast, List.take_add_one, List.take_set_of_le (Nat.le_refl i), List.getElem?_set_self hlt]
  rfl

section Loop

variable {table : AList (fun _ : UInt64 => PageStats)} {threshold nCpus n : Nat} {nodesQuery : List Int}
  {heap : Nat → Int}

/-- What the loop over one more candidate wants to move. -/
theorem wantedMoves_append (before : List UInt64) (page : UInt64) :
    wantedMoves table threshold nodesQuery (before ++ [page]) =
      wantedMoves table threshold nodesQuery before ++
        (wantedMove table threshold nodesQuery (page, before.length)).toList := by
  rw [wantedMoves, List.zipIdx_append, List.filterMap_append]
  congr 1
  simp only [List.zipIdx_singleton, Nat.zero_add]
  cases hmove : wantedMove table threshold nodesQuery (page, before.length) with
  | none => rw [List.filterMap_cons_none hmove]; rfl
  | some move => rw [List.filterMap_cons_some hmove]; rfl

theorem Filled.stay {b : Bundle} {before : List UInt64} {page : UInt64}
    (h : Filled table threshold nodesQuery heap nCpus n b before)
    (hmove : wantedMove table threshold nodesQuery (page, before.length) = none) :
    Filled table threshold nodesQuery heap nCpus n { b with sameHome := b.sameHome + 1, count2 := b.count2 + 1 }
      (before ++ [page]) := by
  have hsame : wantedMoves table threshold nodesQuery (before ++ [page]) =
      wantedMoves table threshold nodesQuery before := by
    rw [wantedMoves_append, hmove, Option.toList_none, List.append_nil]
  have hfound := h.found
  refine ⟨?_, ?_, ?_, ?_, ?_, h.within, h.length_pages, h.length_nodes, h.length_destinations⟩
  · simp [h.count2]
  · rw [hsame, h.count]
  · rw [List.length_append, List.length_singleton]
    simp only
    omega
  · rw [hsame, h.pages]
  · rw [hsame]
    exact h.nodes

theorem Filled.move {b : Bundle} {before : List UInt64} {page : UInt64} {node : Int} {destinations : List Nat}
    {pages : List UInt64} {nodes : List Int} (h : Filled table threshold nodesQuery heap nCpus n b before)
    (hmove : wantedMove table threshold nodesQuery (page, before.length) = some (page, node))
    (hdestinations : destinations.length = nCpus)
    (hpages : PartialStep.assign b.pages b.count page = some pages)
    (hnodes : PartialStep.assign b.nodes (b.count + 1 : Nat) node = some nodes) :
    Filled table threshold nodesQuery heap nCpus n
      { b with
        destinations := destinations
        pages := pages
        nodes := nodes
        count := b.count + 1
        count2 := b.count2 + 1 } (before ++ [page]) := by
  have hmore : wantedMoves table threshold nodesQuery (before ++ [page]) =
      wantedMoves table threshold nodesQuery before ++ [(page, node)] := by
    rw [wantedMoves_append, hmove, Option.toList_some]
  have hroom : b.count + 1 < n := by
    have := (PartialStep.assign_isSome_iff b.nodes (b.count + 1 : Nat) node).mp (by rw [hnodes]; rfl)
    rw [h.length_nodes] at this
    omega
  have hfound := h.found
  refine ⟨?_, ?_, ?_, ?_, ?_, .inr hroom, ?_, ?_, hdestinations⟩
  · simp [h.count2]
  · rw [hmore, List.length_append, List.length_singleton, ← h.count]
  · rw [List.length_append, List.length_singleton]
    simp only
    omega
  · rw [hmore, List.map_append, ← h.pages]
    exact take_assign hpages
  · intro hpos
    rw [hmore, List.map_append, ← List.cons_append, ← h.nodes hpos]
    exact take_assign hnodes
  · rw [PartialStep.length_assign hpages, h.length_pages]
  · rw [PartialStep.length_assign hnodes, h.length_nodes]

/-- A candidate with an entry is handled exactly if the arrays have an entry behind those it needs. -/
theorem Filled.step {b : Bundle} {before : List UInt64} {page : UInt64} {sear : PageStats}
    (h : Filled table threshold nodesQuery heap nCpus n b before) (hlookup : table.lookup page = some sear)
    (hlength : sear.procAccesses.length = nCpus) (hpos : 0 < nCpus) (hroom : before.length < n) :
    ((b.consolidate table threshold nodesQuery page).isSome ↔
        wantedMoves table threshold nodesQuery (before ++ [page]) = [] ∨
          (wantedMoves table threshold nodesQuery (before ++ [page])).length < n) ∧
      ∀ b', b.consolidate table threshold nodesQuery page = some b' →
        Filled table threshold nodesQuery heap nCpus n b' (before ++ [page]) := by
  have hmove : wantedMove table threshold nodesQuery (page, before.length) =
      if nodesQuery.getD b.count2 0 = destinationNode threshold sear.procAccesses then none
      else some (page, (destinationNode threshold sear.procAccesses : Int)) := by
    rw [wantedMove, hlookup, Option.bind_some, h.count2]
  have hfound := h.found
  have hwithin := h.within
  simp only [Bundle.consolidate, hlookup]
  by_cases hhome : nodesQuery.getD b.count2 0 = destinationNode threshold sear.procAccesses
  · rw [if_pos hhome] at hmove ⊢
    refine ⟨iff_of_true rfl ?_, ?_⟩
    · rw [wantedMoves_append, hmove, Option.toList_none, List.append_nil, ← List.length_eq_zero_iff, ← h.count]
      exact hwithin
    · intro b' hb'
      rw [Option.some.injEq] at hb'
      exact hb' ▸ h.stay hmove
  · rw [if_neg hhome] at hmove ⊢
    have hlt : destinationNode threshold sear.procAccesses < nCpus := by
      rw [← hlength]
      exact destinationNode_lt (List.ne_nil_of_length_pos (by omega))
    obtain ⟨destinations, hbump⟩ := Option.isSome_iff_exists.mp
      ((Histogram.bump_isSome_iff b.destinations (destinationNode threshold sear.procAccesses)).mpr
        ⟨by omega, by rw [h.length_destinations]; omega⟩)
    obtain ⟨pages, hpages⟩ := Option.isSome_iff_exists.mp
      ((PartialStep.assign_isSome_iff b.pages b.count page).mpr ⟨by omega, by rw [h.length_pages]; omega⟩)
    have hnodes := PartialStep.assign_isSome_iff b.nodes (b.count + 1 : Nat)
      (destinationNode threshold sear.procAccesses : Int)
    rw [h.length_nodes] at hnodes
    simp only [hbump, hpages, Option.bind_eq_bind, Option.bind_some]
    constructor
    · rw [wantedMoves_append, hmove, Option.toList_some, List.length_append, ← h.count, List.length_singleton]
      have hne : ¬ wantedMoves table threshold nodesQuery before ++
          [(page, (destinationNode threshold sear.procAccesses : Int))] = [] := by simp
      rw [or_iff_right hne]
      cases hassign : PartialStep.assign b.nodes (b.count + 1 : Nat)
          (destinationNode threshold sear.procAccesses : Int) with
      | none =>
        rw [hassign] at hnodes
        simp only [Option.isSome_none, Bool.false_eq_true, false_iff] at hnodes
        simp only [Option.bind_none, Option.isSome_none, Bool.false_eq_true, false_iff]
        omega
      | some nodes =>
        rw [hassign] at hnodes
        simp only [Option.isSome_some, true_iff] at hnodes
        simp only [Option.bind_some, Option.isSome_some, true_iff]
        omega
    · intro b' hb'
      obtain ⟨nodes, hassign, hb'⟩ := Option.bind_eq_some_iff.mp hb'
      rw [Option.some.injEq] at hb'
      exact hb' ▸ h.move hmove (by rw [Histogram.length_bump hbump, h.length_destinations]) hpages hassign

theorem wantedMoves_prefix (before after : List UInt64) :
    (wantedMoves table threshold nodesQuery before).length ≤
      (wantedMoves table threshold nodesQuery (before ++ after)).length := by
  rw [wantedMoves, wantedMoves, List.zipIdx_append, List.filterMap_append, List.length_append]
  exact Nat.le_add_right _ _

/-- The loop over all candidates. -/
theorem Filled.loop {b : Bundle} {before candidates : List UInt64}
    (h : Filled table threshold nodesQuery heap nCpus n b before)
    (hentries : ∀ page ∈ candidates, ∃ sear, table.lookup page = some sear ∧
      sear.procAccesses.length = nCpus ∧ 0 < nCpus)
    (hroom : before.length + candidates.length ≤ n) :
    ((candidates.foldlM (Bundle.consolidate table threshold nodesQuery) b).isSome ↔
        wantedMoves table threshold nodesQuery (before ++ candidates) = [] ∨
          (wantedMoves table threshold nodesQuery (before ++ candidates)).length < n) ∧
      ∀ b', candidates.foldlM (Bundle.consolidate table threshold nodesQuery) b = some b' →
        Filled table threshold nodesQuery heap nCpus n b' (before ++ candidates) := by
  induction candidates generalizing b before with
  | nil =>
    rw [List.append_nil]
    refine ⟨iff_of_true rfl ?_, ?_⟩
    · rw [← List.length_eq_zero_iff, ← h.count]
      exact h.within
    · intro b' hb'
      simp only [List.foldlM_nil, Option.pure_def, Option.some.injEq] at hb'
      exact hb' ▸ h
  | cons page candidates ih =>
    obtain ⟨⟨sear, hlookup, hlength, hpos⟩, hrest⟩ := List.forall_mem_cons.mp hentries
    rw [List.length_cons] at hroom
    obtain ⟨hdef, hfilled⟩ := h.step hlookup hlength hpos (by omega)
    have hmore : (wantedMoves table threshold nodesQuery (before ++ [page])).length ≤
        (wantedMoves table threshold nodesQuery (before ++ [page] ++ candidates)).length :=
      wantedMoves_prefix _ _
    rw [List.append_cons before page candidates, List.foldlM_cons]
    cases hstep : b.consolidate table threshold nodesQuery page with
    | none =>
      rw [hstep] at hdef
      simp only [Option.isSome_none, Bool.false_eq_true, false_iff, not_or] at hdef
      have hfirst := List.length_pos_iff.mpr hdef.1
      refine ⟨iff_of_false (by simp) ?_, by simp⟩
      rw [← List.length_eq_zero_iff]
      omega
    | some u =>
      rw [Option.bind_eq_bind, Option.bind_some]
      exact ih (hfilled u hstep) hrest (by rw [List.length_append, List.length_singleton]; omega)

end Loop

/-! ## The request of a migration -/

/-- A page with candidates has an entry, with a count for every node. -/
theorem StatsCount.entry {cfg : SamplingConfig} {s : SampleStats} {samples : List LlRec}
    (h : StatsCount cfg s samples) {page : UInt64} (hpage : page ∈ s.pages2move) :
    ∃ sear, s.metrics.pageAccesses.lookup page = some sear ∧ sear.procAccesses.length = cfg.nCpus ∧ 0 < cfg.nCpus := by
  rw [h.pages2move] at hpage
  obtain ⟨r, hr, rfl⟩ := List.mem_map.mp hpage
  have hwatched : r ∈ samples.filter cfg.watches := List.mem_of_mem_filter hr
  have hreached : r ∈ accessesTo r.page (samples.filter cfg.watches) := List.mem_filter.mpr ⟨hwatched, by simp⟩
  cases hlookup : s.metrics.pageAccesses.lookup r.page with
  | none =>
    rw [h.metrics.pageAccesses.unknown r.page hlookup] at hreached
    cases hreached
  | some sear =>
    have hcounts := (h.metrics.pageAccesses.known r.page sear hlookup).procAccesses
    refine ⟨sear, rfl, hcounts.length, ?_⟩
    rw [← hcounts.length]
    by_contra hnone
    have hempty : sear.procAccesses = [] := List.eq_nil_of_length_eq_zero (by omega)
    have hsum := hcounts.sum
    rw [hempty, List.sum_nil, List.length_map] at hsum
    exact List.ne_nil_of_mem hreached (List.eq_nil_of_length_eq_zero hsum.symm)

theorem Filled.request {table : AList (fun _ : UInt64 => PageStats)} {threshold nCpus n : Nat} {nodesQuery : List Int}
    {heap : Nat → Int} {b : Bundle} {candidates : List UInt64}
    (h : Filled table threshold nodesQuery heap nCpus n b candidates) :
    b.request = ((wantedMoves table threshold nodesQuery candidates).map Prod.fst).zip
      (heap 0 :: (wantedMoves table threshold nodesQuery candidates).map Prod.snd) := by
  have hcount := h.count
  rw [Bundle.request, h.pages]
  rcases h.within with hzero | hlt
  · have hempty : wantedMoves table threshold nodesQuery candidates = [] :=
      List.eq_nil_of_length_eq_zero (by omega)
    simp [hempty]
  · have hnodes := congrArg (List.take b.count) (h.nodes (by omega))
    rw [List.take_take, Nat.min_eq_left (Nat.le_succ _)] at hnodes
    have hmin : min ((wantedMoves table threshold nodesQuery candidates).map Prod.fst).length
        (heap 0 :: (wantedMoves table threshold nodesQuery candidates).map Prod.snd).length = b.count := by
      rw [List.length_cons, List.length_map, List.length_map]
      omega
    have hpages : ((wantedMoves table threshold nodesQuery candidates).map Prod.fst).take b.count =
        (wantedMoves table threshold nodesQuery candidates).map Prod.fst :=
      List.take_of_length_le (by rw [List.length_map]; omega)
    refine Eq.trans ?_ List.zip_eq_zip_take_min.symm
    rw [hmin, hnodes, hpages]

theorem filled_start (table : AList (fun _ : UInt64 => PageStats)) (threshold : Nat) (nodesQuery : List Int)
    (heap : Nat → Int) (nCpus : Nat) (pages : List UInt64) :
    Filled table threshold nodesQuery heap nCpus pages.length
      { pages := pages, nodes := (List.range pages.length).map heap, destinations := List.replicate nCpus 0 } [] where
  count2 := rfl
  count := rfl
  found := rfl
  pages := rfl
  nodes := by
    intro hpos
    obtain ⟨n, hn⟩ : ∃ n, pages.length = n + 1 := ⟨pages.length - 1, by omega⟩
    rw [hn, List.range_succ_eq_map]
    rfl
  within := .inl rfl
  length_pages := rfl
  length_nodes := by rw [List.length_map, List.length_range]
  length_destinations := List.length_replicate

/-- The candidates that a migration wants to move, with their destinations. -/
def SampleStats.moves {K : Type} (s : SampleStats) (mp : MovePages K) (threshold : Nat) (k : K) : List (UInt64 × Int) :=
  wantedMoves s.metrics.pageAccesses threshold (mp.query k s.pages2move) s.pages2move

/-- What a migration asks for, and what it changes of the settings. -/
theorem doGreatMigration_filled {K : Type} {cfg : SamplingConfig} {s : SampleStats} {samples : List LlRec}
    (h : StatsCount cfg s samples) (mp : MovePages K) (threshold : Nat) (heap : Nat → Int) (k : K) :
    ((doGreatMigration cfg mp threshold heap k s).isSome ↔
        s.moves mp threshold k = [] ∨ (s.moves mp threshold k).length < s.pages2move.length) ∧
      ∀ calls t k', doGreatMigration cfg mp threshold heap k s = some (calls, t, k') →
        calls.flatten = ((s.moves mp threshold k).map Prod.fst).zip (heap 0 :: (s.moves mp threshold k).map Prod.snd) ∧
          t = { s with numberPages2move := -s.numberPages2move, movedPages := t.movedPages } ∧
          t.movedPages ≤ s.pages2move.length := by
  have hn : s.numberPages2move.toNat = s.pages2move.length := by
    rw [h.numberPages2move]
    exact Int.toNat_natCast _
  have hloop := (filled_start s.metrics.pageAccesses threshold (mp.query k s.pages2move) heap cfg.nCpus
    s.pages2move).loop (fun page => h.entry) (by simp)
  rw [List.nil_append] at hloop
  obtain ⟨hdef, hfilled⟩ := hloop
  unfold SampleStats.moves
  simp only [doGreatMigration, hn, Nat.lt_irrefl, gt_iff_lt, if_false, Nat.sub_self, List.replicate_zero,
    List.append_nil, Option.bind_eq_bind]
  cases hb : s.pages2move.foldlM (Bundle.consolidate s.metrics.pageAccesses threshold (mp.query k s.pages2move))
      { pages := s.pages2move, nodes := (List.range s.pages2move.length).map heap,
        destinations := List.replicate cfg.nCpus 0 } with
  | none =>
    rw [hb] at hdef
    exact ⟨by simpa using hdef, by simp⟩
  | some b =>
    rw [hb] at hdef
    have hb := hfilled b hb
    refine ⟨by simpa using hdef, ?_⟩
    intro calls t k' heq
    simp only [Option.bind_some, Option.some.injEq, Prod.mk.injEq] at heq
    obtain ⟨rfl, rfl, -⟩ := heq
    have hfound := hb.found
    have hcount2 := hb.count2
    have hnumber := h.numberPages2move
    have hsubtracted : s.numberPages2move - ((b.count + b.count2 + b.sameHome : Nat) : Int) = -s.numberPages2move := by
      omega
    refine ⟨by rw [flatten_moveCalls, hb.request], by rw [hsubtracted], ?_⟩
    simp only [h.movedPages, Nat.zero_add]
    refine (List.countP_le_length.trans (List.length_take_le _ _)).trans ?_
    omega

/-- The number of candidates changes its sign. What is subtracted from it is twice the number. -/
theorem migrated_inRange {cfg : SamplingConfig} {s t : SampleStats} {samples : List LlRec}
    (h : StatsCount cfg s samples) (hfew : samples.length < 2 ^ 30)
    (ht : t = { s with numberPages2move := -s.numberPages2move, movedPages := t.movedPages })
    (hmoved : t.movedPages ≤ s.pages2move.length) :
    t.InRange ∧ s.numberPages2move - t.numberPages2move < 2 ^ 31 := by
  have hrange := h.inRange (by omega)
  have hnumber : t.numberPages2move = -s.numberPages2move := by rw [ht]
  have hcandidates := h.candidates_le
  have hlisted := h.numberPages2move
  constructor
  · rw [ht]
    obtain ⟨h1, h2, -, -, h5, h6, h7, h8, h9, h10⟩ := hrange
    exact ⟨h1, h2, by simp only; omega, by simp only; omega, h5, h6, h7, h8, h9, h10⟩
  · omega

/-- After fewer than 2^30 samples, a migration stays inside its arrays exactly if some candidate does not have to
move. It then sends every page to the destination of the page before it, all candidates stay listed, and their
number changes its sign; no counter has run over, and what is subtracted from the number is an `int` too. -/
theorem migration_request {K : Type} {cfg : SamplingConfig} {samples : List LlRec} {s : SampleStats}
    (hfew : samples.length < 2 ^ 30)
    (hsamples : samples.foldlM (consumeSample cfg) (SampleStats.fresh cfg) = some s)
    (mp : MovePages K) (threshold : Nat) (heap : Nat → Int) (k : K) :
    ((doGreatMigration cfg mp threshold heap k s).isSome ↔
        s.moves mp threshold k = [] ∨ (s.moves mp threshold k).length < s.pages2move.length) ∧
      ∀ calls t k', doGreatMigration cfg mp threshold heap k s = some (calls, t, k') →
        calls.flatten = ((s.moves mp threshold k).map Prod.fst).zip (heap 0 :: (s.moves mp threshold k).map Prod.snd) ∧
          t.pages2move = s.pages2move ∧ t.numberPages2move = -s.numberPages2move ∧
          t.InRange ∧ s.numberPages2move - t.numberPages2move < 2 ^ 31 := by
  have hcounts := StatsCount.of_fresh hsamples
  obtain ⟨hdef, hrequest⟩ := doGreatMigration_filled hcounts mp threshold heap k
  refine ⟨hdef, ?_⟩
  intro calls t k' hrun
  obtain ⟨hcalls, ht, hmoved⟩ := hrequest calls t k' hrun
  have hrange := migrated_inRange hcounts (by rwa [List.length_reverse]) ht hmoved
  exact ⟨hcalls, by rw [ht], by rw [ht], hrange⟩

/-- All pages are on node 0, and every move succeeds. -/
def onNodeZero : MovePages Unit := ⟨fun _ pages => pages.map fun _ => 0, fun _ moves => (moves.map Prod.snd, ())⟩

theorem two_missed : (([missedThird, missedHere].foldlM (consumeSample twoNodes) (SampleStats.fresh twoNodes)).any
    fun s => decide (s.moves onNodeZero 0 () = [(4096, 1)] ∧ s.pages2move = [8192, 4096])) = true := by decide +kernel

/-- Of two candidates one has to move, to node 1. It is sent to node 0, which the array happened to hold. -/
theorem migration_request_two :
    ∃ s calls t, [missedThird, missedHere].foldlM (consumeSample twoNodes) (SampleStats.fresh twoNodes) = some s ∧
      doGreatMigration twoNodes onNodeZero 0 (fun _ => 0) () s = some (calls, t, ()) ∧
      s.moves onNodeZero 0 () = [(4096, 1)] ∧ calls.flatten = [(4096, 0)] ∧
      t.pages2move = [8192, 4096] ∧ t.numberPages2move = -2 ∧ t.InRange := by
  obtain ⟨s, hs, htwo⟩ := (Option.any_eq_true _ _).mp two_missed
  obtain ⟨hmoves, hpages⟩ := of_decide_eq_true htwo
  have hnumber := (StatsCount.of_fresh hs).numberPages2move
  obtain ⟨hdef, hrequest⟩ := migration_request (by decide) hs onNodeZero 0 (fun _ => 0) ()
  rw [hmoves, hpages] at hdef hrequest
  obtain ⟨⟨calls, t, k'⟩, hrun⟩ := Option.isSome_iff_exists.mp (hdef.mpr (.inr (by decide)))
  obtain ⟨hcalls, hlisted, hsign, hrange, -⟩ := hrequest calls t k' hrun
  refine ⟨s, calls, t, hs, hrun, hmoves, hcalls, hlisted, ?_, hrange⟩
  rw [hsign, hnumber, hpages]
  rfl

/-- The samples of a page that came from a node. -/
def accessesFrom (cfg : SamplingConfig) (samples : List LlRec) (page : UInt64) (node : Nat) : Nat :=
  samples.countP fun r => cfg.watches r && decide (r.page = page) && decide (cfg.node r = node)

theorem count_accesses (cfg : SamplingConfig) (samples : List LlRec) (page : UInt64) (node : Nat) :
    ((accessesTo page (samples.reverse.filter cfg.watches)).map cfg.node).count (node : Int) =
      accessesFrom cfg samples page node := by
  rw [Histogram.count_map, accessesTo, List.countP_filter, List.countP_filter, List.countP_reverse, accessesFrom]
  apply List.countP_congr
  intro r _
  by_cases hnode : cfg.node r = node <;> by_cases hwatches : cfg.watches r = true <;> simp [hnode, hwatches]

/-- After fewer than 2^31 samples the destination of a page is the first of the nodes that most of its samples came
from, if these are more than the threshold, and otherwise node 0. None of the counters it is read from has run
over. -/
theorem destination_majority {cfg : SamplingConfig} {samples : List LlRec} {s : SampleStats} {page : UInt64}
    {p : PageStats} (hfew : samples.length < 2 ^ 31)
    (hsamples : samples.foldlM (consumeSample cfg) (SampleStats.fresh cfg) = some s)
    (hpage : s.metrics.pageAccesses.lookup page = some p) (threshold : Nat) :
    (∀ count ∈ p.procAccesses, count < 2 ^ 31) ∧
    (((∀ node < cfg.nCpus, accessesFrom cfg samples page node ≤ threshold) ∧
        destinationNode threshold p.procAccesses = 0) ∨
      (threshold < accessesFrom cfg samples page (destinationNode threshold p.procAccesses) ∧
        (∀ node < cfg.nCpus, accessesFrom cfg samples page node ≤
          accessesFrom cfg samples page (destinationNode threshold p.procAccesses)) ∧
        ∀ node < destinationNode threshold p.procAccesses, accessesFrom cfg samples page node <
          accessesFrom cfg samples page (destinationNode threshold p.procAccesses))) := by
  have hcounts := StatsCount.of_fresh hsamples
  refine ⟨(hcounts.inRange (by rwa [List.length_reverse])).procAccesses page p hpage, ?_⟩
  have hentry := (hcounts.metrics.pageAccesses.known page p hpage).procAccesses
  have hcount : ∀ node < cfg.nCpus, p.procAccesses[node]? = some (accessesFrom cfg samples page node) := by
    intro node hnode
    have hcell := hentry.count node (by omega) (by omega)
    rw [PartialStep.subscript_natCast] at hcell
    rw [hcell, count_accesses]
  rcases greatestCount_cases threshold p.procAccesses with
    ⟨hall, hloop⟩ | ⟨greatest, best, hloop, habove, hbest, hfirst⟩
  · refine .inl ⟨?_, by rw [destinationNode, hloop]⟩
    intro node hnode
    exact hall _ (List.mem_of_getElem? (hcount node hnode))
  · have hdestination : destinationNode threshold p.procAccesses = best := by rw [destinationNode, hloop]
    rw [hdestination]
    have hlt : best < cfg.nCpus := by
      rw [← hentry.length]
      exact (List.getElem?_eq_some_iff.mp hbest).1
    have hgreatest : greatest = accessesFrom cfg samples page best :=
      Option.some.inj (hbest.symm.trans (hcount best hlt))
    obtain ⟨⟨r, hr, hopt⟩, hleast⟩ := hfirst
    obtain rfl : r = greatest := Option.some.inj (hr.symm.trans hbest)
    refine .inr ⟨hgreatest ▸ habove, ?_, ?_⟩
    · intro node hnode
      rw [← hgreatest]
      exact hopt _ (List.mem_of_getElem? (hcount node hnode))
    · intro node hnode
      by_contra hge
      have hnode' := hcount node (by omega)
      refine hleast node hnode ⟨_, hnode', fun x hx => ?_⟩
      have hx : x ≤ r := hopt x hx
      show x ≤ accessesFrom cfg samples page node
      omega

/-- Two accesses from node 1 against one from node 0, and the threshold is 1. -/
theorem destination_majority_four :
    let samples := [missedThird, missedHere, hitFirst, missedThird]
    ∃ s p, samples.foldlM (consumeSample twoNodes) (SampleStats.fresh twoNodes) = some s ∧
      s.metrics.pageAccesses.lookup 4096 = some p ∧ destinationNode 1 p.procAccesses = 1 ∧
      (∀ count ∈ p.procAccesses, count < 2 ^ 31) ∧
      1 < accessesFrom twoNodes samples 4096 1 ∧
      (∀ node < 2, accessesFrom twoNodes samples 4096 node ≤ accessesFrom twoNodes samples 4096 1) ∧
      ∀ node < 1, accessesFrom twoNodes samples 4096 node < accessesFrom twoNodes samples 4096 1 := by
  intro samples
  have hlookup : ((samples.foldlM (consumeSample twoNodes) (SampleStats.fresh twoNodes)).bind
      fun s => s.metrics.pageAccesses.lookup 4096) = some ⟨[1, 2], 5, 1⟩ := by decide +kernel
  obtain ⟨s, hs, hp⟩ := Option.bind_eq_some_iff.mp hlookup
  obtain ⟨hrange, hmajority⟩ := destination_majority (by decide) hs hp 1
  have hnode : destinationNode 1 [1, 2] = 1 := rfl
  rw [hnode] at hmajority
  exact ⟨s, _, hs, hp, hnode, hrange, hmajority.resolve_left (fun h => absurd h.2 (by decide))⟩

end AutopinPlus
