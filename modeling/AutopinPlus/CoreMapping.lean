import AutopinPlus.CpuRanges
import AutopinPlus.SampleProcessing
import Mathlib.Data.List.TakeWhile

/-!
# Cores and nodes of the page migration

`init_spm` takes the packages of the machine for its nodes: it reads for every core the list of its siblings, and
marks the cores of each distinct list with the index of the list. Of a list only the ranges are understood.
-/
namespace AutopinPlus

/-! ## Numbers and tokens -/

/-- `atoi`, a `strtol` whose result is made an `int`. -/
def atoi (s : List Char) : Int :=
  let (sign, digits) := QString.sign (s.dropWhile QString.isSpace)
  let value := (digits.takeWhile Char.isDigit).foldl (fun n c => 10 * n + (c.toNat - 48)) 0
  Int.bmod (max (-2 ^ 63) (min (2 ^ 63 - 1) (sign * (value : Nat)))) (2 ^ 32)

/-- The tokens that `strtok_r` finds. -/
def strtok (sep : Char) (s : List Char) : List (List Char) := ListWords.words (· == sep) s

namespace Spm

/-! ## The topology -/

/-- `CORE_SIB_FMT` -/
def coreSibPath (cpu : Nat) : String :=
  "/sys/devices/system/cpu/cpu" ++ toString cpu ++ "/topology/core_siblings_list"

/-- `THRD_SIB_FMT` -/
def thrdSibPath (cpu : Nat) : String :=
  "/sys/devices/system/cpu/cpu" ++ toString cpu ++ "/topology/thread_siblings_list"

/-- `getline` on a file just opened, without the line feed. -/
def firstLine (fs : Sysfs) (path : String) : Option (List Char) :=
  (fs.file path).bind fun text => if text.toList = [] then none else some (text.toList.takeWhile (· ≠ '\n'))

/-- The lists of core siblings that were found, after one more core. Both files together decide on failure. -/
def buildCpuTopo (fs : Sysfs) (coreSiblings : List (List Char)) (cpu : Nat) : Option (List (List Char)) :=
  match firstLine fs (coreSibPath cpu) with
  | some buf => some (if buf ∈ coreSiblings then coreSiblings else coreSiblings ++ [buf])
  | none => if (firstLine fs (thrdSibPath cpu)).isSome then some coreSiblings else none

def buildCpuTopology (fs : Sysfs) (nr : Nat) : Option (List (List Char)) :=
  if nr = 0 then none else (List.range nr).foldlM (buildCpuTopo fs) []

/-! ## The mapping -/

/-- One token of a list: `low-high` with different ends, both of them cores. -/
def markInterval (maxCores : Int) (siblings : List Int) (token : List Char) : List Int :=
  match strtok '-' token with
  | interval1 :: interval2 :: _ =>
    let low := atoi interval1
    let high := atoi interval2
    if low < high ∧ high > 0 ∧ low ≥ 0 ∧ high < maxCores ∧ low < maxCores then
      siblings.mapIdx fun i mark => if low ≤ i ∧ i ≤ high then 1 else mark
    else siblings
  | _ => siblings

/-- `none` is the null pointer. -/
def getCpuInterval (maxCores : Int) (siblings : List Char) : Option (List Int) :=
  if maxCores < 1 then none
  else if strtok ',' siblings = [] then none
  else some ((strtok ',' siblings).foldl (markInterval maxCores) (List.replicate maxCores.toNat (-1)))

/-- The nodes that the lists tell; there is no list behind the last. -/
def initProcessorMapping (nCores nCpus : Nat) (coreSiblings : List (List Char)) : Option (List Int) :=
  (List.range nCpus).foldlM (fun coreToNode (i : Nat) => do
    let list ← coreSiblings[i]?
    match getCpuInterval nCores list with
    | none => some coreToNode
    | some siblings =>
      some (List.zipWith (fun (mark node : Int) => if mark = 1 then (i : Int) else node) siblings coreToNode))
    (List.replicate nCores (-1))

end Spm

/-! ## Reading a printed list -/

theorem foldl_digits (n : Nat) :
    (SysText.number n).foldl (fun n c => 10 * n + (c.toNat - 48)) 0 = n := by
  induction n using Nat.strongRecOn with
  | ind n ih =>
    have hvalue : ∀ d < 10, (Nat.digitChar d).toNat - 48 = d := by decide
    rw [SysText.number, Nat.toDigits_eq_if (by decide)]
    split
    · next hlt => simp [hvalue n hlt]
    · next hge =>
      have hfront := ih (n / 10) (by omega)
      rw [SysText.number] at hfront
      rw [List.foldl_append, hfront, List.foldl_cons, List.foldl_nil, hvalue (n % 10) (Nat.mod_lt n (by decide))]
      omega

theorem atoi_number {n : Nat} (hn : n < 2 ^ 31) : atoi (SysText.number n) = n := by
  have hdigit : ∀ c ∈ SysText.number n, c.isDigit = true := fun c hc => SysText.isDigit_of_mem_number hc
  have hspace : (SysText.number n).dropWhile QString.isSpace = SysText.number n := by
    have h := QString.dropWhile_isSpace [] (l := SysText.number n) Nat.toDigits_ne_nil
      (fun c hc => QString.isSpace_of_isDigit (hdigit c hc))
    rwa [List.append_nil] at h
  have hall : (SysText.number n).takeWhile Char.isDigit = SysText.number n := by
    rw [List.takeWhile_eq_self_iff]
    exact hdigit
  simp only [atoi, hspace, QString.sign_of_isDigit hdigit, hall, foldl_digits]
  have hsmall : max (-2 ^ 63) (min (2 ^ 63 - 1) (1 * (n : Int))) = n := by omega
  rw [hsmall]
  apply Int.bmod_eq_of_le <;> omega

namespace SysText

/-- The text of a list, without the end of the line. -/
def text (l : List Nat) : List Char := [','].intercalate ((runs l).map range)

/-- A number next to which another stands in the list. -/
def Neighboured (l : List Nat) (c : Nat) : Prop := c ∈ l ∧ (c + 1 ∈ l ∨ ∃ b ∈ l, b + 1 = c)

instance (l : List Nat) (c : Nat) : Decidable (Neighboured l c) := inferInstanceAs (Decidable (_ ∧ _))

/-- The first run starts with the least number. -/
theorem head_runs_le {l : List Nat} (hl : l.Pairwise (· < ·)) {r : Nat × Nat} {more : List (Nat × Nat)}
    (h : runs l = r :: more) : r.1 ∈ l ∧ ∀ b ∈ l, r.1 ≤ b := by
  have hhead := head?_runs h
  have hmem : r.1 ∈ l := List.mem_of_head? hhead
  obtain ⟨b, rest, rfl⟩ := List.exists_cons_of_ne_nil (List.ne_nil_of_mem hmem)
  obtain rfl : b = r.1 := Option.some.inj hhead
  refine ⟨hmem, ?_⟩
  intro c hc
  rcases List.mem_cons.mp hc with rfl | hc
  · exact le_refl _
  · exact le_of_lt ((List.pairwise_cons.mp hl).1 c hc)

theorem neighboured_cons {a c : Nat} {rest : List Nat} (hca : c ≠ a) (hc : c ∈ rest → a + 1 < c) :
    Neighboured (a :: rest) c ↔ Neighboured rest c := by
  unfold Neighboured
  simp only [List.mem_cons, hca, false_or, exists_eq_or_imp]
  refine and_congr_right fun hmem => ?_
  have hlt := hc hmem
  have hnext : ¬ c + 1 = a := by omega
  have hbefore : ¬ a + 1 = c := by omega
  simp only [hnext, hbefore, false_or]

/-- The runs of more than one number hold the numbers that have a neighbour. -/
theorem wide_run_iff {l : List Nat} (hl : l.Pairwise (· < ·)) (c : Nat) :
    (∃ r ∈ runs l, r.1 < r.2 ∧ r.1 ≤ c ∧ c ≤ r.2) ↔ Neighboured l c := by
  induction l with
  | nil => simp [runs, Neighboured]
  | cons a rest ih =>
    obtain ⟨hfirst, hrest⟩ := List.pairwise_cons.mp hl
    have ih := ih hrest
    cases hruns : runs rest with
    | nil =>
      have hnil : rest = [] := by
        by_contra hne
        exact runs_ne_nil hne hruns
      subst hnil
      simp only [runs, Neighboured, List.mem_singleton, exists_eq_left]
      omega
    | cons r more =>
      obtain ⟨hmem, hleast⟩ := head_runs_le hrest hruns
      have hle : r.1 ≤ r.2 := (mem_runs (hruns ▸ List.mem_cons_self)).1
      have hafter := hfirst _ hmem
      rw [hruns] at ih
      simp only [List.mem_cons, exists_eq_or_imp] at ih
      have hmore : (∃ r' ∈ more, r'.1 < r'.2 ∧ r'.1 ≤ c ∧ c ≤ r'.2) → c ∈ rest :=
        fun h => (ih.mp (.inr h)).1
      simp only [runs, hruns]
      by_cases hadjacent : r.1 = a + 1
      · rw [if_pos hadjacent]
        simp only [List.mem_cons, exists_eq_or_imp]
        rcases Nat.lt_or_ge c a with hlt | hge
        · refine iff_of_false ?_ ?_
          · rintro (h | h)
            · omega
            · have := hfirst c (hmore h)
              omega
          · rintro ⟨h, -⟩
            rcases List.mem_cons.mp h with h | h
            · omega
            · have := hfirst c h
              omega
        · by_cases hself : c = a
          · subst hself
            exact iff_of_true (.inl (by omega))
              ⟨List.mem_cons_self, .inl (List.mem_cons_of_mem _ (hadjacent ▸ hmem))⟩
          · by_cases hnext : c = r.1
            · subst hnext
              exact iff_of_true (.inl (by omega))
                ⟨List.mem_cons_of_mem _ hmem, .inr ⟨a, List.mem_cons_self, hadjacent.symm⟩⟩
            · rw [neighboured_cons hself (fun h => by have := hleast c h; omega), ← ih]
              refine or_congr_left ?_
              omega
      · rw [if_neg hadjacent]
        simp only [List.mem_cons, exists_eq_or_imp, Nat.lt_irrefl, false_and, false_or]
        rw [ih]
        by_cases hself : c = a
        · subst hself
          refine iff_of_false ?_ ?_
          · rintro ⟨h, -⟩
            exact Nat.lt_irrefl c (hfirst c h)
          · rintro ⟨-, h | ⟨b, hb, h⟩⟩
            · rcases List.mem_cons.mp h with h | h
              · omega
              · have := hleast _ h
                omega
            · rcases List.mem_cons.mp hb with rfl | hb
              · omega
              · have := hfirst b hb
                omega
        · exact (neighboured_cons hself (fun h => by have := hleast c h; omega)).symm

theorem strtok_text (l : List Nat) : strtok ',' (text l) = (runs l).map range := by
  refine ListWords.words_intercalate ?_ ?_
  · intro w hw
    obtain ⟨r, -, rfl⟩ := List.mem_map.mp hw
    rw [range]
    split
    · exact Nat.toDigits_ne_nil
    · simp
  · intro w hw hc
    obtain ⟨r, -, rfl⟩ := List.mem_map.mp hw
    rcases isDigit_or_of_mem_range hc with hd | hd <;> cases hd

theorem strtok_range (r : Nat × Nat) :
    strtok '-' (range r) = if r.1 = r.2 then [number r.1] else [number r.1, number r.2] := by
  have hne : ∀ n, number n ≠ [] := fun _ => Nat.toDigits_ne_nil
  have hdash : ∀ n, '-' ∉ number n := not_mem_number (by decide)
  rw [range]
  split_ifs with h
  · have hwords : strtok '-' (['-'].intercalate [number r.1]) = [number r.1] :=
      ListWords.words_intercalate (by simp [hne]) (by simp [hdash])
    rwa [List.intercalate_singleton] at hwords
  · have hwords : strtok '-' (['-'].intercalate [number r.1, number r.2]) = [number r.1, number r.2] :=
      ListWords.words_intercalate (by simp [hne]) (by simp [hdash])
    rwa [List.intercalate_cons_cons, List.intercalate_singleton, List.append_assoc, List.singleton_append] at hwords

end SysText

namespace Spm

open SysText (runs range text Neighboured)

theorem length_markInterval (maxCores : Int) (siblings : List Int) (token : List Char) :
    (markInterval maxCores siblings token).length = siblings.length := by
  unfold markInterval
  split
  · simp only
    split_ifs <;> simp
  · rfl

theorem length_foldl_markInterval (maxCores : Int) (siblings : List Int) (tokens : List (List Char)) :
    (tokens.foldl (markInterval maxCores) siblings).length = siblings.length := by
  induction tokens generalizing siblings with
  | nil => rfl
  | cons token tokens ih => rw [List.foldl_cons, ih, length_markInterval]

/-- A run of the list marks its numbers if there are several, all of them cores. -/
theorem getElem?_markInterval {maxCores : Nat} {r : Nat × Nat} (hle : r.1 ≤ r.2) (hlt : r.2 < maxCores)
    (hmax : maxCores < 2 ^ 31) (siblings : List Int) (i : Nat) :
    (markInterval maxCores siblings (range r))[i]? =
      (siblings[i]?).map fun mark => if r.1 < r.2 ∧ r.1 ≤ i ∧ i ≤ r.2 then 1 else mark := by
  rw [markInterval, SysText.strtok_range]
  by_cases h : r.1 = r.2
  · have hnone : ¬ (r.1 < r.2 ∧ r.1 ≤ i ∧ i ≤ r.2) := by omega
    simp only [if_pos h, if_neg hnone, Option.map_id']
  · rw [if_neg h]
    simp only [atoi_number (n := r.1) (by omega), atoi_number (n := r.2) (by omega)]
    rw [if_pos (by omega), List.getElem?_mapIdx]
    congr 1
    funext mark
    have hiff : ((r.1 : Int) ≤ i ∧ (i : Int) ≤ r.2) ↔ (r.1 < r.2 ∧ r.1 ≤ i ∧ i ≤ r.2) := by omega
    simp only [hiff]

/-- All tokens together mark the numbers of the runs with several of them. -/
theorem getElem?_foldl_markInterval {maxCores : Nat} (hmax : maxCores < 2 ^ 31) {rs : List (Nat × Nat)}
    (hrs : ∀ r ∈ rs, r.1 ≤ r.2 ∧ r.2 < maxCores) (siblings : List Int) (i : Nat) :
    ((rs.map range).foldl (markInterval maxCores) siblings)[i]? =
      (siblings[i]?).map fun mark => if ∃ r ∈ rs, r.1 < r.2 ∧ r.1 ≤ i ∧ i ≤ r.2 then 1 else mark := by
  induction rs generalizing siblings with
  | nil => simp
  | cons r rs ih =>
    obtain ⟨⟨hle, hlt⟩, hrest⟩ := List.forall_mem_cons.mp hrs
    rw [List.map_cons, List.foldl_cons, ih hrest, getElem?_markInterval hle hlt hmax, Option.map_map]
    congr 1
    funext mark
    simp only [Function.comp_apply, List.mem_cons, exists_eq_or_imp]
    by_cases hr : r.1 < r.2 ∧ r.1 ≤ i ∧ i ≤ r.2
    · simp [hr]
    · simp only [or_iff_right hr, if_neg hr]

theorem getElem?_getCpuInterval {maxCores : Nat} (hmax : maxCores < 2 ^ 31) {l : List Nat} (hne : l ≠ [])
    (hl : l.Pairwise (· < ·)) (hlt : ∀ c ∈ l, c < maxCores) :
    ∃ siblings, getCpuInterval maxCores (text l) = some siblings ∧ siblings.length = maxCores ∧
      ∀ i < maxCores, siblings[i]? = some (if Neighboured l i then 1 else -1) := by
  obtain ⟨c, hc⟩ := List.exists_mem_of_ne_nil l hne
  have hpos := hlt c hc
  have htokens : (runs l).map range ≠ [] := by simpa using SysText.runs_ne_nil hne
  have hruns : ∀ r ∈ runs l, r.1 ≤ r.2 ∧ r.2 < maxCores := by
    intro r hr
    obtain ⟨hle, hmem⟩ := SysText.mem_runs hr
    exact ⟨hle, hlt _ hmem⟩
  refine ⟨((runs l).map range).foldl (markInterval maxCores) (List.replicate maxCores (-1)), ?_, ?_, ?_⟩
  · rw [getCpuInterval, if_neg (by omega), SysText.strtok_text, if_neg htokens, Int.toNat_natCast]
  · rw [length_foldl_markInterval, List.length_replicate]
  · intro i hi
    rw [getElem?_foldl_markInterval hmax hruns, List.getElem?_replicate, if_pos hi, Option.map_some]
    simp only [SysText.wide_run_iff hl]

/-! ## The mapping of a machine -/

/-- The packages of a machine, each told as the sorted list of its cores, and their files. -/
structure Packages (fs : Sysfs) (nr : Nat) (packageOf : Nat → List Nat) : Prop where
  self : ∀ c < nr, c ∈ packageOf c
  same : ∀ c < nr, ∀ d ∈ packageOf c, packageOf d = packageOf c
  sorted : ∀ c < nr, (packageOf c).Pairwise (· < ·)
  lt : ∀ c < nr, ∀ d ∈ packageOf c, d < nr
  printed : ∀ c < nr, fs.file (coreSibPath c) = some (SysText.list (packageOf c))

/-- The packages in the order of their first cores. -/
def packages : Nat → (Nat → List Nat) → List (List Nat)
  | 0, _ => []
  | nr + 1, packageOf =>
    if packageOf nr ∈ packages nr packageOf then packages nr packageOf
    else packages nr packageOf ++ [packageOf nr]

/-- A printed list tells its numbers. -/
theorem text_inj {l m : List Nat} (hl : l ≠ []) (hm : m ≠ []) (hlt : ∀ a ∈ l, a < 2 ^ 31)
    (hmt : ∀ a ∈ m, a < 2 ^ 31) (h : text l = text m) : l = m := by
  have hlist : SysText.list l = SysText.list m := by
    rw [SysText.list, SysText.list, SysText.line, SysText.line]
    exact congrArg (fun t => String.ofList (t ++ ['\n'])) h
  have hparsed := congrArg (fun t => (QString.splitAll ',' t).flatMap CpuInfo.parseRange) hlist
  simp only [SysText.parse_list hl hlt, SysText.parse_list hm hmt] at hparsed
  exact List.map_injective_iff.mpr (fun a b hab => Int.ofNat.inj hab) hparsed

theorem firstLine_list {fs : Sysfs} {path : String} {l : List Nat} (h : fs.file path = some (SysText.list l)) :
    firstLine fs path = some (text l) := by
  have hmem : ∀ c ∈ text l, c ≠ '\n' := by
    rintro c hc rfl
    rcases ListWords.mem_intercalate hc with heq | ⟨w, hw, hc⟩
    · cases heq
    · obtain ⟨r, -, rfl⟩ := List.mem_map.mp hw
      rcases SysText.isDigit_or_of_mem_range hc with hd | hd <;> cases hd
  have hlist : (SysText.list l).toList = text l ++ ['\n'] := by
    rw [SysText.list, SysText.line, String.toList_ofList]
    rfl
  have hline : (text l ++ ['\n']).takeWhile (· ≠ '\n') = text l := by
    rw [List.takeWhile_append_of_pos (fun c hc => by simpa using hmem c hc)]
    simp
  rw [firstLine, h, Option.bind_some, hlist, if_neg (by simp), hline]

/-! ### Reading the lists -/

theorem mem_packages {nr : Nat} {packageOf : Nat → List Nat} {p : List Nat} :
    p ∈ packages nr packageOf ↔ ∃ c < nr, packageOf c = p := by
  induction nr with
  | zero => simp [packages]
  | succ nr ih =>
    rw [packages]
    simp only [Nat.lt_succ_iff_lt_or_eq, or_and_right, exists_or, exists_eq_left, ← ih]
    split_ifs with h
    · exact ⟨.inl, fun hp => hp.elim id (fun he => he ▸ h)⟩
    · simp [eq_comm]

theorem nodup_packages (nr : Nat) (packageOf : Nat → List Nat) : (packages nr packageOf).Nodup := by
  induction nr with
  | zero => exact List.nodup_nil
  | succ nr ih =>
    rw [packages]
    split_ifs with h
    · exact ih
    · exact List.nodup_append'.mpr ⟨ih, List.nodup_singleton _, by simpa using h⟩

variable {fs : Sysfs} {nr : Nat} {packageOf : Nat → List Nat}

namespace Packages

theorem ne_nil (h : Packages fs nr packageOf) {c : Nat} (hc : c < nr) : packageOf c ≠ [] :=
  List.ne_nil_of_mem (h.self c hc)

/-- Cores with the same text are in the same package. -/
theorem text_mem_iff (h : Packages fs nr packageOf) (hnr : nr < 2 ^ 31) {k : Nat} (hk : k < nr) :
    text (packageOf k) ∈ (packages k packageOf).map text ↔ packageOf k ∈ packages k packageOf := by
  rw [List.mem_map]
  constructor
  · rintro ⟨p, hp, htext⟩
    obtain ⟨c, hck, rfl⟩ := mem_packages.mp hp
    have hc : c < nr := by omega
    have hlt : ∀ d < nr, ∀ a ∈ packageOf d, a < 2 ^ 31 := fun d hd a ha => by
      have := h.lt d hd a ha
      omega
    rwa [← text_inj (h.ne_nil hc) (h.ne_nil hk) (hlt c hc) (hlt k hk) htext]
  · intro hp
    exact ⟨_, hp, rfl⟩

/-- After some cores the lists of their packages are known. -/
theorem foldlM_buildCpuTopo (h : Packages fs nr packageOf) (hnr : nr < 2 ^ 31) {k : Nat} (hk : k ≤ nr) :
    (List.range k).foldlM (buildCpuTopo fs) [] = some ((packages k packageOf).map text) := by
  induction k with
  | zero => rfl
  | succ k ih =>
    have hlt : k < nr := hk
    have hstep : buildCpuTopo fs ((packages k packageOf).map text) k =
        some ((packages (k + 1) packageOf).map text) := by
      simp only [buildCpuTopo, firstLine_list (h.printed k hlt), h.text_mem_iff hnr hlt, packages]
      split_ifs <;> simp
    rw [List.range_succ, List.foldlM_append, ih (by omega)]
    simpa using hstep

theorem buildCpuTopology (h : Packages fs nr packageOf) (hpos : 0 < nr) (hnr : nr < 2 ^ 31) :
    Spm.buildCpuTopology fs nr = some ((packages nr packageOf).map text) := by
  rw [Spm.buildCpuTopology, if_neg (by omega), h.foldlM_buildCpuTopo hnr (Nat.le_refl nr)]

/-- A package is that of each of its cores. -/
theorem idxOf_eq (h : Packages fs nr packageOf) {i c : Nat} {p : List Nat}
    (hp : (packages nr packageOf)[i]? = some p) (hc : c ∈ p) : (packages nr packageOf).idxOf (packageOf c) = i := by
  obtain ⟨d, hd, rfl⟩ := mem_packages.mp (List.mem_of_getElem? hp)
  obtain ⟨hi, hget⟩ := List.getElem?_eq_some_iff.mp hp
  rw [h.same d hd c hc, ← hget, (nodup_packages nr packageOf).idxOf_getElem i hi]

end Packages

/-- The node of a core among the first packages; a core without a neighbour in its package has none. -/
def nodeOf (nr : Nat) (packageOf : Nat → List Nat) (nCpus c : Nat) : Int :=
  if Neighboured (packageOf c) c ∧ (packages nr packageOf).idxOf (packageOf c) < nCpus then
    ((packages nr packageOf).idxOf (packageOf c) : Nat)
  else -1

/-- One more package gives its index to the cores that have a neighbour in it. -/
theorem Packages.nodeOf_succ (h : Packages fs nr packageOf) {i c : Nat} {p : List Nat}
    (hp : (packages nr packageOf)[i]? = some p) (hc : c < nr) :
    nodeOf nr packageOf (i + 1) c = if Neighboured p c then (i : Int) else nodeOf nr packageOf i c := by
  by_cases hmem : c ∈ p
  · have hidx := h.idxOf_eq hp hmem
    obtain ⟨d, hd, rfl⟩ := mem_packages.mp (List.mem_of_getElem? hp)
    rw [h.same d hd c hmem] at hidx
    simp only [nodeOf, h.same d hd c hmem, hidx, Nat.lt_succ_self, Nat.lt_irrefl, and_true, and_false, if_false]
  · have hother : (packages nr packageOf).idxOf (packageOf c) ≠ i := by
      intro hidx
      have hin : packageOf c ∈ packages nr packageOf := mem_packages.mpr ⟨c, hc, rfl⟩
      have hget := List.getElem?_idxOf hin
      rw [hidx, hp] at hget
      exact hmem (Option.some.inj hget ▸ h.self c hc)
    have hiff : (packages nr packageOf).idxOf (packageOf c) < i + 1 ↔
        (packages nr packageOf).idxOf (packageOf c) < i := by
      omega
    rw [if_neg (fun hn => hmem hn.1)]
    simp only [nodeOf, hiff]

theorem Packages.initProcessorMapping_step (h : Packages fs nr packageOf) (hnr : nr < 2 ^ 31) {i : Nat} {p : List Nat}
    (hp : (packages nr packageOf)[i]? = some p) :
    ∃ siblings, getCpuInterval nr (text p) = some siblings ∧
      List.zipWith (fun (mark node : Int) => if mark = 1 then (i : Int) else node) siblings
        ((List.range nr).map (nodeOf nr packageOf i)) = (List.range nr).map (nodeOf nr packageOf (i + 1)) := by
  obtain ⟨d, hd, rfl⟩ := mem_packages.mp (List.mem_of_getElem? hp)
  obtain ⟨siblings, hmarks, hlength, hmark⟩ :=
    getElem?_getCpuInterval hnr (h.ne_nil hd) (h.sorted d hd) (h.lt d hd)
  refine ⟨siblings, hmarks, ?_⟩
  apply List.ext_getElem?
  intro c
  by_cases hc : c < nr
  · rw [List.getElem?_zipWith, hmark c hc, List.getElem?_map, List.getElem?_map, List.getElem?_range hc]
    simp only [Option.map_some, h.nodeOf_succ hp hc]
    split_ifs <;> simp_all
  · rw [List.getElem?_eq_none (by simp; omega), List.getElem?_eq_none (by simp; omega)]

/-- The loop over the nodes, as far as there are packages. -/
theorem Packages.initProcessorMapping (h : Packages fs nr packageOf) (hnr : nr < 2 ^ 31) (nCpus : Nat) :
    initProcessorMapping nr nCpus ((packages nr packageOf).map text) =
      if nCpus ≤ (packages nr packageOf).length then some ((List.range nr).map (nodeOf nr packageOf nCpus))
      else none := by
  induction nCpus with
  | zero =>
    have hnone : nodeOf nr packageOf 0 = fun _ => -1 := by
      funext c
      simp [nodeOf]
    simp [Spm.initProcessorMapping, hnone]
  | succ i ih =>
    rw [Spm.initProcessorMapping] at ih ⊢
    rw [List.range_succ, List.foldlM_append, ih]
    rcases Nat.lt_or_ge i (packages nr packageOf).length with hi | hi
    · have hp := List.getElem?_eq_getElem hi
      obtain ⟨siblings, hmarks, hzip⟩ := h.initProcessorMapping_step hnr hp
      rw [if_pos (by omega), if_pos (by omega)]
      simp [hmarks, hzip, hi]
    · have hnone : (packages nr packageOf)[i]? = none := List.getElem?_eq_none hi
      rw [if_neg (c := i + 1 ≤ _) (by omega)]
      split_ifs <;> simp [hnone]

/-- Exactly the cores of the first `nCpus` packages that are next to a core of the same package get a node, the index of
their package. A machine with fewer packages than nodes makes the loop read behind the lists. -/
theorem init_processor_mapping_packages (h : Packages fs nr packageOf) (hpos : 0 < nr) (hnr : nr < 2 ^ 31)
    (nCpus : Nat) :
    (buildCpuTopology fs nr).bind (Spm.initProcessorMapping nr nCpus) =
      if nCpus ≤ (packages nr packageOf).length then some ((List.range nr).map (nodeOf nr packageOf nCpus))
      else none := by
  rw [h.buildCpuTopology hpos hnr, Option.bind_some, h.initProcessorMapping hnr]

/-- The machine of the examples: a package of two cores, and one of a single core. -/
def threeCores : Sysfs where
  nprocs := 3
  file path :=
    if path = coreSibPath 0 ∨ path = coreSibPath 1 then some "0-1\n"
    else if path = coreSibPath 2 then some "2\n"
    else none

/-- The cores of the packages. -/
def pairAndOne (c : Nat) : List Nat := if c = 2 then [2] else [0, 1]

theorem packages_threeCores : Packages threeCores 3 pairAndOne where
  self := by decide
  same := by decide
  sorted := by decide
  lt := by decide
  printed := by decide +kernel

/-- The core without a neighbour gets no node, though there is one for its package. -/
theorem init_processor_mapping_packages_threeCores :
    (buildCpuTopology threeCores 3).bind (Spm.initProcessorMapping 3 2) = some [0, 0, -1] ∧
      (buildCpuTopology threeCores 3).bind (Spm.initProcessorMapping 3 3) = none := by
  have hmap := init_processor_mapping_packages packages_threeCores (by decide) (by decide)
  constructor
  · rw [hmap]
    decide
  · rw [hmap]
    decide

/-! ### The samples of a machine -/

theorem Packages.node_nonneg_iff {cfg : SamplingConfig} (h : Packages fs cfg.nCores packageOf) (hpos : 0 < cfg.nCores)
    (hnr : cfg.nCores < 2 ^ 31)
    (hmap : (Spm.buildCpuTopology fs cfg.nCores).bind (Spm.initProcessorMapping cfg.nCores cfg.nCpus) =
      some cfg.coreToCpu) {r : LlRec} (hr : cfg.watches r = true) :
    0 ≤ cfg.node r ↔ 0 ≤ r.core ∧ Neighboured (packageOf r.core.toNat) r.core.toNat ∧
      (packages cfg.nCores packageOf).idxOf (packageOf r.core.toNat) < cfg.nCpus := by
  rw [h.buildCpuTopology hpos hnr, Option.bind_some, h.initProcessorMapping hnr] at hmap
  obtain ⟨-, hmapping⟩ := Option.ite_none_right_eq_some.mp hmap
  have hcore : r.core < cfg.nCores := by
    simp only [SamplingConfig.watches, SamplingConfig.counts, Bool.and_eq_true, decide_eq_true_eq] at hr
    omega
  by_cases hneg : 0 ≤ r.core
  · have hc : r.core.toNat < cfg.nCores := by omega
    rw [SamplingConfig.node, PartialStep.subscript, if_pos hneg, ← Option.some.inj hmapping, List.getElem?_map,
      List.getElem?_range hc, Option.map_some, Option.getD_some, nodeOf]
    split_ifs with hnode
    · exact iff_of_true (Int.natCast_nonneg _) ⟨hneg, hnode⟩
    · exact iff_of_false (by omega) (fun hk => hnode hk.2)
  · rw [SamplingConfig.node, PartialStep.subscript, if_neg hneg]
    exact iff_of_false (by simp) (fun hk => hneg hk.1)

/-- On a machine whose lists were read the tables are left as soon as the watched process is sampled on a core
without a neighbour in its package or outside the first `nCpus` packages, even if every other value of the samples is
in range. -/
theorem samples_counted_on_packages {cfg : SamplingConfig} (h : Packages fs cfg.nCores packageOf)
    (hpos : 0 < cfg.nCores) (hnr : cfg.nCores < 2 ^ 31)
    (hmap : (Spm.buildCpuTopology fs cfg.nCores).bind (Spm.initProcessorMapping cfg.nCores cfg.nCpus) =
      some cfg.coreToCpu) (samples : List LlRec) :
    (samples.foldlM (consumeSample cfg) (SampleStats.fresh cfg)).isSome ↔
      ∀ r ∈ samples, cfg.watches r →
        (0 ≤ r.core ∧ Neighboured (packageOf r.core.toNat) r.core.toNat ∧
          (packages cfg.nCores packageOf).idxOf (packageOf r.core.toNat) < cfg.nCpus) ∧ -50 < narrow r.latency := by
  rw [((SampleStats.fresh_count cfg).samples samples).1]
  refine forall₂_congr fun r _ => forall_congr' fun hr => ?_
  rw [SamplingConfig.Valid, LlRec.weightBucket_nonneg_iff, h.node_nonneg_iff hpos hnr hmap hr]

theorem pairAndOne_nodes : ∀ node ∈ [(0 : Int), 0, -1], -1 ≤ node ∧ node < (2 : Nat) := by decide

/-- The process is watched on the three cores. -/
def watchedThreeCores : SamplingConfig where
  ownPid := 5
  pidUo := 7
  nCpus := 2
  nCores := 3
  coreToCpu := [0, 0, -1]
  heap := fun _ => 3
  cores := rfl
  nodes := pairAndOne_nodes

theorem threeCores_mapping :
    (Spm.buildCpuTopology threeCores watchedThreeCores.nCores).bind
      (Spm.initProcessorMapping watchedThreeCores.nCores watchedThreeCores.nCpus) =
      some watchedThreeCores.coreToCpu := by
  have hcores : watchedThreeCores.nCores = 3 := rfl
  have hnodes : watchedThreeCores.nCpus = 2 := rfl
  rw [hcores, hnodes, packages_threeCores.buildCpuTopology (by decide) (by decide), Option.bind_some,
    packages_threeCores.initProcessorMapping (by decide)]
  decide

/-- A miss of core 1 is counted, and one of core 2 leaves the tables. -/
theorem samples_counted_on_packages_threeCores :
    ([missedThird].foldlM (consumeSample watchedThreeCores) (SampleStats.fresh watchedThreeCores)).isSome ∧
      ¬ ([missedThird, { missedThird with cpu := 2 }].foldlM (consumeSample watchedThreeCores)
        (SampleStats.fresh watchedThreeCores)).isSome := by
  have hpackages : Packages threeCores watchedThreeCores.nCores pairAndOne := packages_threeCores
  have hcounted := samples_counted_on_packages hpackages (by decide) (by decide) threeCores_mapping
  constructor
  · refine (hcounted [missedThird]).mpr ?_
    decide +kernel
  · intro hsome
    have halone := (hcounted [missedThird, { missedThird with cpu := 2 }]).mp hsome { missedThird with cpu := 2 }
      (by simp) (by decide +kernel)
    exact absurd halone.1.2.1 (by decide +kernel)

/-- Two packages that number their cores in turn leave every core without a node. -/
example : (List.range 4).map (nodeOf 4 (fun c => if c % 2 = 0 then [0, 2] else [1, 3]) 2) = [-1, -1, -1, -1] := by
  decide

end Spm

end AutopinPlus
