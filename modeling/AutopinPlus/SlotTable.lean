import Mathlib.Data.List.Basic

/-!
# Tables of exclusively owned slots

A table is a list of entries, one for each slot, with a distinguished entry for a
free slot; every other entry has an owner. The file has what a change by one owner
may touch, and when no entry stands in two slots, for the two ways a table changes:
filling a free slot and freeing the first slot that holds an entry.
-/
namespace SlotTable

variable {τ ω : Type}

theorem getElem?_set_cases {l : List τ} {j i : Nat} {t u : τ} (h : (l.set j t)[i]? = some u) :
    (i = j ∧ u = t) ∨ (i ≠ j ∧ l[i]? = some u) := by
  by_cases hij : i = j
  · subst hij
    have hlt : i < l.length := by simpa using (List.getElem?_eq_some_iff.mp h).1
    rw [List.getElem?_set_self hlt] at h
    exact .inl ⟨rfl, (Option.some.inj h).symm⟩
  · rw [List.getElem?_set_ne (Ne.symm hij)] at h
    exact .inr ⟨hij, h⟩

theorem getElem?_replace_cases [DecidableEq τ] {l : List τ} {t e u : τ} {i : Nat}
    (h : (l.replace t e)[i]? = some u) : l[i]? = some u ∨ (l[i]? = some t ∧ u = e) := by
  induction l generalizing i with
  | nil => simp at h
  | cons x l ih =>
    rw [List.replace_cons] at h
    split at h
    · rename_i hx
      have hx : x = t := (eq_of_beq hx).symm
      cases i with
      | zero => exact .inr ⟨by simp [hx], by simpa using h.symm⟩
      | succ i => exact .inl (by simpa using h)
    · cases i with
      | zero => exact .inl (by simpa using h)
      | succ i => simpa using ih (by simpa using h)

theorem getElem?_replace_other [DecidableEq τ] {l : List τ} {t e u : τ} {i : Nat}
    (h : l[i]? = some u) (hu : u ≠ t) :
    (l.replace t e)[i]? = some u := by
  induction l generalizing i with
  | nil => simp at h
  | cons x l ih =>
    rw [List.replace_cons]
    cases i with
    | zero =>
      obtain rfl : x = u := by simpa using h
      have hne : (t == x) = false := by simpa using Ne.symm hu
      simp [hne]
    | succ i =>
      split
      · simpa using h
      · simpa using ih (by simpa using h)

/-- `replace` writes the slot that a search for the entry finds. -/
theorem replace_eq_set [DecidableEq τ] {l : List τ} {t : τ} {i : Nat}
    (h : l.findIdx? (fun u => t = u) = some i) (e : τ) : l.replace t e = l.set i e := by
  induction l generalizing i with
  | nil => simp at h
  | cons x l ih =>
    rw [List.findIdx?_cons] at h
    rw [List.replace_cons]
    by_cases hx : t = x
    · simp only [hx, decide_true, if_true, Option.some.injEq] at h
      subst h
      simp [hx]
    · simp only [hx, decide_false, Bool.false_eq_true, if_false] at h
      obtain ⟨j, hj, rfl⟩ := Option.map_eq_some_iff.mp h
      have hne : (t == x) = false := by simpa using hx
      simp [hne, ih hj]

theorem mem_replace_other [DecidableEq τ] {l : List τ} {t e u : τ} (ht : u ≠ t) (he : u ≠ e) :
    u ∈ l.replace t e ↔ u ∈ l := by
  constructor
  · intro h
    obtain ⟨i, hi⟩ := List.mem_iff_getElem?.mp h
    exact List.mem_of_getElem? ((getElem?_replace_cases hi).resolve_right (fun hn => he hn.2))
  · intro h
    obtain ⟨i, hi⟩ := List.mem_iff_getElem?.mp h
    exact List.mem_of_getElem? (getElem?_replace_other hi ht)

section Owner

variable (free : τ) (owner : τ → ω)

/-- A change that only touches slots which were free or belong to one owner, and
leaves them free or with that owner. -/
structure OnlyOwn (p : ω) (a b : List τ) : Prop where
  length : b.length = a.length
  slot : ∀ (i : Nat) (t u : τ), a[i]? = some t → b[i]? = some u →
    u = t ∨ ((t = free ∨ owner t = p) ∧ (u = free ∨ owner u = p))

variable {free owner} {p : ω} {a b c : List τ}

theorem OnlyOwn.refl (p : ω) (a : List τ) : OnlyOwn free owner p a a :=
  ⟨rfl, fun _ _ _ h h' => .inl (Option.some.inj (h'.symm.trans h))⟩

theorem OnlyOwn.trans (h : OnlyOwn free owner p a b) (h' : OnlyOwn free owner p b c) :
    OnlyOwn free owner p a c := by
  refine ⟨h'.length.trans h.length, ?_⟩
  intro i t v ht hv
  have hlt : i < b.length := by
    rw [h.length]
    exact (List.getElem?_eq_some_iff.mp ht).1
  obtain ⟨u, hu⟩ : ∃ u, b[i]? = some u := ⟨_, List.getElem?_eq_getElem hlt⟩
  rcases h.slot i t u ht hu with rfl | ⟨hta, _⟩
  · exact h'.slot i u v hu hv
  · rcases h'.slot i u v hu hv with rfl | ⟨_, hva⟩
    · exact h.slot i t v ht hu
    · exact .inr ⟨hta, hva⟩

theorem OnlyOwn.set {j : Nat} {t : τ} (hj : a[j]? = some free) (ht : owner t = p) :
    OnlyOwn free owner p a (a.set j t) := by
  refine ⟨by simp, ?_⟩
  intro i u v hu hv
  rcases getElem?_set_cases hv with ⟨rfl, rfl⟩ | ⟨_, hv⟩
  · have : u = free := Option.some.inj (hu.symm.trans hj)
    exact .inr ⟨.inl this, .inr ht⟩
  · exact .inl (Option.some.inj (hv.symm.trans hu))

theorem OnlyOwn.replace [DecidableEq τ] {t : τ} (ht : owner t = p) :
    OnlyOwn free owner p a (a.replace t free) := by
  refine ⟨by simp, ?_⟩
  intro i u v hu hv
  rcases getElem?_replace_cases hv with hv | ⟨ht', hfree⟩
  · exact .inl (Option.some.inj (hv.symm.trans hu))
  · have : u = t := Option.some.inj (hu.symm.trans ht')
    exact .inr ⟨.inr (this ▸ ht), .inl hfree⟩

/-- Entries of other owners stay where they are. -/
theorem OnlyOwn.other (h : OnlyOwn free owner p a b) {i : Nat} {t : τ} (ht : a[i]? = some t)
    (hfree : t ≠ free) (hp : owner t ≠ p) : b[i]? = some t := by
  have hlt : i < b.length := by
    rw [h.length]
    exact (List.getElem?_eq_some_iff.mp ht).1
  obtain ⟨u, hu⟩ : ∃ u, b[i]? = some u := ⟨_, List.getElem?_eq_getElem hlt⟩
  rcases h.slot i t u ht hu with rfl | ⟨h' | h', _⟩
  · exact hu
  · exact absurd h' hfree
  · exact absurd h' hp

/-- And none of them is new. -/
theorem OnlyOwn.mem_other (h : OnlyOwn free owner p a b) {t : τ} (ht : t ∈ b) (hfree : t ≠ free)
    (hp : owner t ≠ p) : t ∈ a := by
  obtain ⟨i, hi⟩ := List.mem_iff_getElem?.mp ht
  have hlt : i < a.length := by
    rw [← h.length]
    exact (List.getElem?_eq_some_iff.mp hi).1
  obtain ⟨u, hu⟩ : ∃ u, a[i]? = some u := ⟨_, List.getElem?_eq_getElem hlt⟩
  rcases h.slot i u t hu hi with rfl | ⟨_, h' | h'⟩
  · exact List.mem_of_getElem? hu
  · exact absurd h' hfree
  · exact absurd h' hp

end Owner

section Counting

variable [DecidableEq ω] {owner : τ → ω} {o : ω} {l : List Nat} {a : List τ}

/-- How many of the slots `l` belong to an owner. -/
def owned (owner : τ → ω) (o : ω) (l : List Nat) (a : List τ) : Nat :=
  l.countP (fun i => a[i]?.any (fun t => owner t = o))

/-- Writing one slot moves the count by what that slot loses and gains. -/
theorem owned_set (owner : τ → ω) (o : ω) (hl : l.Nodup) {j : Nat} {t : τ} (hj : a[j]? = some t) (u : τ) :
    owned owner o l (a.set j u) + (if j ∈ l ∧ owner t = o then 1 else 0) =
      owned owner o l a + (if j ∈ l ∧ owner u = o then 1 else 0) := by
  have hlt : j < a.length := (List.getElem?_eq_some_iff.mp hj).1
  unfold owned
  induction l with
  | nil => simp
  | cons i l ih =>
    obtain ⟨hi, hl⟩ := List.nodup_cons.mp hl
    have ih := ih hl
    rw [List.countP_cons, List.countP_cons]
    by_cases hij : i = j
    · subst hij
      simp only [hi, false_and, if_false, List.mem_cons, true_or, true_and, hj,
        List.getElem?_set_self hlt, Option.any_some, decide_eq_true_eq] at ih ⊢
      omega
    · have hmem : j ∈ i :: l ↔ j ∈ l := by simp [Ne.symm hij]
      rw [List.getElem?_set_ne (Ne.symm hij)]
      simp only [hmem]
      omega

/-- A change by one owner is not seen in the count of another. -/
theorem OnlyOwn.owned_eq {free : τ} {p : ω} {b : List τ} (h : OnlyOwn free owner p a b) (hp : p ≠ o)
    (hfree : owner free ≠ o) (l : List Nat) : owned owner o l b = owned owner o l a := by
  apply List.countP_congr
  intro i _
  by_cases hlt : i < a.length
  · obtain ⟨t, ht⟩ : ∃ t, a[i]? = some t := ⟨_, List.getElem?_eq_getElem hlt⟩
    obtain ⟨u, hu⟩ : ∃ u, b[i]? = some u := ⟨_, List.getElem?_eq_getElem (h.length ▸ hlt)⟩
    have hnot : ∀ v, v = free ∨ owner v = p → owner v ≠ o := by
      rintro v (rfl | hv) he
      · exact hfree he
      · exact hp (hv.symm.trans he)
    rcases h.slot i t u ht hu with rfl | ⟨ht', hu'⟩
    · rw [ht, hu]
    · simp [ht, hu, hnot t ht', hnot u hu']
  · have hlt' : ¬ i < b.length := h.length ▸ hlt
    simp [List.getElem?_eq_none (Nat.not_lt.mp hlt), List.getElem?_eq_none (Nat.not_lt.mp hlt')]

end Counting

section Exclusive

variable (free : τ)

/-- No entry but the free one stands in two slots. -/
def Exclusive (a : List τ) : Prop :=
  ∀ (i j : Nat) (t : τ), a[i]? = some t → a[j]? = some t → t ≠ free → i = j

variable {free} {a : List τ}

theorem Exclusive.of_all_free (h : ∀ t ∈ a, t = free) : Exclusive free a := by
  intro i j t ht _ hfree
  exact absurd (h t (List.mem_of_getElem? ht)) hfree

theorem Exclusive.set (h : Exclusive free a) {j : Nat} {t : τ} (ht : t ∉ a) :
    Exclusive free (a.set j t) := by
  intro i i' u hi hi' hu
  rcases getElem?_set_cases hi with ⟨rfl, rfl⟩ | ⟨_, hi⟩ <;>
    rcases getElem?_set_cases hi' with ⟨hj, he⟩ | ⟨_, hi'⟩
  · exact hj.symm
  · exact absurd (List.mem_of_getElem? hi') ht
  · exact absurd (List.mem_of_getElem? hi) (he ▸ ht)
  · exact h i i' u hi hi' hu

theorem Exclusive.replace [DecidableEq τ] (h : Exclusive free a) (t : τ) : Exclusive free (a.replace t free) := by
  intro i j u hi hj hu
  have hi := (getElem?_replace_cases hi).resolve_right (fun hn => hu hn.2)
  have hj := (getElem?_replace_cases hj).resolve_right (fun hn => hu hn.2)
  exact h i j u hi hj hu

/-- Freeing the first slot of an entry frees its only one. -/
theorem Exclusive.not_mem_replace [DecidableEq τ] (h : Exclusive free a) {t : τ} (ht : t ≠ free) :
    t ∉ a.replace t free := by
  intro hmem
  obtain ⟨i, hi⟩ := List.mem_iff_getElem?.mp hmem
  have hai : a[i]? = some t := (getElem?_replace_cases hi).resolve_right (fun hn => ht hn.2)
  -- the first occurrence is replaced, and `i` is the only one
  induction a generalizing i with
  | nil => simp at hai
  | cons x a ih =>
    rw [List.replace_cons] at hi hmem
    split at hi
    · rename_i hx
      have hx : x = t := (eq_of_beq hx).symm
      have h0 : i = 0 := h i 0 t hai (by simp [hx]) ht
      subst h0
      simp only [List.getElem?_cons_zero, Option.some.injEq] at hi
      exact ht hi.symm
    · rename_i hx
      have htail : Exclusive free a := by
        intro j k u hj hk hu
        have := h (j + 1) (k + 1) u (by simpa using hj) (by simpa using hk) hu
        omega
      cases i with
      | zero =>
        simp only [List.getElem?_cons_zero, Option.some.injEq] at hai
        simp [hai] at hx
      | succ i =>
        simp only [List.getElem?_cons_succ] at hi hai
        exact ih htail (List.mem_of_getElem? hi) i hi hai

end Exclusive

end SlotTable
