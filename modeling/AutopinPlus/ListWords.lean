import Mathlib.Data.List.Basic

/-!
# The words of a list

Some elements of a list separate others, and the words are the maximal runs of the
others. Cutting at a separator cuts the words in two; this equation and the one for a
run decide how a loop that goes from word to word adds up.
-/
namespace ListWords

variable {α β : Type} {p : α → Bool}

def words (p : α → Bool) (l : List α) : List (List α) := (l.splitOnP p).filter (fun w => !w.isEmpty)

@[simp] theorem words_nil : words p [] = [] := by simp [words, List.splitOnP_nil]

theorem words_append_cons (x y : List α) {c : α} (hc : p c = true) :
    words p (x ++ c :: y) = words p x ++ words p y := by
  simp [words, List.splitOnP_append_cons x y hc]

theorem words_cons (l : List α) {c : α} (hc : p c = true) : words p (c :: l) = words p l := by
  simpa using words_append_cons [] l hc

/-- A run without separators is one word. -/
theorem words_run {w : List α} (hne : w ≠ []) (hw : ∀ c ∈ w, p c = false) : words p w = [w] := by
  simp [words, List.splitOnP_eq_singleton hw, hne]

theorem words_run_append {w l : List α} (hne : w ≠ []) (hw : ∀ c ∈ w, p c = false)
    (hl : ∀ c, l.head? = some c → p c = true) : words p (w ++ l) = w :: words p l := by
  cases l with
  | nil => simp [words_run hne hw]
  | cons c l =>
    have hc : p c = true := hl c rfl
    rw [words_append_cons w l hc, words_run hne hw, words_cons l hc, List.singleton_append]

theorem words_separators {s : List α} (hs : ∀ c ∈ s, p c = true) : words p s = [] := by
  induction s with
  | nil => exact words_nil
  | cons c s ih =>
    rw [words_cons s (hs c List.mem_cons_self)]
    exact ih (fun d hd => hs d (List.mem_cons_of_mem c hd))

/-- Separators at the front belong to no word. -/
theorem words_separators_append {s : List α} (l : List α) (hs : ∀ c ∈ s, p c = true) :
    words p (s ++ l) = words p l := by
  induction s with
  | nil => rfl
  | cons c s ih =>
    rw [List.cons_append, words_cons (s ++ l) (hs c List.mem_cons_self)]
    exact ih (fun d hd => hs d (List.mem_cons_of_mem c hd))

theorem words_append_separators (l : List α) {s : List α} (hs : ∀ c ∈ s, p c = true) :
    words p (l ++ s) = words p l := by
  cases s with
  | nil => rw [List.append_nil]
  | cons c s =>
    rw [words_append_cons l s (hs c List.mem_cons_self),
      words_separators (fun d hd => hs d (List.mem_cons_of_mem c hd)), List.append_nil]

/-- Every list is a run without separators and a rest that starts with one. -/
theorem exists_run (p : α → Bool) (l : List α) :
    ∃ w rest, l = w ++ rest ∧ (∀ c ∈ w, p c = false) ∧ ∀ c, rest.head? = some c → p c = true := by
  refine ⟨l.takeWhile (fun c => !p c), l.dropWhile (fun c => !p c),
    List.takeWhile_append_dropWhile.symm, ?_, ?_⟩
  · intro c hc
    simpa using List.all_eq_true.mp List.all_takeWhile c hc
  · intro c hc
    have := List.head?_dropWhile_not (fun c => !p c) l
    rw [hc] at this
    simpa using this

/-- The words hold all that is no separator. -/
theorem flatten_words (l : List α) : (words p l).flatten = l.filter (fun c => !p c) := by
  induction l with
  | nil => simp
  | cons c l ih =>
    cases hc : p c with
    | true => rw [words_cons l hc, ih, List.filter_cons_of_neg (by simp [hc])]
    | false =>
      obtain ⟨w, rest, rfl, hw, hrest⟩ := exists_run p l
      have hw' : ∀ d ∈ c :: w, p d = false := by simpa [hc] using hw
      have hkept : (c :: w).filter (fun d => !p d) = c :: w :=
        List.filter_eq_self.mpr (fun d hd => by simp [hw' d hd])
      have hone := words_run_append (List.cons_ne_nil c w) hw' hrest
      cases w with
      | nil =>
        rw [List.nil_append] at ih
        rw [← List.cons_append, hone, List.flatten_cons, ih, ← hkept, ← List.filter_append, hkept]
      | cons d w =>
        have htail := words_run_append (List.cons_ne_nil d w) hw hrest
        have hrest' : (words p rest).flatten = rest.filter (fun c => !p c) := by
          rw [htail, List.flatten_cons, List.filter_append,
            List.filter_eq_self.mpr (fun e he => by simp [hw e he])] at ih
          exact List.append_cancel_left ih
        rw [← List.cons_append, hone, List.flatten_cons, hrest', List.filter_append, hkept]

/-- What follows adds nothing to the words exactly if it is separators only. -/
theorem words_append_eq_iff (l s : List α) : words p (l ++ s) = words p l ↔ ∀ c ∈ s, p c = true := by
  constructor
  · intro h c hc
    have hflat := congrArg List.flatten h
    rw [flatten_words, flatten_words, List.filter_append, List.append_right_eq_self,
      List.filter_eq_nil_iff] at hflat
    simpa using hflat c hc
  · exact words_append_separators l

theorem mem_words {l w : List α} (h : w ∈ words p l) : w ≠ [] := by
  have := (List.mem_filter.mp h).2
  simpa using this

/-- Words are found again where every element is replaced by a text: a separator by one separator, and any
other element by a run. -/
theorem words_flatMap {q : β → Bool} {f : α → List β} (hsep : ∀ c, p c = true → ∃ d, f c = [d] ∧ q d = true)
    (hrun : ∀ c, p c = false → f c ≠ [] ∧ ∀ d ∈ f c, q d = false) (l : List α) :
    words q (l.flatMap f) = (words p l).map (fun w => w.flatMap f) := by
  induction hn : l.length using Nat.strongRecOn generalizing l with
  | ind n ih =>
    obtain ⟨w, rest, rfl, hw, hrest⟩ := exists_run p l
    have hnext : words q (rest.flatMap f) = (words p rest).map (fun w => w.flatMap f) ∧
        ∀ d, (rest.flatMap f).head? = some d → q d = true := by
      cases rest with
      | nil => simp
      | cons c rest =>
        have hc := hrest c rfl
        obtain ⟨d, hd, hq⟩ := hsep c hc
        rw [List.flatMap_cons, hd, List.singleton_append, words_cons _ hq, words_cons _ hc]
        refine ⟨ih rest.length ?_ rest rfl, ?_⟩
        · rw [← hn, List.length_append, List.length_cons]
          omega
        · intro e he
          exact Option.some.inj he ▸ hq
    cases w with
    | nil => exact hnext.1
    | cons c w =>
      have hrun' : ∀ d ∈ (c :: w).flatMap f, q d = false := by
        intro d hd
        obtain ⟨e, he, hd⟩ := List.mem_flatMap.mp hd
        exact (hrun e (hw e he)).2 d hd
      have hne : (c :: w).flatMap f ≠ [] := by
        rw [List.flatMap_cons]
        exact List.append_ne_nil_of_left_ne_nil (hrun c (hw c List.mem_cons_self)).1 _
      rw [List.flatMap_append, words_run_append hne hrun' hnext.2, hnext.1,
        words_run_append (List.cons_ne_nil c w) hw hrest, List.map_cons]

/-! ## Words that are joined again -/

theorem words_intercalate [BEq α] [LawfulBEq α] {c : α} {ws : List (List α)} (hne : ∀ w ∈ ws, w ≠ [])
    (hw : ∀ w ∈ ws, c ∉ w) : words (· == c) ([c].intercalate ws) = ws := by
  induction ws with
  | nil => exact words_nil
  | cons w ws ih =>
    have hrun : ∀ d ∈ w, (d == c) = false := by
      intro d hd
      exact beq_false_of_ne (fun he => hw w List.mem_cons_self (he ▸ hd))
    have hfirst := words_run (p := (· == c)) (hne w List.mem_cons_self) hrun
    cases ws with
    | nil => simpa [List.intercalate] using hfirst
    | cons v ws =>
      have hrest := ih (fun v hv => hne v (List.mem_cons_of_mem w hv)) (fun v hv => hw v (List.mem_cons_of_mem w hv))
      rw [List.intercalate_cons_cons, List.append_assoc, List.singleton_append,
        words_append_cons (p := (· == c)) w _ (beq_self_eq_true c), hfirst, hrest, List.singleton_append]

/-- A joined text holds nothing but the parts and the separator. -/
theorem mem_intercalate {c a : α} {ws : List (List α)} (h : a ∈ [c].intercalate ws) : a = c ∨ ∃ w ∈ ws, a ∈ w := by
  induction ws with
  | nil => simp [List.intercalate] at h
  | cons w ws ih =>
    cases ws with
    | nil =>
      rw [List.intercalate_singleton] at h
      exact .inr ⟨w, List.mem_cons_self, h⟩
    | cons v ws =>
      rw [List.intercalate_cons_cons, List.append_assoc, List.singleton_append, List.mem_append, List.mem_cons] at h
      rcases h with h | rfl | h
      · exact .inr ⟨w, List.mem_cons_self, h⟩
      · exact .inl rfl
      · exact (ih h).imp id (fun ⟨x, hx, ha⟩ => ⟨x, List.mem_cons_of_mem w hx, ha⟩)

/-- A text without the separator is found in a joined text exactly if it is found in one of the parts. -/
theorem infix_append_cons_iff {c : α} {x a b : List α} (hx : c ∉ x) :
    x <:+: a ++ c :: b ↔ x <:+: a ∨ x <:+: b := by
  have hstart : ∀ y : List α, c ∉ y → y <+: c :: b → y = [] := by
    rintro (_ | ⟨d, y⟩) hy h
    · rfl
    · rw [List.cons_prefix_cons] at h
      exact absurd (h.1 ▸ List.mem_cons_self) hy
  constructor
  · intro h
    rcases List.infix_append_iff.mp h with h | h | ⟨y, z, rfl, hy, hz⟩
    · exact .inl h
    · rcases List.infix_cons_iff.mp h with h | h
      · rw [hstart x hx h]
        exact .inl List.nil_infix
      · exact .inr h
    · rw [hstart z (fun hc => hx (List.mem_append_right y hc)) hz, List.append_nil]
      exact .inl hy.isInfix
  · rintro (h | h)
    · exact List.infix_append_of_infix_left h
    · exact List.infix_append_of_infix_right (List.infix_cons h)

theorem infix_intercalate_iff {c : α} {x : List α} (hne : x ≠ []) (hx : c ∉ x) (ws : List (List α)) :
    x <:+: [c].intercalate ws ↔ ∃ w ∈ ws, x <:+: w := by
  induction ws with
  | nil => simp [List.intercalate, hne]
  | cons w ws ih =>
    cases ws with
    | nil => simp [List.intercalate]
    | cons v ws =>
      rw [List.intercalate_cons_cons, List.append_assoc, List.singleton_append, infix_append_cons_iff hx, ih,
        List.exists_mem_cons_iff (a := w)]

end ListWords
