import Mathlib.Data.List.Basic

/-!
# Runs of partial steps

A step that has no defined result, such as one that subscripts a sequence out of
range, returns `none`, and a run stops there. Events may be restricted to those
a state admits. The two rules below carry an invariant along every run and turn
"defined exactly on admitted events" into the same statement about whole runs.
-/
namespace PartialStep

variable {α σ ε : Type}

/-- Subscript by an integer: no value outside `0 .. size - 1`. -/
def subscript (v : List α) (i : Int) : Option α := if 0 ≤ i then v[i.toNat]? else none

@[simp] theorem subscript_natCast (v : List α) (i : Nat) : subscript v (i : Int) = v[i]? := by
  simp [subscript]

theorem subscript_eq_some {v : List α} {i : Int} {a : α} (h : subscript v i = some a) :
    0 ≤ i ∧ i.toNat < v.length ∧ v[i.toNat]? = some a := by
  unfold subscript at h
  split_ifs at h with hi
  · exact ⟨hi, (List.getElem?_eq_some_iff.mp h).1, h⟩

theorem subscript_isSome_iff (v : List α) (i : Int) :
    (subscript v i).isSome ↔ 0 ≤ i ∧ i < v.length := by
  unfold subscript
  split_ifs with hi
  · simp only [Option.isSome_iff_exists, List.getElem?_eq_some_iff, hi, true_and]
    constructor
    · rintro ⟨_, hlt, _⟩
      omega
    · intro hlt
      exact ⟨_, by omega, rfl⟩
  · simp [hi]

/-- A loop whose body may be undefined keeps what its body keeps. -/
theorem foldlM_invariant {f : σ → α → Option σ} (P : σ → Prop) (l : List α)
    (hstep : ∀ s a t, a ∈ l → P s → f s a = some t → P t) {s t : σ}
    (hs : P s) (hrun : l.foldlM f s = some t) : P t := by
  induction l generalizing s with
  | nil =>
    simp only [List.foldlM_nil, Option.pure_def, Option.some.injEq] at hrun
    exact hrun ▸ hs
  | cons a l ih =>
    rw [List.foldlM_cons, Option.bind_eq_bind] at hrun
    obtain ⟨u, hu, hrest⟩ := Option.bind_eq_some_iff.mp hrun
    exact ih (fun s b t hb => hstep s b t (List.mem_cons_of_mem a hb))
      (hstep s a u (by simp) hs hu) hrest

/-- Such a loop is defined when its body is, along an invariant. -/
theorem foldlM_isSome {f : σ → α → Option σ} (P : σ → Prop) (l : List α)
    (hstep : ∀ s a, a ∈ l → P s → ∃ t, f s a = some t ∧ P t) {s : σ} (hs : P s) :
    ∃ t, l.foldlM f s = some t ∧ P t := by
  induction l generalizing s with
  | nil => exact ⟨s, rfl, hs⟩
  | cons a l ih =>
    obtain ⟨u, hu, hP⟩ := hstep s a (by simp) hs
    obtain ⟨t, ht, hQ⟩ := ih (fun s b hb => hstep s b (List.mem_cons_of_mem a hb)) hP
    exact ⟨t, by simp [List.foldlM_cons, hu, ht], hQ⟩

/-- The same for a loop over `0 .. n - 1`, with an invariant that may depend on the index. -/
theorem foldlM_range_isSome {f : σ → Nat → Option σ} (P : Nat → σ → Prop) (n : Nat)
    (hstep : ∀ j s, j < n → P j s → ∃ t, f s j = some t ∧ P (j + 1) t) {s : σ} (hs : P 0 s) :
    ∃ t, (List.range n).foldlM f s = some t ∧ P n t := by
  induction n with
  | zero => exact ⟨s, rfl, hs⟩
  | succ n ih =>
    obtain ⟨u, hu, hP⟩ := ih (fun j s hj => hstep j s (by omega))
    obtain ⟨t, ht, hQ⟩ := hstep n u (by omega) hP
    refine ⟨t, ?_, hQ⟩
    simp [List.range_succ, List.foldlM_append, hu, ht]

/-- Assignment to a subscript, undefined outside the sequence as well. -/
def assign (v : List α) (i : Int) (a : α) : Option (List α) :=
  if 0 ≤ i ∧ i < v.length then some (v.set i.toNat a) else none

theorem assign_isSome_iff (v : List α) (i : Int) (a : α) : (assign v i a).isSome ↔ 0 ≤ i ∧ i < v.length := by
  unfold assign
  split_ifs with hi
  · simp [hi]
  · simpa using hi

theorem length_assign {v w : List α} {i : Int} {a : α} (h : assign v i a = some w) : w.length = v.length := by
  unfold assign at h
  split_ifs at h with hi
  cases h
  exact List.length_set

theorem subscript_assign {v w : List α} {i : Int} {a : α} (h : assign v i a = some w) (j : Int) :
    subscript w j = if j = i then some a else subscript v j := by
  unfold assign at h
  split_ifs at h with hi
  cases h
  have hlt : i.toNat < v.length := by omega
  by_cases hj : j = i
  · subst hj
    simp [subscript, hi.1, hlt]
  · rw [if_neg hj]
    unfold subscript
    split_ifs with h0
    · rw [List.getElem?_set_ne (by omega)]
    · rfl

/-- Assignments one after the other, each to a subscript of its own. -/
def assignAll (v : List α) (ws : List (Int × α)) : Option (List α) :=
  ws.foldlM (fun v w => assign v w.1 w.2) v

theorem assignAll_cons (v : List α) (w : Int × α) (ws : List (Int × α)) :
    assignAll v (w :: ws) = (assign v w.1 w.2).bind (fun u => assignAll u ws) := rfl

theorem assignAll_append (v : List α) (ws us : List (Int × α)) :
    assignAll v (ws ++ us) = (assignAll v ws).bind (fun u => assignAll u us) := List.foldlM_append

theorem assignAll_isSome_iff (v : List α) (ws : List (Int × α)) :
    (assignAll v ws).isSome ↔ ∀ w ∈ ws, 0 ≤ w.1 ∧ w.1 < v.length := by
  induction ws generalizing v with
  | nil => simp [assignAll]
  | cons w ws ih =>
    rw [assignAll_cons, List.forall_mem_cons, ← assign_isSome_iff v w.1 w.2]
    cases h : assign v w.1 w.2 with
    | none => simp
    | some u => simp [ih, length_assign h]

theorem length_assignAll {v u : List α} {ws : List (Int × α)} (h : assignAll v ws = some u) :
    u.length = v.length :=
  foldlM_invariant (fun u => u.length = v.length) ws
    (fun _ _ _ _ hlength hstep => (length_assign hstep).trans hlength) rfl h

/-- A subscript that is not assigned to keeps its value. -/
theorem assignAll_frame {v u : List α} {ws : List (Int × α)} {i : Int} (h : assignAll v ws = some u)
    (hi : ∀ w ∈ ws, w.1 ≠ i) : subscript u i = subscript v i := by
  refine foldlM_invariant (fun u => subscript u i = subscript v i) ws ?_ rfl h
  intro u w t hw hkept hstep
  rw [subscript_assign hstep, if_neg (Ne.symm (hi w hw)), hkept]

/-- One that is assigned to ends with a value it was assigned. -/
theorem assignAll_value {v u : List α} {ws : List (Int × α)} {i : Int} (h : assignAll v ws = some u)
    (hi : ∃ w ∈ ws, w.1 = i) : ∃ w ∈ ws, w.1 = i ∧ subscript u i = some w.2 := by
  induction ws generalizing v with
  | nil =>
    obtain ⟨w, hw, -⟩ := hi
    cases hw
  | cons w ws ih =>
    rw [assignAll_cons] at h
    obtain ⟨t, hw, hrest⟩ := Option.bind_eq_some_iff.mp h
    by_cases hlater : ∃ w ∈ ws, w.1 = i
    · obtain ⟨w', hmem, hw'⟩ := ih hrest hlater
      exact ⟨w', List.mem_cons_of_mem w hmem, hw'⟩
    · have hwi : w.1 = i := by
        obtain ⟨w', hmem, hw'⟩ := hi
        rcases List.mem_cons.mp hmem with rfl | hmem
        · exact hw'
        · exact absurd ⟨w', hmem, hw'⟩ hlater
      have hkept := assignAll_frame hrest (i := i) (fun w' hmem hw' => hlater ⟨w', hmem, hw'⟩)
      refine ⟨w, List.mem_cons_self, hwi, ?_⟩
      rw [hkept, subscript_assign hw, if_pos hwi.symm]

/-- Deliver a list of events, stopping where a step is undefined. -/
def run (step : σ → ε → Option σ) : σ → List ε → Option σ
  | s, [] => some s
  | s, e :: es => (step s e).bind (fun t => run step t es)

@[simp] theorem run_nil (step : σ → ε → Option σ) (s : σ) : run step s [] = some s := rfl

@[simp] theorem run_cons (step : σ → ε → Option σ) (s : σ) (e : ε) (es : List ε) :
    run step s (e :: es) = (step s e).bind (fun t => run step t es) := rfl

theorem run_append (step : σ → ε → Option σ) (s : σ) (es fs : List ε) :
    run step s (es ++ fs) = (run step s es).bind (fun t => run step t fs) := by
  induction es generalizing s with
  | nil => simp
  | cons e es ih =>
    simp only [List.cons_append, run_cons, Option.bind_assoc]
    congr 1
    funext t
    exact ih t

/-- A run that gets past its last event has a state before it and one after it. -/
theorem exists_run_step {step : σ → ε → Option σ} {s : σ} {es : List ε} {e : ε}
    (h : (run step s (es ++ [e])).isSome) : ∃ t u, run step s es = some t ∧ step t e = some u := by
  obtain ⟨u, hu⟩ := Option.isSome_iff_exists.mp h
  rw [run_append] at hu
  obtain ⟨t, ht, hu⟩ := Option.bind_eq_some_iff.mp hu
  rw [run_cons] at hu
  obtain ⟨v, hv, -⟩ := Option.bind_eq_some_iff.mp hu
  exact ⟨t, v, ht, hv⟩

/-- Each event is one the state it meets admits. -/
def Admitted (step : σ → ε → Option σ) (ok : σ → ε → Prop) : σ → List ε → Prop
  | _, [] => True
  | s, e :: es => ok s e ∧ ∀ t, step s e = some t → Admitted step ok t es

theorem admitted_true (step : σ → ε → Option σ) (s : σ) (es : List ε) :
    Admitted step (fun _ _ => True) s es := by
  induction es generalizing s with
  | nil => trivial
  | cons e es ih => exact ⟨trivial, fun t _ => ih t⟩

theorem admitted_cons {step : σ → ε → Option σ} {ok : σ → ε → Prop} {s t : σ} {e : ε} {es : List ε} (hok : ok s e)
    (hstep : step s e = some t) (h : Admitted step ok t es) : Admitted step ok s (e :: es) := by
  refine ⟨hok, fun u hu => ?_⟩
  obtain rfl : t = u := Option.some.inj (hstep.symm.trans hu)
  exact h

/-- Events that are admitted everywhere. -/
theorem admitted_of_forall (step : σ → ε → Option σ) {ok : ε → Prop} (s : σ) {es : List ε} (h : ∀ e ∈ es, ok e) :
    Admitted step (fun _ e => ok e) s es := by
  induction es generalizing s with
  | nil => trivial
  | cons e es ih => exact ⟨h e List.mem_cons_self, fun t _ => ih t fun e' he' => h e' (List.mem_cons_of_mem _ he')⟩

theorem Admitted.and {step : σ → ε → Option σ} {ok ok' : σ → ε → Prop} {s : σ} {es : List ε}
    (h : Admitted step ok s es) (h' : Admitted step ok' s es) :
    Admitted step (fun s e => ok s e ∧ ok' s e) s es := by
  induction es generalizing s with
  | nil => trivial
  | cons e es ih => exact ⟨⟨h.1, h'.1⟩, fun t ht => ih (h.2 t ht) (h'.2 t ht)⟩

/-- One way to say which events are admitted implies another along an invariant of the first. -/
theorem Admitted.imp {step : σ → ε → Option σ} {ok ok' : σ → ε → Prop} (P : σ → Prop)
    (hstep : ∀ s e t, P s → ok s e → step s e = some t → P t)
    (himp : ∀ s e, P s → ok s e → ok' s e)
    {s : σ} {es : List ε} (hs : P s) (h : Admitted step ok s es) : Admitted step ok' s es := by
  induction es generalizing s with
  | nil => trivial
  | cons e es ih => exact ⟨himp s e hs h.1, fun t ht => ih (hstep s e t hs h.1 ht) (h.2 t ht)⟩

theorem Admitted.of_append {step : σ → ε → Option σ} {ok : σ → ε → Prop} {s : σ} {es fs : List ε}
    (h : Admitted step ok s (es ++ fs)) : Admitted step ok s es := by
  induction es generalizing s with
  | nil => trivial
  | cons e es ih => exact ⟨h.1, fun t ht => ih (h.2 t ht)⟩

/-- What admitted steps preserve holds in every state a run of them reaches. -/
theorem run_invariant {step : σ → ε → Option σ} {ok : σ → ε → Prop} (P : σ → Prop)
    (hstep : ∀ s e t, P s → ok s e → step s e = some t → P t)
    {s t : σ} {es : List ε} (hs : P s) (hok : Admitted step ok s es)
    (hrun : run step s es = some t) : P t := by
  induction es generalizing s with
  | nil =>
    simp only [run_nil, Option.some.injEq] at hrun
    exact hrun ▸ hs
  | cons e es ih =>
    rw [run_cons] at hrun
    obtain ⟨u, hu, hrest⟩ := Option.bind_eq_some_iff.mp hrun
    exact ih (hstep s e u hs hok.1 hu) (hok.2 u hu) hrest

/-- If the first event that is not admitted spoils the state for good, the state after a run tells whether all of them
were. -/
theorem admitted_or_spoilt {step : σ → ε → Option σ} {adm ok : σ → ε → Prop} (Good Spoilt : σ → Prop)
    (hgood : ∀ s e t, Good s → adm s e → ok s e → step s e = some t → Good t)
    (hspoil : ∀ s e t, Good s → adm s e → ¬ ok s e → step s e = some t → Spoilt t)
    (hkeep : ∀ s e t, Spoilt s → adm s e → step s e = some t → Spoilt t)
    {s t : σ} {es : List ε} (hs : Good s) (hadm : Admitted step adm s es) (hrun : run step s es = some t) :
    Admitted step ok s es ∧ Good t ∨ ¬ Admitted step ok s es ∧ Spoilt t := by
  induction es generalizing s with
  | nil =>
    cases hrun
    exact .inl ⟨trivial, hs⟩
  | cons e es ih =>
    rw [run_cons] at hrun
    obtain ⟨u, hu, hrest⟩ := Option.bind_eq_some_iff.mp hrun
    by_cases hok : ok s e
    · rcases ih (hgood s e u hs hadm.1 hok hu) (hadm.2 u hu) hrest with ⟨hall, ht⟩ | ⟨hnot, ht⟩
      · refine .inl ⟨⟨hok, fun v hv => ?_⟩, ht⟩
        obtain rfl : u = v := Option.some.inj (hu.symm.trans hv)
        exact hall
      · exact .inr ⟨fun hall => hnot (hall.2 u hu), ht⟩
    · have hspoilt := hspoil s e u hs hadm.1 hok hu
      exact .inr ⟨fun hall => hok hall.1, run_invariant Spoilt hkeep hspoilt (hadm.2 u hu) hrest⟩

/-- Two ways to say which events are admitted agree on a defined run if they agree step by step,
along an invariant the admitted steps keep. -/
theorem admitted_congr {step : σ → ε → Option σ} {ok ok' : σ → ε → Prop} (P : σ → Prop)
    (hstep : ∀ s e t, P s → ok s e → step s e = some t → P t)
    (hiff : ∀ s e t, P s → step s e = some t → (ok s e ↔ ok' s e))
    {s : σ} {es : List ε} (hs : P s) (hdef : (run step s es).isSome) :
    Admitted step ok s es ↔ Admitted step ok' s es := by
  induction es generalizing s with
  | nil => exact Iff.rfl
  | cons e es ih =>
    rw [run_cons] at hdef
    cases h : step s e with
    | none => simp [h] at hdef
    | some t =>
      rw [h, Option.bind_some] at hdef
      have hhead := hiff s e t hs h
      constructor
      · rintro ⟨hok, hrest⟩
        refine ⟨hhead.mp hok, fun u hu => ?_⟩
        obtain rfl : t = u := Option.some.inj (h.symm.trans hu)
        exact (ih (hstep s e t hs hok h) hdef).mp (hrest t h)
      · rintro ⟨hok', hrest⟩
        have hok := hhead.mpr hok'
        refine ⟨hok, fun u hu => ?_⟩
        obtain rfl : t = u := Option.some.inj (h.symm.trans hu)
        exact (ih (hstep s e t hs hok h) hdef).mpr (hrest t h)

/-- A property holds in every state of a run. -/
def Throughout (step : σ → ε → Option σ) (P : σ → Prop) : σ → List ε → Prop
  | s, [] => P s
  | s, e :: es => P s ∧ ∀ t, step s e = some t → Throughout step P t es

/-- Steps add to the front of a log. If a step keeps a property exactly when all it adds is fine, the
property holds throughout a run exactly when all the run adds is fine. -/
theorem run_throughout_iff {step : σ → ε → Option σ} (log : σ → List α) (P : σ → Prop) (fine : α → Prop)
    (I : σ → Prop)
    (hstep : ∀ s e, I s → ∃ t new, step s e = some t ∧ I t ∧ log t = new ++ log s ∧
      (P s → (P t ↔ ∀ a ∈ new, fine a)))
    {s : σ} (es : List ε) (hs : I s) :
    ∃ t new, run step s es = some t ∧ log t = new ++ log s ∧
      (P s → (Throughout step P s es ↔ ∀ a ∈ new, fine a)) := by
  induction es generalizing s with
  | nil => exact ⟨s, [], rfl, rfl, fun hP => by simp [Throughout, hP]⟩
  | cons e es ih =>
    obtain ⟨u, now, hu, hIu, hlog, hiff⟩ := hstep s e hs
    obtain ⟨t, later, hrun, hlog', hiff'⟩ := ih hIu
    refine ⟨t, later ++ now, ?_, by rw [hlog', hlog, List.append_assoc], ?_⟩
    · rw [run_cons, hu, Option.bind_some, hrun]
    intro hP
    have hhead : Throughout step P s (e :: es) ↔ Throughout step P u es := by
      simp [Throughout, hP, hu]
    rw [hhead, List.forall_mem_append]
    constructor
    · intro h
      have hPu : P u := by
        cases es with
        | nil => exact h
        | cons e' es => exact h.1
      exact ⟨(hiff' hPu).mp h, (hiff hP).mp hPu⟩
    · rintro ⟨hlater, hnow⟩
      exact (hiff' ((hiff hP).mpr hnow)).mpr hlater

/-- If along an invariant a step is defined exactly on admitted events, a run is
defined exactly when all its events are admitted. -/
theorem run_isSome_iff {step : σ → ε → Option σ} {ok : σ → ε → Prop} (P : σ → Prop)
    (hstep : ∀ s e t, P s → step s e = some t → P t)
    (hdef : ∀ s e, P s → ((step s e).isSome ↔ ok s e))
    {s : σ} (es : List ε) (hs : P s) :
    (run step s es).isSome ↔ Admitted step ok s es := by
  induction es generalizing s with
  | nil => simp [Admitted]
  | cons e es ih =>
    simp only [run_cons, Admitted, ← hdef s e hs]
    cases h : step s e with
    | none => simp
    | some t => simpa using ih (hstep s e t hs h)

end PartialStep
