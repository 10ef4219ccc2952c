import Mathlib.Data.List.Basic

/-!
# Folds whose steps have a key

A state holds a value for every key, and a step changes the value of its own key only,
by an action that sees no other value. What a fold makes of the value of one key is then
decided by the steps of this key and their order, whatever stands between them.
-/
namespace KeyedFold

variable {State Step Key Value : Type}

/-- A step without a key changes no value. -/
structure Keyed (step : State → Step → State) (get : State → Key → Value) (key : Step → Option Key)
    (act : Value → Step → Value) : Prop where
  own : ∀ s l k, key l = some k → get (step s l) k = act (get s k) l
  other : ∀ s l k, key l ≠ some k → get (step s l) k = get s k

variable {step : State → Step → State} {get : State → Key → Value} {key : Step → Option Key}
  {act : Value → Step → Value} [DecidableEq Key]

def stepsOf (key : Step → Option Key) (k : Key) (ls : List Step) : List Step := ls.filter (fun l => key l = some k)

@[simp] theorem stepsOf_append (k : Key) (ls ls' : List Step) :
    stepsOf key k (ls ++ ls') = stepsOf key k ls ++ stepsOf key k ls' := List.filter_append ls ls'

theorem stepsOf_cons_own {l : Step} {k : Key} (h : key l = some k) (ls : List Step) :
    stepsOf key k (l :: ls) = l :: stepsOf key k ls := List.filter_cons_of_pos (by simp [h])

theorem stepsOf_cons_other {l : Step} {k : Key} (h : key l ≠ some k) (ls : List Step) :
    stepsOf key k (l :: ls) = stepsOf key k ls := List.filter_cons_of_neg (by simp [h])

/-- The value of a key is folded over the steps of the key. -/
theorem Keyed.get_foldl (h : Keyed step get key act) (ls : List Step) (s : State) (k : Key) :
    get (ls.foldl step s) k = (stepsOf key k ls).foldl act (get s k) := by
  induction ls generalizing s with
  | nil => rfl
  | cons l ls ih =>
    rw [List.foldl_cons, ih (step s l)]
    by_cases hk : key l = some k
    · rw [h.own s l k hk, stepsOf_cons_own hk, List.foldl_cons]
    · rw [h.other s l k hk, stepsOf_cons_other hk]

/-- Two neighbours with different keys can change places. -/
theorem stepsOf_swap {l m : Step} (hlm : key l ≠ key m) (k : Key) (ls ls' : List Step) :
    stepsOf key k (ls ++ l :: m :: ls') = stepsOf key k (ls ++ m :: l :: ls') := by
  rw [stepsOf_append, stepsOf_append]
  by_cases hl : key l = some k
  · have hm : key m ≠ some k := fun hm => hlm (hl.trans hm.symm)
    rw [stepsOf_cons_own hl, stepsOf_cons_other hm, stepsOf_cons_other hm, stepsOf_cons_own hl]
  · rw [stepsOf_cons_other hl]
    by_cases hm : key m = some k
    · rw [stepsOf_cons_own hm, stepsOf_cons_own hm, stepsOf_cons_other hl]
    · rw [stepsOf_cons_other hm, stepsOf_cons_other hm, stepsOf_cons_other hl]

/-- A step of another key can be left out. -/
theorem stepsOf_insert {l : Step} {k : Key} (hl : key l ≠ some k) (ls ls' : List Step) :
    stepsOf key k (ls ++ l :: ls') = stepsOf key k (ls ++ ls') := by
  rw [stepsOf_append, stepsOf_append, stepsOf_cons_other hl]

end KeyedFold
