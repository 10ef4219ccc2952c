import Mathlib.Data.List.Infix
import AutopinPlus.Configuration
import AutopinPlus.ListWords

/-!
# One line of a configuration text

A line of a configuration is a statement about one option, or it has no operator. The
operators are looked for in a fixed order anywhere in the line, so a value can hide the
operator that was meant.
-/
namespace AutopinPlus

namespace QString

theorem split_eq_words (sep : Char) (l : List Char) : split sep l = ListWords.words (· == sep) l := rfl

theorem mem_dropWhile {c : Char} {l : List Char} (h : c ∈ l) (hc : isSpace c = false) : c ∈ l.dropWhile isSpace := by
  rw [← List.takeWhile_append_dropWhile (p := isSpace) (l := l), List.mem_append] at h
  rcases h with h | h
  · have := List.all_eq_true.mp List.all_takeWhile c h
    simp [hc] at this
  · exact h

theorem mem_trimmed {c : Char} {l : List Char} (h : c ∈ l) (hc : isSpace c = false) : c ∈ trimmed l := by
  have hfront := mem_dropWhile h hc
  exact List.mem_reverse.mpr (mem_dropWhile (List.mem_reverse.mpr hfront) hc)

theorem trimmed_append_space {c : Char} (l : List Char) (hc : isSpace c = true) : trimmed (l ++ [c]) = trimmed l := by
  unfold trimmed
  rw [List.dropWhile_append]
  split
  · next h =>
    rw [List.isEmpty_iff.mp h]
    simp [hc]
  · simp [hc]

@[simp] theorem cut_nil {sep : List Char} : cut sep [] = none := rfl

theorem cut_self {sep : List Char} (hne : sep ≠ []) (b : List Char) : cut sep (sep ++ b) = some ([], b) := by
  cases sep with
  | nil => exact absurd rfl hne
  | cons c sep =>
    have hpos : (c :: sep).isPrefixOf (c :: (sep ++ b)) = true := List.isPrefixOf_iff_prefix.mpr ⟨b, rfl⟩
    rw [List.cons_append, cut, if_pos hpos]
    simp

theorem cut_cons {sep : List Char} {c : Char} {l : List Char} (h : ¬ sep <+: c :: l) :
    cut sep (c :: l) = (cut sep l).map (fun p => (c :: p.1, p.2)) := by
  rw [cut, if_neg (fun hp => h (List.isPrefixOf_iff_prefix.mp hp))]

/-- A text in which no occurrence starts is left of the first one. -/
theorem cut_append {sep a : List Char} (b : List Char) (h : ∀ t, t ≠ [] → t <:+ a → ¬ sep <+: t ++ b) :
    cut sep (a ++ b) = (cut sep b).map (fun p => (a ++ p.1, p.2)) := by
  induction a with
  | nil => simp
  | cons c a ih =>
    have hrest := ih (fun t ht hs => h t ht (hs.trans (List.suffix_cons c a)))
    have hc := h (c :: a) (List.cons_ne_nil c a) List.suffix_rfl
    rw [List.cons_append] at hc ⊢
    rw [cut_cons hc, hrest, Option.map_map]
    rfl

theorem cut_append_of_not_mem {c : Char} {sep a : List Char} (b : List Char) (h : c ∉ a) :
    cut (c :: sep) (a ++ b) = (cut (c :: sep) b).map (fun p => (a ++ p.1, p.2)) := by
  apply cut_append
  intro t hne hs hp
  cases t with
  | nil => exact hne rfl
  | cons d t =>
    rw [List.cons_append, List.cons_prefix_cons] at hp
    exact h (hp.1 ▸ hs.subset List.mem_cons_self)

/-- The text is found exactly if it is cut out. -/
theorem cut_eq_none_iff {sep : List Char} (hne : sep ≠ []) (l : List Char) : cut sep l = none ↔ ¬ sep <:+: l := by
  induction l with
  | nil => simp [hne]
  | cons c l ih =>
    rw [List.infix_cons_iff, not_or]
    by_cases h : sep <+: c :: l
    · obtain ⟨b, hb⟩ := h
      rw [← hb, cut_self hne b]
      simp
    · rw [cut_cons h, Option.map_eq_none_iff, ih]
      exact ⟨fun hl => ⟨h, hl⟩, And.right⟩

end QString

namespace StandardConfiguration

open QString

inductive Operator where
  | add | del | set
  deriving DecidableEq, Repr

/-- A `+` or a `-`, or nothing. -/
def Operator.sign : Operator → List Char
  | .add => ['+']
  | .del => ['-']
  | .set => []

def Operator.text (op : Operator) : List Char := op.sign ++ ['=']

theorem Operator.text_ne_nil (op : Operator) : op.text ≠ [] := by simp [Operator.text]

theorem Operator.text_add : "+=".toList = Operator.add.text := rfl
theorem Operator.text_del : "-=".toList = Operator.del.text := rfl
theorem Operator.text_set : "=".toList = Operator.set.text := rfl

structure Statement where
  op : Operator
  name : String
  values : List String
  deriving DecidableEq, Repr

def Statement.ofPair (op : Operator) (opt : String × List String) : Statement := ⟨op, opt.1, opt.2⟩

/-- What `getArgs` makes of a line, before it is carried out. -/
def readStatement (line : List Char) : Option Statement :=
  match cut Operator.add.text line with
  | some p => some (.ofPair .add (argPair p))
  | none =>
    match cut Operator.del.text line with
    | some p => some (.ofPair .del (argPair p))
    | none => (cut Operator.set.text line).map fun p => .ofPair .set (argPair p)

/-- What a statement makes of the values of its option. Without values it says nothing. -/
def Statement.apply (values : List String) (st : Statement) : List String :=
  if st.values.isEmpty then values
  else
    match st.op with
    | .set => st.values
    | .add => removeDuplicates (values ++ st.values)
    | .del => values.filter (· ∉ st.values)

def Statement.execute (st : Statement) (c : StandardConfiguration) : StandardConfiguration :=
  match st.op with
  | .add => addOption (st.name, st.values) c
  | .del => delOption (st.name, st.values) c
  | .set => setOption (st.name, st.values) c

theorem getArgs_of_statement {line : List Char} {st : Statement} (h : readStatement line = some st)
    (c : StandardConfiguration) : getArgs line c = st.execute c := by
  unfold readStatement at h
  unfold getArgs
  rw [Operator.text_add, Operator.text_del, Operator.text_set]
  cases hadd : cut Operator.add.text line with
  | some p =>
    simp only [hadd, Option.some.injEq] at h ⊢
    subst h
    rfl
  | none =>
    cases hdel : cut Operator.del.text line with
    | some p =>
      simp only [hadd, hdel, Option.some.injEq] at h ⊢
      subst h
      rfl
    | none =>
      simp only [hadd, hdel] at h ⊢
      obtain ⟨p, hset, rfl⟩ := Option.map_eq_some_iff.mp h
      simp only [hset]
      rfl

theorem getArgs_of_none {line : List Char} (h : readStatement line = none) (c : StandardConfiguration) :
    getArgs line c =
      { c with
        context := c.context.report .badConfig "option_format"
          ("Invalid option format: \"" ++ String.ofList line ++ "\"") } := by
  unfold readStatement at h
  unfold getArgs
  rw [Operator.text_add, Operator.text_del, Operator.text_set]
  cases hadd : cut Operator.add.text line with
  | some p => simp [hadd] at h
  | none =>
    cases hdel : cut Operator.del.text line with
    | some p => simp [hadd, hdel] at h
    | none =>
      simp only [hadd, hdel] at h ⊢
      simp only [Option.map_eq_none_iff.mp h]

theorem getArgs_options_of_none {line : List Char} (h : readStatement line = none) (c : StandardConfiguration) :
    (getArgs line c).options = c.options ∧ (getArgs line c).context.isError = true := by
  rw [getArgs_of_none h]
  exact ⟨rfl, by simp [setsError]⟩

theorem foldl_filter_ne (values list : List String) :
    values.foldl (fun l v => l.filter (· ≠ v)) list = list.filter (· ∉ values) := by
  induction values generalizing list with
  | nil => simp
  | cons v values ih =>
    rw [List.foldl_cons, ih, List.filter_filter]
    congr 1
    funext w
    simp [not_or, Bool.and_comm]

/-- Without values an operator does nothing. -/
theorem execute_empty {st : Statement} (h : st.values.isEmpty = true) (c : StandardConfiguration) :
    st.execute c = c := by
  obtain ⟨op, name, values⟩ := st
  cases op
  · exact if_pos h
  · exact if_pos h
  · exact if_pos h

theorem execute_own (st : Statement) (c : StandardConfiguration) :
    (st.execute c).getConfigOptionList st.name = st.apply (c.getConfigOptionList st.name) := by
  by_cases h : st.values.isEmpty = true
  · rw [execute_empty h, Statement.apply, if_pos h]
  · rw [Statement.apply, if_neg h]
    obtain ⟨op, name, values⟩ := st
    cases op with
    | add => simp [Statement.execute, addOption, getConfigOptionList, h]
    | set => simp [Statement.execute, setOption, getConfigOptionList, h]
    | del =>
      cases hl : c.options.lookup name with
      | none => simp [Statement.execute, delOption, getConfigOptionList, hl]
      | some old => simpa [Statement.execute, delOption, getConfigOptionList, h, hl] using foldl_filter_ne values old

/-- No other option is touched, nor made. -/
theorem execute_other (st : Statement) (c : StandardConfiguration) {o : String} (ho : o ≠ st.name) :
    (st.execute c).options.lookup o = c.options.lookup o := by
  by_cases h : st.values.isEmpty = true
  · rw [execute_empty h]
  · obtain ⟨op, name, values⟩ := st
    cases op with
    | add => simp [Statement.execute, addOption, h, AList.lookup_insert_ne ho]
    | set => simp [Statement.execute, setOption, h, AList.lookup_insert_ne ho]
    | del =>
      cases hl : c.options.lookup name with
      | none => simp [Statement.execute, delOption, hl]
      | some old => simp [Statement.execute, delOption, h, hl, AList.lookup_insert_ne ho]

@[simp] theorem execute_context (st : Statement) (c : StandardConfiguration) :
    (st.execute c).context = c.context := by
  by_cases h : st.values.isEmpty = true
  · rw [execute_empty h]
  · obtain ⟨op, name, values⟩ := st
    cases op with
    | add => simp [Statement.execute, addOption, h]
    | set => simp [Statement.execute, setOption, h]
    | del =>
      cases hl : c.options.lookup name with
      | none => simp [Statement.execute, delOption, hl]
      | some old => simp [Statement.execute, delOption, h, hl]

theorem parseLine_statement {line : List Char} {st : Statement} (hc : line.head? ≠ some '#')
    (h : readStatement line = some st) (c : StandardConfiguration) : parseLine c line = st.execute c := by
  rw [parseLine, if_neg hc, getArgs_of_statement h]

/-! ## The operator that was meant -/

/-- A line `name op v1 ... vn`. -/
structure OptionLine where
  name : List Char
  op : Operator
  values : List (List Char)
  trimmed : QString.trimmed name = name
  noComment : name.head? ≠ some '#'
  noOperator : '=' ∉ name
  hasValues : values ≠ []
  wellFormed : ∀ v ∈ values, v ≠ [] ∧ ' ' ∉ v

namespace OptionLine

def right (l : OptionLine) : List Char := [' '].intercalate l.values

def text (l : OptionLine) : List Char := l.name ++ [' '] ++ (l.op.text ++ ' ' :: l.right)

/-- The statement the line was written for. -/
def meant (l : OptionLine) : Statement := ⟨l.op, String.ofList l.name, l.values.map String.ofList⟩

/-- No value hides the operator: `+=` is looked for first, and `-=` before `=`. -/
def Unambiguous (l : OptionLine) : Prop :=
  match l.op with
  | .add => True
  | .del => ∀ v ∈ l.values, ¬ Operator.add.text <:+: v
  | .set => ∀ v ∈ l.values, ¬ Operator.add.text <:+: v ∧ ¬ Operator.del.text <:+: v

instance (l : OptionLine) : Decidable l.Unambiguous := by
  unfold Unambiguous
  split <;> infer_instance

theorem right_none_iff (l : OptionLine) (op : Operator) :
    cut op.text l.right = none ↔ ∀ v ∈ l.values, ¬ op.text <:+: v := by
  have hspace : ' ' ∉ op.text := by cases op <;> simp [Operator.text, Operator.sign]
  rw [cut_eq_none_iff op.text_ne_nil, right, ListWords.infix_intercalate_iff op.text_ne_nil hspace]
  simp

/-- No operator starts in the name or in the blank after it. -/
theorem cut_name (l : OptionLine) (op : Operator) (b : List Char) :
    cut op.text (l.name ++ [' '] ++ b) = (cut op.text b).map (fun p => (l.name ++ [' '] ++ p.1, p.2)) := by
  apply cut_append
  intro t hne hs hp
  have heq : '=' ∉ t := by
    intro h
    have := hs.subset h
    simp [l.noOperator] at this
  have hlast : t.getLast? = some ' ' := by
    obtain ⟨u, hu⟩ := hs
    have := congrArg List.getLast? hu
    rwa [List.getLast?_append_of_ne_nil u hne, List.getLast?_concat] at this
  cases t with
  | nil => exact hne rfl
  | cons c t =>
    cases t with
    | nil =>
      have hc : c = ' ' := by simpa using hlast
      subst hc
      cases op <;> simp [Operator.text, Operator.sign] at hp
    | cons d t =>
      simp only [List.mem_cons, not_or] at heq
      cases op <;> simp [Operator.text, Operator.sign] at hp <;> tauto

/-- What is found of another operator is found in the values. -/
theorem cut_values {op other : Operator} (hne : other ≠ op) (hset : other ≠ .set) (b : List Char) :
    cut other.text (op.text ++ ' ' :: b) = (cut other.text b).map (fun p => (op.text ++ [' '] ++ p.1, p.2)) := by
  rw [List.append_cons]
  cases other with
  | set => exact absurd rfl hset
  | add =>
    apply cut_append_of_not_mem
    cases op <;> simp_all [Operator.text, Operator.sign]
  | del =>
    apply cut_append_of_not_mem
    cases op <;> simp_all [Operator.text, Operator.sign]

theorem cut_other (l : OptionLine) (other : Operator) (hne : other ≠ l.op) (hset : other ≠ .set) :
    cut other.text l.text =
      (cut other.text l.right).map (fun p => (l.name ++ [' '] ++ (l.op.text ++ [' '] ++ p.1), p.2)) := by
  rw [text, cut_name, cut_values hne hset, Option.map_map]
  rfl

theorem cut_own (l : OptionLine) : cut l.op.text l.text = some (l.name ++ [' '], ' ' :: l.right) := by
  rw [text, cut_name, cut_self l.op.text_ne_nil]
  simp

theorem argPair_own (l : OptionLine) :
    argPair (l.name ++ [' '], ' ' :: l.right) = (String.ofList l.name, l.values.map String.ofList) := by
  have hname : QString.trimmed (l.name ++ [' ']) = l.name := by
    rw [trimmed_append_space l.name (by decide), l.trimmed]
  have hvalues : split ' ' (' ' :: l.right) = l.values := by
    rw [split_eq_words, ListWords.words_cons (p := (· == ' ')) l.right (beq_self_eq_true ' ')]
    exact ListWords.words_intercalate (fun v hv => (l.wellFormed v hv).1) (fun v hv => (l.wellFormed v hv).2)
  rw [argPair, hname, hvalues]

/-- The name that is read where another operator is found holds the operator of the line. -/
theorem argPair_other (l : OptionLine) (x y : List Char) :
    (argPair (l.name ++ [' '] ++ (l.op.text ++ [' '] ++ x), y)).1 ≠ String.ofList l.name := by
  intro h
  have hname := String.ofList_injective h
  have hmem : '=' ∈ l.name ++ [' '] ++ (l.op.text ++ [' '] ++ x) := by simp [Operator.text]
  exact l.noOperator (hname ▸ mem_trimmed hmem (by decide))

theorem readStatement_of_unambiguous {l : OptionLine} (h : l.Unambiguous) : readStatement l.text = some l.meant := by
  have hown := l.cut_own
  have hmeant : Statement.ofPair l.op (argPair (l.name ++ [' '], ' ' :: l.right)) = l.meant := by
    rw [argPair_own]
    rfl
  unfold Unambiguous at h
  unfold readStatement
  cases hop : l.op with
  | add =>
    rw [hop] at hown hmeant
    rw [hown, ← hmeant]
  | del =>
    rw [hop] at hown hmeant h
    have hadd := l.cut_other .add (by simp [hop]) (by simp)
    rw [(l.right_none_iff .add).mpr h] at hadd
    simp only [Option.map_none] at hadd
    rw [hadd, hown, ← hmeant]
  | set =>
    rw [hop] at hown hmeant h
    have hadd := l.cut_other .add (by simp [hop]) (by simp)
    have hdel := l.cut_other .del (by simp [hop]) (by simp)
    rw [(l.right_none_iff .add).mpr (fun v hv => (h v hv).1)] at hadd
    rw [(l.right_none_iff .del).mpr (fun v hv => (h v hv).2)] at hdel
    simp only [Option.map_none] at hadd hdel
    rw [hadd, hdel, hown, ← hmeant]
    rfl

/-- A value that hides the operator makes the line one about another name. -/
theorem readStatement_of_ambiguous {l : OptionLine} (h : ¬ l.Unambiguous) :
    ∃ st, readStatement l.text = some st ∧ st.name ≠ String.ofList l.name := by
  have hset : l.op ≠ .add := by
    intro hop
    simp [Unambiguous, hop] at h
  have hadd := l.cut_other .add hset.symm (by simp)
  unfold readStatement
  rw [hadd]
  cases hca : cut Operator.add.text l.right with
  | some p => exact ⟨_, rfl, l.argPair_other p.1 p.2⟩
  | none =>
    have hclear := (l.right_none_iff .add).mp hca
    cases hop : l.op with
    | add => exact absurd hop hset
    | del => exact absurd (by simpa [Unambiguous, hop] using hclear) h
    | set =>
      have hdel := l.cut_other .del (by simp [hop]) (by simp)
      rw [hdel]
      cases hcd : cut Operator.del.text l.right with
      | some p => exact ⟨_, rfl, hop ▸ l.argPair_other p.1 p.2⟩
      | none =>
        have hfree := (l.right_none_iff .del).mp hcd
        refine absurd ?_ h
        simp only [Unambiguous, hop]
        exact fun v hv => ⟨hclear v hv, hfree v hv⟩

theorem head?_text (l : OptionLine) : l.text.head? ≠ some '#' := by
  unfold text
  cases hn : l.name with
  | nil => simp
  | cons c name =>
    have := l.noComment
    simpa [hn] using this

end OptionLine

/-- Reading the line carries out the statement, and concerns no other option. -/
structure ReadsAs (line : List Char) (st : Statement) : Prop where
  own : ∀ c, (parseLine c line).getConfigOptionList st.name = st.apply (c.getConfigOptionList st.name)
  other : ∀ c o, o ≠ st.name → (parseLine c line).options.lookup o = c.options.lookup o

/-- An assignment or a removal changes some configuration. -/
theorem exists_changed {st : Statement} (hop : st.op ≠ .add) (hvalues : st.values ≠ []) :
    ∃ c : StandardConfiguration, st.apply (c.getConfigOptionList st.name) ≠ c.getConfigOptionList st.name := by
  have hempty : st.values.isEmpty = false := by simpa using hvalues
  cases h : st.op with
  | add => exact absurd h hop
  | set =>
    refine ⟨{}, ?_⟩
    rw [Statement.apply, hempty, if_neg Bool.false_ne_true, h]
    exact hvalues
  | del =>
    let c : StandardConfiguration := { options := AList.insert st.name st.values ∅ }
    have hc : c.getConfigOptionList st.name = st.values := by
      rw [getConfigOptionList, AList.lookup_insert]
      rfl
    have hnone : st.values.filter (· ∉ st.values) = [] := by simp
    refine ⟨c, ?_⟩
    rw [hc, Statement.apply, hempty, if_neg Bool.false_ne_true, h]
    exact fun he => hvalues (he.symm.trans hnone)

/-- A line is read as it was meant exactly if no value hides its operator. -/
theorem line_read_as_meant_iff (l : OptionLine) : ReadsAs l.text l.meant ↔ l.Unambiguous := by
  constructor
  · intro h
    by_contra hn
    obtain ⟨st, hst, hname⟩ := OptionLine.readStatement_of_ambiguous hn
    have hop : l.meant.op ≠ .add := by
      intro he
      have hadd : l.op = .add := he
      exact hn (by simp [OptionLine.Unambiguous, hadd])
    have hvalues : l.meant.values ≠ [] := by simpa [OptionLine.meant] using l.hasValues
    obtain ⟨c, hc⟩ := exists_changed hop hvalues
    -- the statement that is read leaves the option of the line alone
    apply hc
    rw [← h.own c, parseLine_statement l.head?_text hst]
    exact congrArg (·.getD []) (execute_other st c hname.symm)
  · intro h
    have hst := OptionLine.readStatement_of_unambiguous h
    constructor
    · intro c
      rw [parseLine_statement l.head?_text hst]
      exact execute_own l.meant c
    · intro c o ho
      rw [parseLine_statement l.head?_text hst]
      exact execute_other l.meant c ho

/-- `Exec = sh -c n+=1`. -/
def shellLine : OptionLine where
  name := "Exec".toList
  op := .set
  values := ["sh".toList, "-c".toList, "n+=1".toList]
  trimmed := by decide
  noComment := by decide
  noOperator := by decide
  hasValues := by decide
  wellFormed := by decide

theorem shellLine_misread :
    ¬ ReadsAs shellLine.text shellLine.meant ∧
      (parseLine {} shellLine.text).getConfigOptionList "Exec" = [] ∧
      (parseLine {} shellLine.text).getConfigOptionList "Exec = sh -c n" = ["1"] := by
  refine ⟨?_, by decide, by decide⟩
  intro h
  have := h.own {}
  revert this
  decide

end StandardConfiguration

end AutopinPlus
