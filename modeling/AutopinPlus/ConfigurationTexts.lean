import AutopinPlus.ConfigurationLines
import AutopinPlus.KeyedFold

/-!
# Whole configuration texts

The values of an option are folded over the lines of the option, and every other line could
be left out. The error state is that of the context before, unless some line has no operator.
-/
namespace AutopinPlus

namespace StandardConfiguration

open KeyedFold QString

/-- The option a line is about. -/
def keyOf (line : List Char) : Option String :=
  if line.head? = some '#' then none else (readStatement line).map Statement.name

/-- A line that is reported, as it has no operator. -/
def Rejected (line : List Char) : Prop := line.head? ≠ some '#' ∧ '=' ∉ line

instance (line : List Char) : Decidable (Rejected line) := inferInstanceAs (Decidable (_ ∧ _))

def applyLine (values : List String) (line : List Char) : List String :=
  (readStatement line).elim values (Statement.apply values)

theorem readStatement_eq_none_iff (line : List Char) : readStatement line = none ↔ '=' ∉ line := by
  have hcut : ∀ op : Operator, cut op.text line ≠ none → '=' ∈ line := by
    intro op h
    rw [Ne, cut_eq_none_iff op.text_ne_nil, not_not] at h
    exact h.subset (by simp [Operator.text])
  constructor
  · intro h hm
    unfold readStatement at h
    split at h
    · cases h
    · split at h
      · cases h
      · rw [Option.map_eq_none_iff, cut_eq_none_iff Operator.set.text_ne_nil] at h
        obtain ⟨a, b, rfl⟩ := List.append_of_mem hm
        exact h ⟨a, b, by simp [Operator.text, Operator.sign]⟩
  · intro h
    have hnone : ∀ op : Operator, cut op.text line = none := fun op => not_not.mp (fun hc => h (hcut op hc))
    rw [readStatement, hnone, hnone, hnone, Option.map_none]

theorem getConfigOptionList_congr {c c' : StandardConfiguration} {o : String}
    (h : c'.options.lookup o = c.options.lookup o) : c'.getConfigOptionList o = c.getConfigOptionList o :=
  congrArg (·.getD []) h

/-- A line changes the values of its own option, and what it makes of them depends on nothing else. -/
theorem keyed_parseLine : Keyed parseLine getConfigOptionList keyOf applyLine where
  own := by
    intro c line o h
    unfold keyOf at h
    split at h
    · cases h
    · next hc =>
      obtain ⟨st, hst, rfl⟩ := Option.map_eq_some_iff.mp h
      rw [parseLine_statement hc hst, execute_own, applyLine, hst, Option.elim_some]
  other := by
    intro c line o h
    by_cases hc : line.head? = some '#'
    · rw [parseLine, if_pos hc]
    · rw [keyOf, if_neg hc] at h
      cases hst : readStatement line with
      | none =>
        rw [parseLine, if_neg hc]
        exact getConfigOptionList_congr (congrArg _ (getArgs_options_of_none hst c).1)
      | some st =>
        rw [hst, Option.map_some] at h
        rw [parseLine_statement hc hst]
        exact getConfigOptionList_congr (execute_other st c (fun ho => h (ho ▸ rfl)))

/-- The lines of a text that are about an option. -/
def linesOf (o : String) (text : String) : List (List Char) := stepsOf keyOf o (readLines text.toList)

theorem ofText_getConfigOptionList (text : String) (context : AutopinContext) (o : String) :
    (ofText text context).getConfigOptionList o = (linesOf o text).foldl applyLine [] :=
  keyed_parseLine.get_foldl (readLines text.toList) { context := context } o

/-- Every line of an option is a statement. -/
theorem foldl_applyLine (ls : List (List Char)) (values : List String) :
    ls.foldl applyLine values = (ls.filterMap readStatement).foldl Statement.apply values := by
  rw [List.foldl_filterMap]
  congr 1
  funext values line
  unfold applyLine
  cases readStatement line <;> rfl

/-! ## Options are independent -/

theorem options_independent (o : String) :
    (∀ text text' context context', linesOf o text = linesOf o text' →
      (ofText text context).getConfigOptionList o = (ofText text' context').getConfigOptionList o) ∧
    (∀ text text' context ls l m ls', keyOf l ≠ keyOf m →
      readLines text.toList = ls ++ l :: m :: ls' → readLines text'.toList = ls ++ m :: l :: ls' →
      (ofText text context).getConfigOptionList o = (ofText text' context).getConfigOptionList o) ∧
    (∀ text text' context ls l ls', keyOf l ≠ some o →
      readLines text.toList = ls ++ l :: ls' → readLines text'.toList = ls ++ ls' →
      (ofText text context).getConfigOptionList o = (ofText text' context).getConfigOptionList o) ∧
    ∀ text context, (ofText text context).getConfigOptionList o =
      ((linesOf o text).filterMap readStatement).foldl Statement.apply [] := by
  refine ⟨?_, ?_, ?_, ?_⟩
  · intro text text' context context' h
    rw [ofText_getConfigOptionList, ofText_getConfigOptionList, h]
  · intro text text' context ls l m ls' hkey h h'
    rw [ofText_getConfigOptionList, ofText_getConfigOptionList, linesOf, linesOf, h, h',
      stepsOf_swap hkey]
  · intro text text' context ls l ls' hkey h h'
    rw [ofText_getConfigOptionList, ofText_getConfigOptionList, linesOf, linesOf, h, h',
      stepsOf_insert hkey]
  · intro text context
    rw [ofText_getConfigOptionList, foldl_applyLine]

/-- Two lines of different options change places, and a comment is inserted. -/
theorem options_independent_twoLines :
    (ofText "a = 1\nb = 2\na += 3\n" {}).getConfigOptionList "a" = ["1", "3"] ∧
      (ofText "b = 2\na = 1\na += 3\n" {}).getConfigOptionList "a" = ["1", "3"] ∧
      (ofText "b = 2\na = 1\n# a = 2\na += 3\n" {}).getConfigOptionList "a" = ["1", "3"] := by
  have h := options_independent "a"
  have hfirst : (ofText "a = 1\nb = 2\na += 3\n" {}).getConfigOptionList "a" = ["1", "3"] := by decide
  have hswap := h.2.1 "a = 1\nb = 2\na += 3\n" "b = 2\na = 1\na += 3\n" {} [] "a = 1".toList "b = 2".toList
    ["a += 3".toList] (by decide) (by decide) (by decide)
  have hcomment := h.2.2.1 "b = 2\na = 1\n# a = 2\na += 3\n" "b = 2\na = 1\na += 3\n" {}
    ["b = 2".toList, "a = 1".toList] "# a = 2".toList ["a += 3".toList] (by decide) (by decide) (by decide)
  exact ⟨hfirst, hswap.symm.trans hfirst, hcomment.trans (hswap.symm.trans hfirst)⟩

/-! ## Blank lines -/

def Blank (line : List Char) : Prop := ∀ c ∈ line, isSpace c = true

/-- The second list of lines has some blank lines more. -/
inductive WithBlanks : List (List Char) → List (List Char) → Prop
  | nil : WithBlanks [] []
  | keep {line ls ls'} (h : WithBlanks ls ls') : WithBlanks (line :: ls) (line :: ls')
  | insert {line ls ls'} (hb : Blank line) (h : WithBlanks ls ls') : WithBlanks ls (line :: ls')

theorem Blank.not_mem {line : List Char} (h : Blank line) {c : Char} (hc : isSpace c = false) : c ∉ line := by
  intro hm
  have := h c hm
  simp [hc] at this

/-- A blank line has no operator, and it is no comment. -/
theorem Blank.rejected {line : List Char} (h : Blank line) : Rejected line := by
  constructor
  · intro hc
    exact h.not_mem (by decide) (List.mem_of_head? hc)
  · exact h.not_mem (by decide)

theorem keyOf_of_rejected {line : List Char} (h : Rejected line) : keyOf line = none := by
  rw [keyOf, if_neg h.1, (readStatement_eq_none_iff line).mpr h.2, Option.map_none]

theorem WithBlanks.stepsOf {ls ls' : List (List Char)} (h : WithBlanks ls ls') (o : String) :
    stepsOf keyOf o ls' = stepsOf keyOf o ls := by
  induction h with
  | nil => rfl
  | @keep line ls ls' h ih =>
    by_cases hk : keyOf line = some o
    · rw [stepsOf_cons_own hk, stepsOf_cons_own hk, ih]
    · rw [stepsOf_cons_other hk, stepsOf_cons_other hk, ih]
  | @insert line ls ls' hb h ih =>
    have hk : keyOf line ≠ some o := by simp [keyOf_of_rejected hb.rejected]
    rw [stepsOf_cons_other hk, ih]

theorem parseLine_isError (c : StandardConfiguration) (line : List Char) :
    (parseLine c line).context.isError = true ↔ c.context.isError = true ∨ Rejected line := by
  by_cases hc : line.head? = some '#'
  · rw [parseLine, if_pos hc]
    exact ⟨Or.inl, fun h => h.elim id (fun hr => absurd hc hr.1)⟩
  · cases hst : readStatement line with
    | none =>
      have hr : Rejected line := ⟨hc, (readStatement_eq_none_iff line).mp hst⟩
      rw [parseLine, if_neg hc]
      exact ⟨fun _ => .inr hr, fun _ => (getArgs_options_of_none hst c).2⟩
    | some st =>
      have hr : ¬ Rejected line := by
        intro hr
        rw [(readStatement_eq_none_iff line).mpr hr.2] at hst
        cases hst
      rw [parseLine_statement hc hst, execute_context]
      exact ⟨Or.inl, fun h => h.elim id (fun h => absurd h hr)⟩

theorem foldl_isError (ls : List (List Char)) (c : StandardConfiguration) :
    (ls.foldl parseLine c).context.isError = true ↔ c.context.isError = true ∨ ∃ line ∈ ls, Rejected line := by
  induction ls generalizing c with
  | nil => simp
  | cons line ls ih =>
    rw [List.foldl_cons, ih, parseLine_isError, or_assoc, List.exists_mem_cons_iff]

/-- Nothing is inserted, or a line that is rejected. -/
theorem WithBlanks.eq_or_rejected {ls ls' : List (List Char)} (h : WithBlanks ls ls') :
    ls' = ls ∨ ∃ line ∈ ls', Rejected line := by
  induction h with
  | nil => exact .inl rfl
  | @keep line ls ls' h ih =>
    rcases ih with rfl | ⟨l, hl, hr⟩
    · exact .inl rfl
    · exact .inr ⟨l, List.mem_cons_of_mem line hl, hr⟩
  | @insert line ls ls' hb h ih => exact .inr ⟨line, List.mem_cons_self, hb.rejected⟩

theorem WithBlanks.sublist {ls ls' : List (List Char)} (h : WithBlanks ls ls') : ls.Sublist ls' := by
  induction h with
  | nil => exact .slnil
  | keep h ih => exact .cons_cons _ ih
  | insert hb h ih => exact .cons _ ih

theorem WithBlanks.refl (ls : List (List Char)) : WithBlanks ls ls := by
  induction ls with
  | nil => exact .nil
  | cons line ls ih => exact .keep ih

theorem WithBlanks.append {ls ls' : List (List Char)} (h : WithBlanks ls ls') (front : List (List Char)) :
    WithBlanks (front ++ ls) (front ++ ls') := by
  induction front with
  | nil => exact h
  | cons line front ih => exact .keep ih

theorem readLines_append (a b : List Char) :
    readLines (a ++ '\n' :: b) = (a.splitOn '\n').map chopReturn ++ readLines b := by
  have hsplit : (a ++ '\n' :: b).splitOn '\n' = a.splitOn '\n' ++ b.splitOn '\n' :=
    List.splitOnP_append_cons a b (beq_self_eq_true '\n')
  have hne : b.splitOn '\n' ≠ [] := List.splitOnP_ne_nil _ b
  simp only [readLines, hsplit, List.dropLast_append_of_ne_nil hne, List.getLast?_append_of_ne_nil _ hne]
  rw [List.append_assoc, List.map_append]

theorem splitOn_newline {l : List Char} (hl : '\n' ∉ l) : l.splitOn '\n' = [l] :=
  List.splitOnP_eq_singleton (fun _ hc => beq_false_of_ne (fun he => hl (he ▸ hc)))

/-- A blank line between two lines of a text. -/
theorem withBlanks_line (a b : List Char) {line : List Char} (hb : Blank line) (hn : '\n' ∉ line) :
    WithBlanks (readLines (a ++ '\n' :: b)) (readLines (a ++ '\n' :: (line ++ '\n' :: b))) := by
  have hchop : Blank (chopReturn line) := by
    unfold chopReturn
    split
    · exact fun c hc => hb c (List.dropLast_subset line hc)
    · exact hb
  rw [readLines_append, readLines_append, readLines_append, splitOn_newline hn]
  exact (WithBlanks.insert hchop (.refl _)).append _

/-- Blank lines change no option. They leave the error state as it was exactly if none is inserted, or the
context is in the error state without them. -/
theorem blank_lines_neutral_iff {text text' : String}
    (h : WithBlanks (readLines text.toList) (readLines text'.toList)) (context : AutopinContext) :
    (∀ o, (ofText text' context).getConfigOptionList o = (ofText text context).getConfigOptionList o) ∧
    ((ofText text' context).context.isError = (ofText text context).context.isError ↔
      readLines text'.toList = readLines text.toList ∨ context.isError = true ∨
        ∃ line ∈ readLines text.toList, Rejected line) := by
  have herror := foldl_isError (readLines text.toList) { context := context }
  have herror' := foldl_isError (readLines text'.toList) { context := context }
  constructor
  · intro o
    rw [ofText_getConfigOptionList, ofText_getConfigOptionList, linesOf, linesOf, h.stepsOf]
  · rw [Bool.eq_iff_iff]
    constructor
    · intro heq
      rcases h.eq_or_rejected with hsame | hr
      · exact .inl hsame
      · exact .inr (herror.mp (heq.mp (herror'.mpr (.inr hr))))
    · rintro (hsame | herr)
      · rw [ofText, ofText, parseConfigurationFile, parseConfigurationFile, hsame]
      · have hbefore := herror.mpr herr
        have hafter := herror'.mpr (herr.imp id (fun ⟨line, hm, hr⟩ => ⟨line, h.sublist.subset hm, hr⟩))
        exact ⟨fun _ => hbefore, fun _ => hafter⟩

/-- The configuration is in the error state already, so a blank line makes no difference. -/
theorem blank_lines_neutral_rejected :
    (ofText "a = 1\nnothing\n \n" {}).context.isError = (ofText "a = 1\nnothing\n" {}).context.isError := by
  have hblank : WithBlanks (readLines "a = 1\nnothing\n".toList) (readLines "a = 1\nnothing\n \n".toList) :=
    .keep (.keep (.insert (by unfold Blank; decide) .nil))
  exact (blank_lines_neutral_iff hblank {}).2.mpr (.inr (.inr ⟨"nothing".toList, by decide, by decide⟩))

/-- A text that ends with an empty line. -/
theorem blank_line_rejected :
    WithBlanks (readLines "a = 1\n".toList) (readLines "a = 1\n\n".toList) ∧
      (ofText "a = 1\n" {}).context.isError = false ∧ (ofText "a = 1\n\n" {}).context.isError = true :=
  ⟨.keep (.insert (by unfold Blank; decide) .nil), by decide, by decide⟩

/-! ## What is reported -/

/-- The text of the report about a line. -/
def invalidFormat (line : List Char) : String := "Invalid option format: \"" ++ String.ofList line ++ "\""

theorem parseLine_logger (c : StandardConfiguration) (line : List Char) :
    (parseLine c line).context.logger =
      c.context.logger ++ if Rejected line then [(true, invalidFormat line)] else [] := by
  by_cases hc : line.head? = some '#'
  · have hr : ¬ Rejected line := fun hr => hr.1 hc
    rw [parseLine, if_pos hc, if_neg hr, List.append_nil]
  · cases hst : readStatement line with
    | none =>
      have hr : Rejected line := ⟨hc, (readStatement_eq_none_iff line).mp hst⟩
      rw [parseLine, if_neg hc, if_pos hr, getArgs_of_none hst]
      rfl
    | some st =>
      have hr : ¬ Rejected line := by
        intro hr
        rw [(readStatement_eq_none_iff line).mpr hr.2] at hst
        cases hst
      rw [parseLine_statement hc hst, execute_context, if_neg hr, List.append_nil]

/-- Every rejected line is reported once, in the order of the lines. -/
theorem foldl_logger (ls : List (List Char)) (c : StandardConfiguration) :
    (ls.foldl parseLine c).context.logger =
      c.context.logger ++ (ls.filter (fun line => Rejected line)).map fun line => (true, invalidFormat line) := by
  induction ls generalizing c with
  | nil => simp
  | cons line ls ih =>
    rw [List.foldl_cons, ih, parseLine_logger, List.append_assoc]
    by_cases hr : Rejected line
    · rw [if_pos hr, List.filter_cons_of_pos (by simpa using hr)]
      rfl
    · rw [if_neg hr, List.filter_cons_of_neg (by simpa using hr)]
      rfl

/-- Nothing is reported exactly if no line is rejected. -/
theorem logger_eq_nil_iff (text : String) :
    (ofText text {}).context.logger = [] ↔ ∀ line ∈ readLines text.toList, ¬ Rejected line := by
  rw [ofText, parseConfigurationFile, foldl_logger]
  simp

/-! ## Texts of one line -/

/-- How a line ends. -/
inductive LineEnd where
  | none | lineFeed | carriageReturn
  deriving DecidableEq, Repr

def LineEnd.text : LineEnd → List Char
  | .none => []
  | .lineFeed => ['\n']
  | .carriageReturn => ['\r', '\n']

theorem chopReturn_eq_self {l : List Char} (hl : '\r' ∉ l) : chopReturn l = l :=
  if_neg (fun h => hl (List.mem_of_getLast? h))

theorem readLines_line {l : List Char} (hne : l ≠ []) (hfeed : '\n' ∉ l) (hreturn : '\r' ∉ l) (e : LineEnd) :
    readLines (l ++ e.text) = [l] := by
  have hended : ∀ m : List Char, '\n' ∉ m → readLines (m ++ ['\n']) = [chopReturn m] := by
    intro m hm
    rw [readLines_append m [], splitOn_newline hm]
    rfl
  have hself := chopReturn_eq_self hreturn
  cases e with
  | none =>
    rw [LineEnd.text, List.append_nil, readLines, splitOn_newline hfeed]
    simp [hne, hself]
  | lineFeed => rw [LineEnd.text, hended l hfeed, hself]
  | carriageReturn =>
    have hline : '\n' ∉ l ++ ['\r'] := by simp [hfeed]
    have hchop : chopReturn (l ++ ['\r']) = l := by simp [chopReturn]
    rw [LineEnd.text, List.append_cons, hended _ hline, hchop]

/-- A text of one line that is read as it was meant. -/
theorem ofText_line {l : OptionLine} (h : l.Unambiguous) (hfeed : '\n' ∉ l.text) (hreturn : '\r' ∉ l.text)
    (e : LineEnd) (context : AutopinContext) :
    ofText (String.ofList (l.text ++ e.text)) context = l.meant.execute { context := context } := by
  have hne : l.text ≠ [] := by simp [OptionLine.text]
  rw [ofText, parseConfigurationFile, String.toList_ofList, readLines_line hne hfeed hreturn e, List.foldl_cons,
    List.foldl_nil, parseLine_statement l.head?_text (OptionLine.readStatement_of_unambiguous h)]

end StandardConfiguration

end AutopinPlus
