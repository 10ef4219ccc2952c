import AutopinPlus.ListWords
import AutopinPlus.PartialStep
import AutopinPlus.QtText

/-!
# The arguments of a new process

The child branch of `createProcess` copies the command into a buffer and cuts it there into
C strings, whose addresses go to an array that is half as long as the command. A write that
leaves the array has no result, nor has a read or a write that leaves the buffer.
-/
namespace AutopinPlus

namespace CommandLine

open QString PartialStep ListWords

/-- The characters at which the command is cut. -/
def isBlank (b : UInt8) : Bool := b = byte ' ' || b = byte '\t' || b = byte '\n'

/-- The copied command. The last byte is not copied, and the terminator is written at the size
of the `QString`, not of the `std::string`. -/
def fillBuffer (cmd : List Char) (last : UInt8) : Option (List UInt8) :=
  assign (toStdString cmd ++ [last]) (units cmd).length 0

/-- The first inner loop, with the bytes before `argc` and those from it on. -/
def skipBlanks : List UInt8 → List UInt8 → Option (List UInt8 × List UInt8)
  | _, [] => none
  | passed, b :: bs => if isBlank b then skipBlanks (passed ++ [0]) bs else some (passed, b :: bs)

/-- The second inner loop. -/
def skipWord : List UInt8 → List UInt8 → Option (List UInt8 × List UInt8)
  | _, [] => none
  | passed, b :: bs => if b ≠ 0 ∧ !isBlank b then skipWord (passed ++ [b]) bs else some (passed, b :: bs)

/-- `*temp = p; ++temp`, where `temp` stands behind the entries written so far. The null pointer
is `none`, and any other the offset from the start of the buffer. -/
def store (entries : Nat) (argv : List (Option Nat)) (p : Option Nat) : Option (List (Option Nat)) :=
  if argv.length < entries then some (argv ++ [p]) else none

/-- The outer loop, for at most `rounds` rounds. -/
def splitLoop (entries : Nat) :
    Nat → List UInt8 → List UInt8 → List (Option Nat) → Option (List UInt8 × List (Option Nat))
  | 0, _, _, _ => none
  | _ + 1, _, [], _ => none
  | rounds + 1, passed, b :: bs, argv =>
    if b = 0 then (store entries argv none).map fun argv => (passed ++ b :: bs, argv)
    else do
      let (passed, rest) ← skipBlanks passed (b :: bs)
      let argv ← store entries argv (some passed.length)
      let (passed, rest) ← skipWord passed rest
      splitLoop entries rounds passed rest argv

/-- The buffer and the array with which `execvp` is called. -/
def buildArgv (rounds : Nat) (cmd : List Char) (last : UInt8) : Option (List UInt8 × List (Option Nat)) := do
  let buffer ← fillBuffer cmd last
  splitLoop ((units cmd).length / 2) rounds [] buffer []

/-- The string at an address. -/
def cString (buffer : List UInt8) (p : Nat) : List UInt8 := (buffer.drop p).takeWhile (fun b => b ≠ 0)

/-! ## What the loops make of a buffer -/

/-- The bytes of the buffer when all blanks have been overwritten. -/
def zeroed (l : List UInt8) : List UInt8 := l.map fun b => if isBlank b then 0 else b

/-- The strings that are pointed to: the words, and an empty one behind a trailing blank. -/
def pieces (l : List UInt8) : List (List UInt8) :=
  words isBlank l ++ if l.getLast?.any isBlank then [[]] else []

theorem zeroed_append (l l' : List UInt8) : zeroed (l ++ l') = zeroed l ++ zeroed l' := List.map_append

theorem zeroed_word {w : List UInt8} (h : ∀ b ∈ w, isBlank b = false) : zeroed w = w := by
  have hsame : ∀ b ∈ w, (if isBlank b then 0 else b) = id b := fun b hb => if_neg (by simp [h b hb])
  exact (List.map_congr_left hsame).trans (List.map_id w)

theorem skipBlanks_run {s : List UInt8} (hs : ∀ b ∈ s, isBlank b = true) (passed : List UInt8) {rest : List UInt8}
    (hrest : ∃ b bs, rest = b :: bs ∧ isBlank b = false) :
    skipBlanks passed (s ++ rest) = some (passed ++ zeroed s, rest) := by
  obtain ⟨b, bs, rfl, hb⟩ := hrest
  induction s generalizing passed with
  | nil => simp [skipBlanks, hb, zeroed]
  | cons d s ih =>
    have hd := hs d List.mem_cons_self
    have hzero : zeroed (d :: s) = 0 :: zeroed s := by simp [zeroed, hd]
    rw [List.cons_append, skipBlanks, if_pos hd, ih (fun e he => hs e (List.mem_cons_of_mem d he)), hzero,
      List.append_assoc]
    rfl

theorem skipWord_run {w : List UInt8} (hw : ∀ b ∈ w, b ≠ 0 ∧ isBlank b = false) (passed : List UInt8)
    {rest : List UInt8} (hrest : ∃ b bs, rest = b :: bs ∧ (b = 0 ∨ isBlank b = true)) :
    skipWord passed (w ++ rest) = some (passed ++ w, rest) := by
  obtain ⟨b, bs, rfl, hb⟩ := hrest
  induction w generalizing passed with
  | nil =>
    have hstop : ¬ (b ≠ 0 ∧ !isBlank b) := by
      rintro ⟨hne, hblank⟩
      obtain h | h := hb
      · exact hne h
      · simp [h] at hblank
    rw [List.nil_append, skipWord, if_neg hstop, List.append_nil]
  | cons d w ih =>
    obtain ⟨hne, hblank⟩ := hw d List.mem_cons_self
    rw [List.cons_append, skipWord, if_pos ⟨hne, by simp [hblank]⟩,
      ih (fun e he => hw e (List.mem_cons_of_mem d he)), List.append_assoc]
    rfl

theorem cString_word {w : List UInt8} (hw : 0 ∉ w) (front : List UInt8) (bs : List UInt8) :
    cString (front ++ (w ++ 0 :: bs)) front.length = w := by
  unfold cString
  rw [List.drop_left, List.takeWhile_append_of_pos]
  · simp
  · intro b hb
    simpa using fun he : b = 0 => hw (he ▸ hb)

/-- The blanks that a round of the outer loop skips, the word behind them and the rest. -/
structure Round (l s w tail : List UInt8) : Prop where
  split : l = s ++ (w ++ tail)
  blanks : ∀ b ∈ s, isBlank b = true
  word : ∀ b ∈ w, isBlank b = false
  stop : ∀ b, tail.head? = some b → isBlank b = true
  last : w = [] → tail = []

theorem exists_round (l : List UInt8) : ∃ s w tail, Round l s w tail := by
  obtain ⟨s, l', rfl, hs, hl'⟩ := exists_run (fun b => !isBlank b) l
  obtain ⟨w, tail, rfl, hw, htail⟩ := exists_run isBlank l'
  refine ⟨s, w, tail, rfl, fun b hb => by simpa using hs b hb, hw, htail, ?_⟩
  rintro rfl
  cases tail with
  | nil => rfl
  | cons b tail =>
    have hblank := htail b rfl
    have hword := hl' b rfl
    simp [hblank] at hword

/-- A round finds one string. -/
theorem Round.pieces {l s w tail : List UInt8} (h : Round l s w tail) (hne : l ≠ []) :
    pieces l = w :: pieces tail := by
  obtain ⟨rfl, hs, hw, htail, hlast⟩ := h
  unfold CommandLine.pieces
  by_cases hempty : w = []
  · obtain rfl := hlast hempty
    subst hempty
    have hblank : (s ++ ([] ++ [])).getLast?.any isBlank = true := by
      rw [List.append_nil, List.append_nil] at hne ⊢
      rw [List.getLast?_eq_some_getLast hne]
      exact hs _ (List.getLast_mem hne)
    rw [hblank, List.append_nil, List.append_nil, words_separators hs]
    simp
  · have hwords : words isBlank (s ++ (w ++ tail)) = w :: words isBlank tail := by
      rw [words_separators_append _ hs, words_run_append hempty hw htail]
    have hend : (s ++ (w ++ tail)).getLast?.any isBlank = tail.getLast?.any isBlank := by
      rw [List.getLast?_append_of_ne_nil _ (by simp [hempty])]
      cases tail with
      | nil =>
        rw [List.append_nil, List.getLast?_eq_some_getLast hempty]
        exact hw _ (List.getLast_mem hempty)
      | cons b tail => rw [List.getLast?_append_of_ne_nil _ (by simp)]
    rw [hwords, hend, List.cons_append]

theorem Round.length_lt {l s w tail : List UInt8} (h : Round l s w tail) (hne : l ≠ []) : tail.length < l.length := by
  have hlen := congrArg List.length h.split
  rw [List.length_append, List.length_append] at hlen
  by_cases hempty : w = []
  · have hpos := List.length_pos_of_ne_nil hne
    rw [h.last hempty, List.length_nil]
    exact hpos
  · have hpos := List.length_pos_of_ne_nil hempty
    omega

/-- Behind a word the buffer goes on with a zero, in the end. -/
theorem Round.zero_behind {l s w tail : List UInt8} (h : Round l s w tail) (bs : List UInt8) :
    ∃ bs', zeroed tail ++ 0 :: bs = 0 :: bs' := by
  cases tail with
  | nil => exact ⟨bs, rfl⟩
  | cons b tail =>
    refine ⟨zeroed tail ++ 0 :: bs, ?_⟩
    simp [zeroed, h.stop b rfl]

/-- One round of the outer loop. -/
theorem Round.splitLoop {l s w tail : List UInt8} (h : Round l s w tail) (hne : l ≠ []) (hl : 0 ∉ l)
    (entries rounds : Nat) (passed bs : List UInt8) (argv : List (Option Nat)) :
    splitLoop entries (rounds + 1) passed (l ++ 0 :: bs) argv =
      (store entries argv (some (passed ++ zeroed s).length)).bind fun argv =>
        splitLoop entries rounds (passed ++ zeroed s ++ w) (tail ++ 0 :: bs) argv := by
  have hword : ∀ b ∈ w, b ≠ 0 ∧ isBlank b = false := by
    intro b hb
    refine ⟨?_, h.word b hb⟩
    rintro rfl
    exact hl (h.split ▸ List.mem_append_right s (List.mem_append_left tail hb))
  have hbehind : ∃ b bs', tail ++ 0 :: bs = b :: bs' ∧ (b = 0 ∨ isBlank b = true) := by
    cases tail with
    | nil => exact ⟨0, bs, rfl, .inl rfl⟩
    | cons b tail => exact ⟨b, tail ++ 0 :: bs, rfl, .inr (h.stop b rfl)⟩
  have hfound : ∃ b bs', w ++ (tail ++ 0 :: bs) = b :: bs' ∧ isBlank b = false := by
    cases hw : w with
    | nil => exact ⟨0, bs, by rw [h.last hw]; rfl, by decide⟩
    | cons b w => exact ⟨b, w ++ (tail ++ 0 :: bs), rfl, h.word b (hw ▸ List.mem_cons_self)⟩
  have hblanks := skipBlanks_run h.blanks passed hfound
  rw [← List.append_assoc w, ← List.append_assoc s, ← h.split] at hblanks
  cases l with
  | nil => exact absurd rfl hne
  | cons b l =>
    have hb : b ≠ 0 := fun he => hl (he ▸ List.mem_cons_self)
    rw [List.cons_append] at hblanks ⊢
    rw [CommandLine.splitLoop, if_neg hb, hblanks, Option.bind_eq_bind, Option.bind_some]
    have hskip := skipWord_run hword (passed ++ zeroed s) hbehind
    rw [← List.append_assoc w] at hskip
    change (store entries argv (some (passed ++ zeroed s).length)).bind _ = _
    congr 1
    funext argv
    rw [hskip, Option.bind_some]

theorem splitLoop_spec {l : List UInt8} (hl : 0 ∉ l) (passed bs : List UInt8) :
    ∃ ptrs : List Nat, ptrs.map (cString (passed ++ zeroed l ++ 0 :: bs)) = pieces l ∧
      ∀ entries rounds argv, l.length < rounds →
        splitLoop entries rounds passed (l ++ 0 :: bs) argv =
          if argv.length + (pieces l).length < entries then
            some (passed ++ zeroed l ++ 0 :: bs, argv ++ ptrs.map some ++ [none])
          else none := by
  induction hn : l.length using Nat.strongRecOn generalizing l passed with
  | ind n ih =>
    by_cases hne : l = []
    · subst hne
      refine ⟨[], by simp [pieces], ?_⟩
      intro entries rounds argv hrounds
      obtain ⟨rounds, rfl⟩ : ∃ k, rounds = k + 1 := ⟨rounds - 1, by omega⟩
      rw [List.nil_append, splitLoop, if_pos rfl, store]
      by_cases hfull : argv.length < entries
      · simp [hfull, pieces, zeroed]
      · simp [hfull, pieces]
    · obtain ⟨s, w, tail, h⟩ := exists_round l
      have hshort := h.length_lt hne
      have hword : 0 ∉ w := fun h0 => hl (h.split ▸ List.mem_append_right s (List.mem_append_left tail h0))
      have htail : 0 ∉ tail := fun h0 => hl (h.split ▸ List.mem_append_right s (List.mem_append_right w h0))
      obtain ⟨ptrs, hptrs, hrun⟩ := ih tail.length (hn ▸ hshort) htail (passed ++ zeroed s ++ w) rfl
      have hbuffer : passed ++ zeroed l ++ 0 :: bs = passed ++ zeroed s ++ w ++ zeroed tail ++ 0 :: bs := by
        rw [h.split, zeroed_append, zeroed_append, zeroed_word h.word]
        simp only [List.append_assoc]
      obtain ⟨bs', hbs'⟩ := h.zero_behind bs
      have hfirst : cString (passed ++ zeroed l ++ 0 :: bs) (passed ++ zeroed s).length = w := by
        rw [hbuffer, List.append_assoc _ (zeroed tail), hbs', List.append_assoc _ w]
        exact cString_word hword _ bs'
      refine ⟨(passed ++ zeroed s).length :: ptrs, ?_, ?_⟩
      · rw [List.map_cons, hfirst, hbuffer, hptrs, h.pieces hne]
      · intro entries rounds argv hrounds
        obtain ⟨rounds, rfl⟩ : ∃ k, rounds = k + 1 := ⟨rounds - 1, by omega⟩
        rw [h.splitLoop hne hl, h.pieces hne, List.length_cons, store]
        by_cases hroom : argv.length < entries
        · rw [if_pos hroom, Option.bind_some, hrun entries rounds _ (by omega), ← hbuffer, List.length_append,
            List.length_singleton, Nat.add_assoc, Nat.add_comm 1, List.map_cons, List.append_assoc argv]
          rfl
        · rw [if_neg hroom, Option.bind_none, if_neg (by omega)]

theorem flatten_pieces (l : List UInt8) : (pieces l).flatten = l.filter (fun b => !isBlank b) := by
  unfold pieces
  rw [List.flatten_append, flatten_words]
  split <;> simp

/-! ## Commands -/

def IsSeparator (c : Char) : Bool := c = ' ' || c = '\t' || c = '\n'

/-- The arguments a command stands for. -/
def commandWords (cmd : List Char) : List (List Char) := words IsSeparator cmd

theorem words_toStdString (cmd : List Char) : words isBlank (toStdString cmd) = (commandWords cmd).map toStdString := by
  apply words_flatMap
  · intro c hc
    simp only [IsSeparator, Bool.or_eq_true, decide_eq_true_eq] at hc
    obtain (rfl | rfl) | rfl := hc
    · exact ⟨byte ' ', by decide, by decide⟩
    · exact ⟨byte '\t', by decide, by decide⟩
    · exact ⟨byte '\n', by decide, by decide⟩
  · intro c hc
    refine ⟨String.utf8EncodeChar_ne_nil, ?_⟩
    intro b hb
    simp only [IsSeparator, Bool.or_eq_false_iff, decide_eq_false_iff_not] at hc
    have hne : ∀ d, IsAscii d → c ≠ d → b ≠ byte d := by
      rintro d hd hcd rfl
      have hmem : byte d ∈ toStdString [c] := by simpa using hb
      exact hcd (List.mem_singleton.mp (mem_toStdString hd hmem)).symm
    simp only [isBlank, Bool.or_eq_false_iff, decide_eq_false_iff_not]
    exact ⟨⟨hne ' ' (by decide) hc.1.1, hne '\t' (by decide) hc.1.2⟩, hne '\n' (by decide) hc.2⟩

theorem fillBuffer_eq (cmd : List Char) (last : UInt8) :
    ∃ bs, fillBuffer cmd last = some ((toStdString cmd).take (units cmd).length ++ 0 :: bs) := by
  have hlen := length_units_le cmd
  have hbound : (units cmd).length < (toStdString cmd ++ [last]).length := by
    rw [List.length_append, List.length_singleton]
    omega
  refine ⟨(toStdString cmd ++ [last]).drop ((units cmd).length + 1), ?_⟩
  rw [fillBuffer, assign, if_pos ⟨by omega, by omega⟩, Int.toNat_natCast, List.set_eq_take_append_cons_drop,
    if_pos hbound, List.take_append_of_le_length hlen]

/-- The part of the command that is cut into words ends at the first zero. -/
theorem exists_cut (l bs : List UInt8) :
    ∃ l' bs', l ++ 0 :: bs = l' ++ 0 :: bs' ∧ 0 ∉ l' ∧ l' <+: l ∧ (0 ∉ l → l' = l) := by
  by_cases h : 0 ∈ l
  · obtain ⟨a, b, rfl, ha⟩ := List.eq_append_cons_of_mem h
    refine ⟨a, b ++ 0 :: bs, by simp, ha, List.prefix_append a _, fun h0 => absurd h h0⟩
  · exact ⟨l, bs, rfl, h, List.prefix_rfl, fun _ => rfl⟩

theorem buildArgv_spec (cmd : List Char) (last : UInt8) :
    ∃ l buffer, ∃ ptrs : List Nat, 0 ∉ l ∧
      (0 ∉ (toStdString cmd).take (units cmd).length → l = (toStdString cmd).take (units cmd).length) ∧
      ptrs.map (cString buffer) = pieces l ∧
      ∀ rounds, (toStdString cmd).length < rounds → buildArgv rounds cmd last =
        if (pieces l).length < (units cmd).length / 2 then some (buffer, ptrs.map some ++ [none]) else none := by
  obtain ⟨bs, hfill⟩ := fillBuffer_eq cmd last
  obtain ⟨l, bs', hcut, hl, hle, hwhole⟩ := exists_cut ((toStdString cmd).take (units cmd).length) bs
  obtain ⟨ptrs, hptrs, hrun⟩ := splitLoop_spec hl [] bs'
  refine ⟨l, _, ptrs, hl, hwhole, hptrs, ?_⟩
  intro rounds hrounds
  have hshort : l.length < rounds := by
    have hlen := hle.length_le
    rw [List.length_take] at hlen
    omega
  rw [buildArgv, hfill, Option.bind_eq_bind, Option.bind_some, hcut, hrun _ rounds [] hshort]
  simp

/-- The array holds the words of the command, in order, and a null pointer. -/
def Exact (cmd : List Char) (result : Option (List UInt8 × List (Option Nat))) : Prop :=
  ∃ buffer argv, result = some (buffer, argv) ∧
    argv.map (Option.map (cString buffer)) = (commandWords cmd).map (fun w => some (toStdString w)) ++ [none]

theorem zero_mem_iff (cmd : List Char) : 0 ∈ toStdString cmd ↔ '\x00' ∈ cmd := by
  constructor
  · exact fun h => mem_toStdString (by decide : IsAscii '\x00') h
  · exact fun h => List.mem_flatMap.mpr ⟨'\x00', h, by decide⟩

theorem pieces_eq_words {l : List UInt8} (h : ∀ b, l.getLast? = some b → isBlank b = false) :
    pieces l = words isBlank l := by
  have hend : l.getLast?.any isBlank = false := by
    cases hl : l.getLast? with
    | none => rfl
    | some b => exact h b hl
  rw [pieces, hend, if_neg Bool.false_ne_true, List.append_nil]

/-- If the strings are the words of a text, no blank ends the list. -/
theorem getLast?_of_pieces {l l' : List UInt8} (h : pieces l = words isBlank l') :
    ∀ b, l.getLast? = some b → isBlank b = false := by
  intro b hb
  by_contra hblank
  have hempty : [] ∈ pieces l := by
    rw [pieces, hb, Option.any_some, if_pos (by simpa using hblank)]
    exact List.mem_append_right _ List.mem_cons_self
  exact mem_words (h ▸ hempty) rfl

/-- The strings of the buffer are the words of the command exactly if nothing but blanks is cut off. -/
theorem pieces_eq_iff {cmd : List Char} {l : List UInt8} (hl : 0 ∉ l)
    (hwhole : 0 ∉ (toStdString cmd).take (units cmd).length → l = (toStdString cmd).take (units cmd).length) :
    pieces l = words isBlank (toStdString cmd) ↔
      '\x00' ∉ cmd ∧ (∀ b ∈ (toStdString cmd).drop (units cmd).length, isBlank b = true) ∧
        ∀ b, ((toStdString cmd).take (units cmd).length).getLast? = some b → isBlank b = false := by
  have htext := List.take_append_drop (units cmd).length (toStdString cmd)
  constructor
  · intro h
    have hzero : 0 ∉ toStdString cmd := by
      intro h0
      -- a zero belongs to a word of the command, but to no string of the buffer
      have hmem : 0 ∈ (pieces l).flatten := by
        rw [h, flatten_words]
        exact List.mem_filter.mpr ⟨h0, by decide⟩
      rw [flatten_pieces] at hmem
      exact hl (List.mem_filter.mp hmem).1
    obtain rfl := hwhole (fun h0 => hzero (List.mem_of_mem_take h0))
    have hend := getLast?_of_pieces h
    rw [pieces_eq_words hend, ← htext, List.take_append_drop] at h
    refine ⟨fun hc => hzero ((zero_mem_iff cmd).mpr hc), ?_, hend⟩
    apply (words_append_eq_iff ((toStdString cmd).take (units cmd).length) _).mp
    rw [htext, h]
  · rintro ⟨hzero, hcut, hend⟩
    obtain rfl := hwhole (fun h0 => hzero ((zero_mem_iff cmd).mp (List.mem_of_mem_take h0)))
    have hwords := words_append_separators ((toStdString cmd).take (units cmd).length) hcut
    rw [pieces_eq_words hend, ← hwords, htext]

theorem argv_exact_iff (cmd : List Char) (last : UInt8) {rounds : Nat} (h : (toStdString cmd).length < rounds) :
    Exact cmd (buildArgv rounds cmd last) ↔
      (commandWords cmd).length + 1 ≤ (units cmd).length / 2 ∧ '\x00' ∉ cmd ∧
        (∀ b ∈ (toStdString cmd).drop (units cmd).length, isBlank b = true) ∧
        ∀ b, ((toStdString cmd).take (units cmd).length).getLast? = some b → isBlank b = false := by
  obtain ⟨l, buffer, ptrs, hl, hwhole, hptrs, hrun⟩ := buildArgv_spec cmd last
  have hlength : pieces l = words isBlank (toStdString cmd) → (pieces l).length = (commandWords cmd).length := by
    intro heq
    rw [heq, words_toStdString, List.length_map]
  rw [hrun rounds h, ← pieces_eq_iff hl hwhole]
  have hstrings : (ptrs.map some ++ [none]).map (Option.map (cString buffer)) = (pieces l).map some ++ [none] := by
    rw [← hptrs]
    simp
  have hwords : (commandWords cmd).map (fun w => some (toStdString w)) =
      (words isBlank (toStdString cmd)).map some := by
    rw [words_toStdString, List.map_map]
    rfl
  constructor
  · rintro ⟨buffer', argv, hresult, hargv⟩
    split at hresult
    · next hroom =>
      obtain ⟨rfl, rfl⟩ := Prod.mk.inj (Option.some.inj hresult)
      rw [hstrings, hwords] at hargv
      have heq := List.map_injective_iff.mpr (fun _ _ => Option.some.inj) (List.append_cancel_right hargv)
      exact ⟨hlength heq ▸ hroom, heq⟩
    · cases hresult
  · rintro ⟨hroom, heq⟩
    rw [if_pos (hlength heq ▸ hroom)]
    exact ⟨buffer, _, rfl, by rw [hstrings, hwords, heq]⟩

/-- Two words and the null pointer fill an array of three entries. -/
theorem argv_exact_ls : Exact "ls -la".toList (buildArgv 7 "ls -la".toList 1) := by
  refine (argv_exact_iff "ls -la".toList 1 (by decide +kernel)).mpr ⟨?_, ?_, ?_, ?_⟩
  · decide +kernel
  · decide +kernel
  · decide +kernel
  · have hlast : ((toStdString "ls -la".toList).take (units "ls -la".toList).length).getLast? = some (byte 'a') := by
      decide +kernel
    rw [hlast]
    rintro b ⟨⟩
    decide

/-- `Exec = ls`: the null pointer is written behind the array, which has one entry. -/
theorem argv_overflow : ¬ Exact "ls".toList (buildArgv 3 "ls".toList 1) ∧ buildArgv 3 "ls".toList 1 = none := by
  have hnone : buildArgv 3 "ls".toList 1 = none := by decide +kernel
  refine ⟨?_, hnone⟩
  rw [hnone]
  rintro ⟨buffer, argv, h, -⟩
  cases h

end CommandLine

end AutopinPlus
