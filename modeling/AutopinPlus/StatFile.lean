import AutopinPlus.QtText

/-!
# The entries of a stat file

`getProcEntry` walks through the bytes of a stat text while it counts in code units. Where
both agree, a part of the text that has been passed can be forgotten, so the entries are
found one after the other.
-/
namespace AutopinPlus

namespace StatFile

open QString

/-- After the loop: the last entry goes to the end of the text, less the newline. -/
def lastEntry (proc_stat : List UInt16) (index start_pos end_pos current_index : Nat) : Option (List UInt16) :=
  if index = current_index then some (mid proc_stat start_pos ((end_pos : Int) - start_pos - 1)) else none

/-- The loop of `getProcEntry`, on the bytes from `end_pos` on. -/
def scan (proc_stat : List UInt16) (index : Nat) : List UInt8 → Nat → Nat → Nat → Bool → Option (List UInt16)
  | [], start_pos, end_pos, current_index, _ => lastEntry proc_stat index start_pos end_pos current_index
  | b :: bs, start_pos, end_pos, current_index, proc_name =>
    if b = byte ' ' then
      if proc_name then scan proc_stat index bs start_pos (end_pos + 1) current_index proc_name
      else if current_index = index then some (mid proc_stat start_pos ((end_pos : Int) - start_pos))
      else scan proc_stat index bs (end_pos + 1) (end_pos + 1) (current_index + 1) proc_name
    else if b = byte '(' then scan proc_stat index bs (end_pos + 1) (end_pos + 1) current_index true
    else if b = byte ')' then
      if current_index = index then some (mid proc_stat start_pos ((end_pos : Int) - start_pos))
      else
        match bs with
        | [] => lastEntry proc_stat index (end_pos + 2) (end_pos + 2) (current_index + 1)
        | _ :: bs => scan proc_stat index bs (end_pos + 2) (end_pos + 2) (current_index + 1) false
    else scan proc_stat index bs start_pos (end_pos + 1) current_index proc_name

/-- The bytes the loop can see: it ends at the size of the text in code units. -/
def window (l : List Char) : List UInt8 := (toStdString l).take (units l).length

def readEntry (text : List Char) (index : Nat) : Option (List UInt16) :=
  scan (units text) index (window text) 0 0 0 false

/-- Errors can be blocked. -/
def reportEntry (error : Bool) (msg : String) (c : AutopinContext) : AutopinContext :=
  if error then c.report .system "access_proc" msg else c

/-- `OSServices::getProcEntry`, where `stat` tells what a read of the stat file of a task finds. -/
def getProcEntry (stat : Int → Option (List Char)) (tid index : Int) (error : Bool) (c : AutopinContext) :
    List UInt16 × AutopinContext :=
  if index < 0 ∨ 43 < index then
    ([], reportEntry error ("Invalid index for stat file of: " ++ toString index) c)
  else
    match (stat tid).bind fun text => readEntry text index.toNat with
    | some result => (result, c)
    | none => ([], reportEntry error ("Could not get status information for process " ++ toString tid) c)

/-- Only the stat file of the task is read. -/
theorem getProcEntry_text_only (stat : Int → Option (List Char)) (tid index : Int) (error : Bool) (c : AutopinContext) :
    getProcEntry stat tid index error c = getProcEntry (fun _ => stat tid) tid index error c := rfl

/-- The entry itself, whatever is reported. -/
def entryOf (stat : Int → Option (List Char)) (tid index : Int) : List UInt16 :=
  if index < 0 ∨ 43 < index then [] else ((stat tid).bind fun text => readEntry text index.toNat).getD []

theorem getProcEntry_fst (stat : Int → Option (List Char)) (tid index : Int) (error : Bool) (c : AutopinContext) :
    (getProcEntry stat tid index error c).1 = entryOf stat tid index := by
  unfold getProcEntry entryOf
  by_cases h : index < 0 ∨ 43 < index
  · rw [if_pos h, if_pos h]
  · rw [if_neg h, if_neg h]
    cases (stat tid).bind fun text => readEntry text index.toNat <;> rfl

theorem getProcEntry_silent (stat : Int → Option (List Char)) (tid index : Int) (c : AutopinContext) :
    getProcEntry stat tid index false c = (entryOf stat tid index, c) := by
  apply Prod.ext
  · exact getProcEntry_fst stat tid index false c
  · unfold getProcEntry
    by_cases h : index < 0 ∨ 43 < index
    · rw [if_pos h]
      rfl
    · rw [if_neg h]
      cases (stat tid).bind fun text => readEntry text index.toNat <;> rfl

/-! ## What has been passed can be forgotten -/

/-- A byte that neither ends an entry nor opens a name. -/
def Quiet (b : UInt8) : Prop := b ≠ byte ' ' ∧ b ≠ byte '(' ∧ b ≠ byte ')'

variable {stat : List UInt16} {index start_pos end_pos current : Nat} {name : Bool}

theorem scan_blank (bs : List UInt8) :
    scan stat index (byte ' ' :: bs) start_pos end_pos current name =
      if name then scan stat index bs start_pos (end_pos + 1) current name
      else if current = index then some (mid stat start_pos ((end_pos : Int) - start_pos))
      else scan stat index bs (end_pos + 1) (end_pos + 1) (current + 1) name := by
  rw [scan.eq_def]
  rfl

theorem scan_open (bs : List UInt8) :
    scan stat index (byte '(' :: bs) start_pos end_pos current name =
      scan stat index bs (end_pos + 1) (end_pos + 1) current true := by
  rw [scan.eq_def]
  rfl

theorem scan_close_self (hc : current = index) (bs : List UInt8) :
    scan stat index (byte ')' :: bs) start_pos end_pos current name =
      some (mid stat start_pos ((end_pos : Int) - start_pos)) := by
  rw [scan.eq_def]
  exact if_pos hc

theorem scan_close (hc : current ≠ index) (d : UInt8) (bs : List UInt8) :
    scan stat index (byte ')' :: d :: bs) start_pos end_pos current name =
      scan stat index bs (end_pos + 2) (end_pos + 2) (current + 1) false := by
  rw [scan.eq_def]
  exact if_neg hc

theorem scan_close_last (hc : current ≠ index) :
    scan stat index [byte ')'] start_pos end_pos current name =
      lastEntry stat index (end_pos + 2) (end_pos + 2) (current + 1) := by
  rw [scan.eq_def]
  exact if_neg hc

theorem scan_quiet {b : UInt8} (h : Quiet b) (bs : List UInt8) :
    scan stat index (b :: bs) start_pos end_pos current name =
      scan stat index bs start_pos (end_pos + 1) current name := by
  rw [scan.eq_def]
  exact (if_neg h.1).trans ((if_neg h.2.1).trans (if_neg h.2.2))

theorem scan_run {w : List UInt8} (h : ∀ b ∈ w, Quiet b) (bs : List UInt8) :
    scan stat index (w ++ bs) start_pos end_pos current name =
      scan stat index bs start_pos (end_pos + w.length) current name := by
  induction w generalizing end_pos with
  | nil => rfl
  | cons b w ih =>
    rw [List.cons_append, scan_quiet (h b List.mem_cons_self), ih (fun d hd => h d (List.mem_cons_of_mem b hd)),
      List.length_cons]
    congr 1
    omega

theorem scan_to_end {w : List UInt8} (h : ∀ b ∈ w, Quiet b) :
    scan stat index w start_pos end_pos current name =
      lastEntry stat index start_pos (end_pos + w.length) current := by
  have hrun := @scan_run stat index start_pos end_pos current name w h []
  rwa [List.append_nil, scan] at hrun

/-- Blanks do not end a name. -/
theorem scan_name {w : List UInt8} (h : ∀ b ∈ w, b ≠ byte '(' ∧ b ≠ byte ')') (bs : List UInt8) :
    scan stat index (w ++ bs) start_pos end_pos current true =
      scan stat index bs start_pos (end_pos + w.length) current true := by
  induction w generalizing end_pos with
  | nil => rfl
  | cons b w ih =>
    have hrest := @ih (end_pos + 1) (fun d hd => h d (List.mem_cons_of_mem b hd))
    have hb := h b List.mem_cons_self
    have hlen : end_pos + (b :: w).length = end_pos + 1 + w.length := by
      rw [List.length_cons]
      omega
    rw [hlen, ← hrest, List.cons_append]
    by_cases hblank : b = byte ' '
    · rw [hblank, scan_blank, if_pos rfl]
    · exact scan_quiet ⟨hblank, hb⟩ _

/-- Inside a name everything up to a closing parenthesis and the byte after it is skipped. -/
theorem scan_closed {w : List UInt8} (h : ∀ b ∈ w, b ≠ byte ')') (hc : current ≠ index) (d : UInt8)
    (bs : List UInt8) :
    scan stat index (w ++ byte ')' :: d :: bs) start_pos end_pos current true =
      scan stat index bs (end_pos + w.length + 2) (end_pos + w.length + 2) (current + 1) false := by
  induction w generalizing start_pos end_pos with
  | nil => exact scan_close hc d bs
  | cons b w ih =>
    have hrest := fun s => @ih s (end_pos + 1) (fun d hd => h d (List.mem_cons_of_mem b hd))
    have hlen : end_pos + (b :: w).length = end_pos + 1 + w.length := by
      rw [List.length_cons]
      omega
    rw [hlen, List.cons_append]
    by_cases hblank : b = byte ' '
    · rw [hblank, scan_blank, if_pos rfl, hrest]
    · by_cases hopen : b = byte '('
      · rw [hopen, scan_open, hrest]
      · rw [scan_quiet ⟨hblank, hopen, h b List.mem_cons_self⟩, hrest]

theorem lastEntry_shift (x : List UInt16) :
    lastEntry (x ++ stat) index (x.length + start_pos) (x.length + end_pos) current =
      lastEntry stat index start_pos end_pos current := by
  unfold lastEntry
  rw [mid_append]
  congr 3
  omega

theorem scan_shift (x : List UInt16) (bs : List UInt8) :
    scan (x ++ stat) index bs (x.length + start_pos) (x.length + end_pos) current name =
      scan stat index bs start_pos end_pos current name := by
  have hmid : ∀ s e : Nat, mid (x ++ stat) (x.length + s) (((x.length + e : Nat) : Int) - (x.length + s : Nat)) =
      mid stat s ((e : Int) - s) := by
    intro s e
    rw [mid_append]
    congr 1
    omega
  fun_induction scan stat index bs start_pos end_pos current name with
  | case1 => exact lastEntry_shift x
  | case2 bs s e k ih =>
    rw [scan_blank, if_pos rfl]
    exact ih
  | case3 bs s e name hname =>
    rw [scan_blank, if_neg hname, if_pos rfl, hmid]
  | case4 bs s e k name hname hk ih =>
    rw [scan_blank, if_neg hname, if_neg hk]
    exact ih
  | case5 bs s e k name hb ih =>
    rw [scan_open]
    exact ih
  | case6 bs s e name h1 h2 =>
    rw [scan_close_self rfl, hmid]
  | case7 s e k name hk h1 h2 =>
    rw [scan_close_last hk, Nat.add_assoc]
    exact lastEntry_shift x
  | case8 s e k name hk d bs h1 h2 ih =>
    rw [scan_close hk, Nat.add_assoc]
    exact ih
  | case9 b bs s e k name h1 h2 h3 ih =>
    rw [scan_quiet ⟨h1, h2, h3⟩]
    exact ih

/-! ## Reading from a place where bytes and code units agree -/

def readFrom (rest : List Char) (index current : Nat) (name : Bool) : Option (List UInt16) :=
  scan (units rest) index (window rest) 0 0 current name

theorem window_append {l : List Char} (h : ∀ c ∈ l, IsAscii c) (rest : List Char) :
    window (l ++ rest) = l.map byte ++ window rest := by
  have hlen : (units l).length = (l.map byte).length := by rw [length_units_ascii h, List.length_map]
  rw [window, toStdString_append, toStdString_ascii h, units_append, List.length_append, hlen,
    List.take_length_add_append]
  rfl

theorem scan_forget {l : List Char} (h : ∀ c ∈ l, IsAscii c) (rest : List Char) (index current : Nat) (name : Bool) :
    scan (units (l ++ rest)) index (window rest) l.length l.length current name =
      readFrom rest index current name := by
  have hshift := @scan_shift (units rest) index 0 0 current name (units l) (window rest)
  rwa [Nat.add_zero, length_units_ascii h, ← units_append] at hshift

theorem mid_front {l : List Char} (h : ∀ c ∈ l, IsAscii c) (rest : List Char) :
    mid (units (l ++ rest)) 0 l.length = units l := by
  have hmid := mid_zero (units l) (units rest)
  rwa [length_units_ascii h, ← units_append] at hmid

/-- A word of the text, which is not empty and can be told from the rest. -/
def Plain (w : List Char) : Prop := w ≠ [] ∧ ∀ c ∈ w, IsAscii c ∧ c ≠ ' ' ∧ c ≠ '(' ∧ c ≠ ')'

instance (w : List Char) : Decidable (Plain w) := inferInstanceAs (Decidable (_ ∧ _))

theorem Plain.ascii {w : List Char} (h : Plain w) : ∀ c ∈ w, IsAscii c := fun c hc => (h.2 c hc).1

theorem Plain.quiet {w : List Char} (h : Plain w) : ∀ b ∈ w.map byte, Quiet b := by
  intro b hb
  obtain ⟨c, hc, rfl⟩ := List.mem_map.mp hb
  obtain ⟨ha, hblank, hopen, hclose⟩ := h.2 c hc
  exact ⟨byte_ne ha (by decide) hblank, byte_ne ha (by decide) hopen, byte_ne ha (by decide) hclose⟩

theorem ascii_append_singleton {w : List Char} (h : ∀ c ∈ w, IsAscii c) {e : Char} (he : IsAscii e) :
    ∀ c ∈ w ++ [e], IsAscii c := by
  intro c hc
  obtain hc | hc := List.mem_append.mp hc
  · exact h c hc
  · rw [List.mem_singleton.mp hc]
    exact he

theorem window_word {w : List Char} (h : ∀ c ∈ w, IsAscii c) {e : Char} (he : IsAscii e) (rest : List Char) :
    window (w ++ e :: rest) = w.map byte ++ byte e :: window rest := by
  rw [List.append_cons, window_append (ascii_append_singleton h he), List.map_append, List.append_assoc]
  rfl

theorem readFrom_word {w : List Char} (h : Plain w) (rest : List Char) :
    readFrom (w ++ ' ' :: rest) index current false =
      if current = index then some (units w) else readFrom rest index (current + 1) false := by
  have hblank : IsAscii ' ' := by decide
  rw [readFrom, window_word h.ascii hblank, scan_run h.quiet, scan_blank, if_neg Bool.false_ne_true,
    List.length_map, Nat.zero_add]
  split
  · rw [Int.natCast_zero, Int.sub_zero, mid_front h.ascii]
  · have hrest := scan_forget (ascii_append_singleton h.ascii hblank) rest index (current + 1) false
    rwa [List.length_append, ← List.append_cons] at hrest

theorem readFrom_open (rest : List Char) :
    readFrom ('(' :: rest) index current name = readFrom rest index current true := by
  have hopen : ∀ c ∈ ['('], IsAscii c := by decide
  have hwindow : window ('(' :: rest) = byte '(' :: window rest := window_append hopen rest
  rw [readFrom, hwindow, scan_open]
  exact scan_forget hopen rest index current true

theorem readFrom_last {w : List Char} (h : Plain w) :
    readFrom (w ++ ['\n']) index current false = if index = current then some (units w) else none := by
  have hnl : IsAscii '\n' := by decide
  have hquiet : ∀ b ∈ (w ++ ['\n']).map byte, Quiet b := by
    rw [List.map_append]
    intro b hb
    obtain hb | hb := List.mem_append.mp hb
    · exact h.quiet b hb
    · rw [List.mem_singleton.mp hb]
      unfold Quiet
      decide
  have hwindow : window (w ++ ['\n']) = (w ++ ['\n']).map byte := by
    rw [window_word h.ascii hnl, List.map_append]
    rfl
  have hlen : ((0 + ((w ++ ['\n']).map byte).length : Nat) : Int) - (0 : Nat) - 1 = w.length := by
    simp
  rw [readFrom, hwindow, scan_to_end hquiet, lastEntry, hlen, mid_front h.ascii]

/-- What is known of the name makes no difference for where it ends. -/
def Harmless (comm : List Char) : Prop := ∀ c ∈ comm, IsAscii c ∧ c ≠ ')'

instance (comm : List Char) : Decidable (Harmless comm) := inferInstanceAs (Decidable (∀ _ ∈ _, _))

theorem Harmless.ascii {comm : List Char} (h : Harmless comm) : ∀ c ∈ comm, IsAscii c := fun c hc => (h c hc).1

theorem window_name {comm : List Char} (h : ∀ c ∈ comm, IsAscii c) (rest : List Char) :
    window (comm ++ ')' :: ' ' :: rest) = comm.map byte ++ byte ')' :: byte ' ' :: window rest := by
  have hblank : window (' ' :: rest) = byte ' ' :: window rest :=
    window_append (by decide : ∀ c ∈ [' '], IsAscii c) rest
  rw [window_word h (by decide), hblank]

theorem scan_forget_name {comm : List Char} (h : ∀ c ∈ comm, IsAscii c) (rest : List Char) (index current : Nat) :
    scan (units (comm ++ ')' :: ' ' :: rest)) index (window rest) (comm.length + 2) (comm.length + 2) current false =
      readFrom rest index current false := by
  have hascii := ascii_append_singleton (ascii_append_singleton h (by decide : IsAscii ')')) (by decide : IsAscii ' ')
  have hforget := scan_forget hascii rest index current false
  simpa using hforget

/-- Where the name is not asked for, it is passed over. -/
theorem readFrom_harmless {comm : List Char} (h : Harmless comm) (rest : List Char) (hc : current ≠ index) :
    readFrom (comm ++ ')' :: ' ' :: rest) index current true = readFrom rest index (current + 1) false := by
  have hbytes : ∀ b ∈ comm.map byte, b ≠ byte ')' := by
    intro b hb
    obtain ⟨c, hc, rfl⟩ := List.mem_map.mp hb
    exact byte_ne (h.ascii c hc) (by decide) (h c hc).2
  rw [readFrom, window_name h.ascii, scan_closed hbytes hc, List.length_map, Nat.zero_add]
  exact scan_forget_name h.ascii rest index (current + 1)

theorem readFrom_name {comm : List Char} (h : ∀ c ∈ comm, IsAscii c ∧ c ≠ '(' ∧ c ≠ ')') (rest : List Char) :
    readFrom (comm ++ ')' :: ' ' :: rest) index current true =
      if current = index then some (units comm) else readFrom rest index (current + 1) false := by
  have hascii : ∀ c ∈ comm, IsAscii c := fun c hc => (h c hc).1
  split
  · next hc =>
    have hbytes : ∀ b ∈ comm.map byte, b ≠ byte '(' ∧ b ≠ byte ')' := by
      intro b hb
      obtain ⟨c, hc, rfl⟩ := List.mem_map.mp hb
      exact ⟨byte_ne (hascii c hc) (by decide) (h c hc).2.1, byte_ne (hascii c hc) (by decide) (h c hc).2.2⟩
    rw [readFrom, window_name hascii, scan_name hbytes, scan_close_self hc, List.length_map, Nat.zero_add,
      Int.natCast_zero, Int.sub_zero, mid_front hascii]
  · next hc => exact readFrom_harmless (fun c hc => ⟨hascii c hc, (h c hc).2.2⟩) rest hc

/-- The entries of a list of words that ends with a newline. -/
theorem readFrom_fields {fields : List (List Char)} (hne : fields ≠ []) (h : ∀ f ∈ fields, Plain f)
    (hc : current ≤ index) :
    readFrom ([' '].intercalate fields ++ ['\n']) index current false = (fields[index - current]?).map units := by
  induction fields generalizing current with
  | nil => exact absurd rfl hne
  | cons f fields ih =>
    have hf := h f List.mem_cons_self
    cases fields with
    | nil =>
      have hone : [' '].intercalate [f] = f := by simp [List.intercalate]
      rw [hone, readFrom_last hf]
      split
      · next heq => simp [heq]
      · next hne =>
        have hpos : index - current ≠ 0 := by omega
        simp [hpos]
    | cons g fields =>
      rw [List.intercalate_cons_cons, List.append_assoc, List.append_assoc, List.singleton_append, readFrom_word hf]
      split
      · next heq => simp [heq]
      · next hne =>
        have hrest := @ih (current + 1) (List.cons_ne_nil g fields)
          (fun d hd => h d (List.mem_cons_of_mem f hd)) (by omega)
        have hsub : index - current = index - (current + 1) + 1 := by omega
        rw [hrest, hsub, List.getElem?_cons_succ]

/-! ## Stat texts -/

def statText (pid comm rest : List Char) : List Char := pid ++ ' ' :: '(' :: (comm ++ ')' :: ' ' :: rest)

theorem readEntry_statText {pid : List Char} (hpid : Plain pid) (comm rest : List Char) (index : Nat) :
    readEntry (statText pid comm rest) index =
      if 0 = index then some (units pid) else readFrom (comm ++ ')' :: ' ' :: rest) index 1 true := by
  change readFrom (pid ++ ' ' :: '(' :: (comm ++ ')' :: ' ' :: rest)) index 0 false = _
  rw [readFrom_word hpid, readFrom_open]

/-- What the kernel writes about a process, apart from its name. -/
structure Stat where
  pid : List Char
  fields : List (List Char)
  plain : ∀ w ∈ pid :: fields, Plain w
  nonempty : fields ≠ []

namespace Stat

def text (s : Stat) (comm : List Char) : List Char :=
  statText s.pid comm ([' '].intercalate s.fields ++ ['\n'])

def entries (s : Stat) (comm : List Char) : List (List Char) := s.pid :: comm :: s.fields

/-- A harmless name hides no field. -/
theorem readEntry_field (s : Stat) {comm : List Char} (h : Harmless comm) (i : Nat) :
    readEntry (s.text comm) (i + 2) = (s.fields[i]?).map units := by
  have hpid : Plain s.pid := s.plain s.pid List.mem_cons_self
  have hfields : ∀ f ∈ s.fields, Plain f := fun f hf => s.plain f (List.mem_cons_of_mem s.pid hf)
  rw [text, readEntry_statText hpid, if_neg (by omega), readFrom_harmless h _ (by omega),
    readFrom_fields s.nonempty hfields (by omega)]
  rfl

theorem readEntry_text (s : Stat) {comm : List Char} (h : ∀ c ∈ comm, IsAscii c ∧ c ≠ '(' ∧ c ≠ ')') (index : Nat) :
    readEntry (s.text comm) index = ((s.entries comm)[index]?).map units := by
  have hpid : Plain s.pid := s.plain s.pid List.mem_cons_self
  match index with
  | 0 =>
    rw [text, readEntry_statText hpid]
    rfl
  | 1 =>
    rw [text, readEntry_statText hpid, if_neg (by omega), readFrom_name h, if_pos rfl]
    rfl
  | i + 2 => exact s.readEntry_field (fun c hc => ⟨(h c hc).1, (h c hc).2.2⟩) i

end Stat

/-- The scanner finds every entry of a stat text, and nothing where there is none. -/
theorem getProcEntry_text (s : Stat) {comm : List Char} (h : ∀ c ∈ comm, IsAscii c ∧ c ≠ '(' ∧ c ≠ ')')
    {stat : Int → Option (List Char)} {tid : Int} (hstat : stat tid = some (s.text comm)) (index : Int) (error : Bool)
    (c : AutopinContext) :
    (getProcEntry stat tid index error c).1 =
      if 0 ≤ index ∧ index ≤ 43 then (((s.entries comm)[index.toNat]?).map units).getD [] else [] := by
  rw [getProcEntry_fst, entryOf]
  by_cases hindex : index < 0 ∨ 43 < index
  · rw [if_pos hindex, if_neg (by omega)]
  · rw [if_neg hindex, if_pos (by omega), hstat, Option.bind_some, s.readEntry_text h]

/-- A process whose name has a blank in it. -/
def twoWords : Stat where
  pid := "12".toList
  fields := ["S".toList, "10".toList]
  plain := by decide
  nonempty := by decide

theorem getProcEntry_twoWords :
    (getProcEntry (fun _ => some (twoWords.text "my prog".toList)) 12 3 true {}).1 = units "10".toList := by
  have hcomm : ∀ c ∈ "my prog".toList, IsAscii c ∧ c ≠ '(' ∧ c ≠ ')' := by decide
  rw [getProcEntry_text twoWords hcomm rfl 3 true {}]
  decide +kernel

/-- A field that is not ASCII is cut too late. -/
theorem getProcEntry_not_ascii :
    (getProcEntry (fun _ => some (statText ['1'] ['a'] ([' '].intercalate [['é'], ['x']] ++ ['\n']))) 1 2 true {}).1 =
        units ['é', ' '] ∧
      units ['é', ' '] ≠ units ['é'] := by
  decide +kernel

/-! ## What a name can do to the other entries -/

/-- The name makes no difference for any other entry. -/
def NoInfluence (comm comm' : List Char) : Prop :=
  ∀ pid rest, Plain pid → ∀ (tid index : Int) (error : Bool) (c : AutopinContext), index ≠ 1 →
    getProcEntry (fun _ => some (statText pid comm rest)) tid index error c =
      getProcEntry (fun _ => some (statText pid comm' rest)) tid index error c

theorem readEntry_harmless {pid comm : List Char} (hpid : Plain pid) (h : Harmless comm) (rest : List Char)
    {index : Nat} (hi : index ≠ 1) :
    readEntry (statText pid comm rest) index = if 0 = index then some (units pid) else readFrom rest index 2 false := by
  rw [readEntry_statText hpid, readFrom_harmless h rest (Ne.symm hi)]

theorem window_prefix {l rest : List Char} (h : (toStdString l).length ≤ (units (l ++ rest)).length) :
    window (l ++ rest) =
      toStdString l ++ (toStdString rest).take ((units (l ++ rest)).length - (toStdString l).length) := by
  rw [window, toStdString_append, List.take_append, List.take_of_length_le h]

theorem length_entry (hpos : start_pos ≤ end_pos) :
    (mid stat start_pos ((end_pos : Int) - start_pos)).length ≤ end_pos - start_pos := by
  have := length_mid_le stat start_pos (by omega : (0 : Int) ≤ (end_pos : Int) - start_pos)
  omega

/-- An entry that is asked for ends at the next closing parenthesis. -/
theorem scan_stops (v bs : List UInt8) (hpos : start_pos ≤ end_pos) :
    ∃ r, scan stat index (v ++ byte ')' :: bs) start_pos end_pos index name = some r ∧
      r.length ≤ end_pos - start_pos + v.length := by
  induction v generalizing start_pos end_pos name with
  | nil => exact ⟨_, scan_close_self rfl bs, length_entry hpos⟩
  | cons b v ih =>
    have hentry := @length_entry stat start_pos end_pos hpos
    rw [List.cons_append, List.length_cons]
    by_cases hblank : b = byte ' '
    · rw [hblank, scan_blank]
      cases name with
      | true =>
        obtain ⟨r, hr, hlen⟩ := @ih start_pos (end_pos + 1) true (by omega)
        exact ⟨r, hr, by omega⟩
      | false => exact ⟨_, (if_neg Bool.false_ne_true).trans (if_pos rfl), by omega⟩
    · by_cases hopen : b = byte '('
      · obtain ⟨r, hr, hlen⟩ := @ih (end_pos + 1) (end_pos + 1) true (Nat.le_refl _)
        exact ⟨r, by rw [hopen, scan_open, hr], by omega⟩
      · by_cases hclose : b = byte ')'
        · exact ⟨_, by rw [hclose, scan_close_self rfl], by omega⟩
        · obtain ⟨r, hr, hlen⟩ := @ih start_pos (end_pos + 1) name (by omega)
          exact ⟨r, by rw [scan_quiet ⟨hblank, hopen, hclose⟩, hr], by omega⟩

/-- A long third entry. -/
def filler (m : Nat) : List Char := List.replicate m 'x'

theorem filler_plain {m : Nat} (hm : 0 < m) : Plain (filler m) := by
  constructor
  · intro h
    have := congrArg List.length h
    simp [filler] at this
    omega
  · intro c hc
    rw [List.eq_of_mem_replicate hc]
    decide

theorem filler_ascii (m : Nat) : ∀ c ∈ filler m ++ ['\n'], IsAscii c := by
  apply ascii_append_singleton
  · intro c hc
    rw [List.eq_of_mem_replicate hc]
    decide
  · decide

theorem filler_quiet (m : Nat) : ∀ b ∈ toStdString (filler m ++ ['\n']), Quiet b := by
  intro b hb
  rw [toStdString_ascii (filler_ascii m)] at hb
  obtain ⟨c, hc, rfl⟩ := List.mem_map.mp hb
  obtain hc | hc := List.mem_append.mp hc
  · rw [List.eq_of_mem_replicate hc]
    unfold Quiet
    decide
  · rw [List.mem_singleton.mp hc]
    unfold Quiet
    decide

theorem window_behind {comm : List Char} {m : Nat} (hm : (toStdString comm).length ≤ m) :
    window (comm ++ ')' :: ' ' :: (filler m ++ ['\n'])) =
      toStdString comm ++ byte ')' :: byte ' ' :: (toStdString (filler m ++ ['\n'])).take
        ((units comm).length + (m + 1) - (toStdString comm).length) := by
  have hrest : (units (filler m ++ ['\n'])).length = m + 1 := by
    rw [length_units_ascii (filler_ascii m)]
    simp [filler]
  have hunits : (units (comm ++ [')', ' '] ++ (filler m ++ ['\n']))).length = (units comm).length + 2 + (m + 1) := by
    rw [units_append, units_append, List.length_append, List.length_append, hrest]
    rfl
  have hbytes : (toStdString (comm ++ [')', ' '])).length = (toStdString comm).length + 2 := by
    rw [toStdString_append, List.length_append]
    rfl
  have hclosed : toStdString [')', ' '] = [byte ')', byte ' '] := by decide
  have htext : comm ++ ')' :: ' ' :: (filler m ++ ['\n']) = comm ++ [')', ' '] ++ (filler m ++ ['\n']) := by simp
  have hlen : (units comm).length + 2 + (m + 1) - ((toStdString comm).length + 2) =
      (units comm).length + (m + 1) - (toStdString comm).length := by omega
  rw [htext, window_prefix (by omega), hunits, hbytes, hlen, toStdString_append, hclosed, List.append_assoc]
  rfl

/-- A closing parenthesis in the name ends it, and the third entry lies in the name or is empty. -/
theorem readFrom_closed_early {comm : List Char} (h : byte ')' ∈ toStdString comm) {m : Nat}
    (hm : (toStdString comm).length ≤ m) :
    ∃ r, readFrom (comm ++ ')' :: ' ' :: (filler m ++ ['\n'])) 2 1 true = some r ∧ r.length < m := by
  obtain ⟨w, v, hwv, hw⟩ := List.eq_append_cons_of_mem h
  have hquiet : ∀ b ∈ w, b ≠ byte ')' := fun b hb he => hw (he ▸ hb)
  have hlen : (toStdString comm).length = w.length + (v.length + 1) := by
    rw [hwv, List.length_append, List.length_cons]
  rw [readFrom, window_behind hm]
  generalize (toStdString (filler m ++ ['\n'])).take _ = behind
  rw [hwv, List.append_assoc, List.cons_append]
  cases v with
  | nil =>
    rw [List.nil_append, scan_closed hquiet (by omega), scan_blank, if_neg Bool.false_ne_true, if_pos rfl]
    exact ⟨_, rfl, Nat.lt_of_le_of_lt (length_entry (Nat.le_refl _)) (by omega)⟩
  | cons d v =>
    rw [List.cons_append, scan_closed hquiet (by omega)]
    obtain ⟨r, hr, hshort⟩ := scan_stops v (byte ' ' :: behind) (Nat.le_refl (0 + w.length + 2))
    rw [List.length_cons] at hlen
    exact ⟨r, hr, by omega⟩

/-- Behind bytes that are no code units the text ends too early. -/
theorem readFrom_shifted {comm : List Char} (h : byte ')' ∉ toStdString comm)
    (hlong : (units comm).length < (toStdString comm).length) {m : Nat} (hm : (toStdString comm).length ≤ m) :
    ∃ r, readFrom (comm ++ ')' :: ' ' :: (filler m ++ ['\n'])) 2 1 true = some r ∧ r.length < m := by
  have hquiet : ∀ b ∈ toStdString comm, b ≠ byte ')' := fun b hb he => h (he ▸ hb)
  have hbytes : (toStdString (filler m ++ ['\n'])).length = m + 1 := by
    rw [toStdString_ascii (filler_ascii m)]
    simp [filler]
  have hrest : ∀ b ∈ (toStdString (filler m ++ ['\n'])).take
      ((units comm).length + (m + 1) - (toStdString comm).length), Quiet b :=
    fun b hb => filler_quiet m b (List.mem_of_mem_take hb)
  have hlen : ((toStdString (filler m ++ ['\n'])).take
      ((units comm).length + (m + 1) - (toStdString comm).length)).length =
      (units comm).length + (m + 1) - (toStdString comm).length := by
    rw [List.length_take, hbytes]
    omega
  rw [readFrom, window_behind hm, scan_closed hquiet (by omega), scan_to_end hrest, hlen, lastEntry, if_pos rfl]
  refine ⟨_, rfl, Nat.lt_of_le_of_lt (length_mid_le _ _ ?_) ?_⟩
  · omega
  · omega

/-- Behind a name that is not harmless a long entry is not found whole. -/
theorem readFrom_short {comm : List Char} (h : ¬ Harmless comm) {m : Nat} (hm : (toStdString comm).length ≤ m) :
    ∃ r, readFrom (comm ++ ')' :: ' ' :: (filler m ++ ['\n'])) 2 1 true = some r ∧ r.length < m := by
  by_cases hclose : byte ')' ∈ toStdString comm
  · exact readFrom_closed_early hclose hm
  · have hmem : ')' ∉ comm := by
      intro hc
      apply hclose
      exact List.mem_flatMap.mpr ⟨')', hc, by decide⟩
    have hother : ∃ c ∈ comm, ¬ IsAscii c := by
      by_contra hn
      exact h (fun c hc => ⟨not_not.mp (fun ha => hn ⟨c, hc, ha⟩), fun he => hmem (he ▸ hc)⟩)
    obtain ⟨c, hc, ha⟩ := hother
    exact readFrom_shifted hclose (length_units_lt hc ha) hm

theorem not_noInfluence {comm comm' : List Char} (h : ¬ Harmless comm) (h' : Harmless comm') :
    ¬ NoInfluence comm comm' := by
  intro hno
  obtain ⟨m, hm⟩ : ∃ m, m = (toStdString comm).length + 1 := ⟨_, rfl⟩
  have hpid : Plain ['1'] := by decide
  have hfiller : Plain (filler m) := filler_plain (by omega)
  obtain ⟨r, hr, hshort⟩ := readFrom_short h (by omega : (toStdString comm).length ≤ m)
  have hread : readEntry (statText ['1'] comm (filler m ++ ['\n'])) 2 = some r := by
    rw [readEntry_statText hpid, if_neg (by omega), hr]
  have hread' : readEntry (statText ['1'] comm' (filler m ++ ['\n'])) 2 = some (units (filler m)) := by
    rw [readEntry_harmless hpid h' _ (by omega), if_neg (by omega), readFrom_last hfiller, if_pos rfl]
  have heq := congrArg Prod.fst (hno ['1'] (filler m ++ ['\n']) hpid 1 2 false {} (by omega))
  rw [getProcEntry_fst, getProcEntry_fst] at heq
  change (readEntry _ 2).getD [] = (readEntry _ 2).getD [] at heq
  rw [hread, hread', Option.getD_some, Option.getD_some] at heq
  rw [heq, length_units_ascii hfiller.ascii, filler, List.length_replicate] at hshort
  omega

theorem NoInfluence.symm {comm comm' : List Char} (h : NoInfluence comm comm') : NoInfluence comm' comm :=
  fun pid rest hpid tid index error c hi => (h pid rest hpid tid index error c hi).symm

theorem harmless_noInfluence {comm comm' : List Char} (h : Harmless comm) (h' : Harmless comm') :
    NoInfluence comm comm' := by
  intro pid rest hpid tid index error c hi
  unfold getProcEntry
  by_cases hrange : index < 0 ∨ 43 < index
  · rw [if_pos hrange, if_pos hrange]
  · have hname : index.toNat ≠ 1 := by omega
    rw [if_neg hrange, if_neg hrange, Option.bind_some, Option.bind_some, readEntry_harmless hpid h rest hname,
      readEntry_harmless hpid h' rest hname]

/-- Two names, one of which is harmless, show the same other entries exactly if both are. -/
theorem noInfluence_iff {comm comm' : List Char} (h : Harmless comm ∨ Harmless comm') :
    NoInfluence comm comm' ↔ Harmless comm ∧ Harmless comm' := by
  constructor
  · intro hno
    obtain hc | hc := h
    · exact ⟨hc, not_not.mp (fun hn => not_noInfluence hn hc hno.symm)⟩
    · exact ⟨not_not.mp (fun hn => not_noInfluence hn hc hno), hc⟩
  · exact fun hboth => harmless_noInfluence hboth.1 hboth.2

theorem noInfluence_opened : NoInfluence "sh".toList "my (prog".toList :=
  (noInfluence_iff (.inl (by decide))).mpr ⟨by decide, by decide⟩

/-- The parent of process 12 is read as 1. -/
theorem influence_closed :
    ¬ NoInfluence "x) S 1".toList "x".toList ∧
      (getProcEntry (fun _ => some "12 (x) S 1) S 10 12\n".toList) 12 3 false {}).1 = units ['1'] ∧
      (getProcEntry (fun _ => some "12 (x) S 10 12\n".toList) 12 3 false {}).1 = units ['1', '0'] := by
  refine ⟨?_, by decide +kernel, by decide +kernel⟩
  intro h
  have := h "12".toList "S 10 12\n".toList (by decide) 12 3 false {} (by decide)
  revert this
  decide +kernel

end StatFile

end AutopinPlus
