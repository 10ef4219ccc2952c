import AutopinPlus.SampleRecords
import AutopinPlus.PartialStep
import AutopinPlus.SlotTable

/-!
# The reader of the samples

`read_samples` goes around the cores: it moves what their rings hold into one circular buffer and hands the
entries that are new to `consume_sample`, until it is told to end. Meanwhile the kernel writes to the rings.
-/
namespace AutopinPlus

/-! ## The circular buffer -/

/-- `BUFFER_SIZE` -/
def bufferSize : Nat := 500

theorem bufferSize_pos : 0 < bufferSize := Nat.zero_lt_succ 499

/-- `ll_record` and `nrec_ll`. -/
structure Recbuf where
  recArr : List LlRec
  nrec : Nat
  size : recArr.length = bufferSize
  bound : nrec < bufferSize

namespace LlRec

/-- Just the user-land process is considered. -/
def userLand (rec : LlRec) : Bool := ¬ (rec.pid = 0 ∨ rec.tid = 0)

end LlRec

namespace Recbuf

/-- `ll_recbuf_update` -/
def update (b : Recbuf) (rec : LlRec) : Recbuf :=
  if rec.userLand then
    { recArr := b.recArr.set b.nrec rec
      nrec := if b.nrec = bufferSize - 1 then 0 else b.nrec + 1
      size := by rw [List.length_set, b.size]
      bound := by
        have := b.bound
        split_ifs <;> unfold bufferSize at * <;> omega }
  else b

/-- `wr_diff_ll` -/
def wrDiff (b : Recbuf) (lastRead : Nat) : Nat :=
  if b.nrec ≥ lastRead then b.nrec - lastRead else b.nrec + bufferSize - lastRead

/-- The entries handed to `consume_sample`, counting `wr_diff_ll` down. -/
def samples (b : Recbuf) : Nat → Option (List LlRec)
  | 0 => some []
  | wrDiff + 1 => do
    let current : Int := b.nrec - (wrDiff + 1 : Nat)
    let current := if current < 0 then bufferSize + current else current
    let sample ← PartialStep.subscript b.recArr current
    let later ← b.samples wrDiff
    some (sample :: later)

/-- The buffer after these entries. -/
structure Holds (b : Recbuf) (stream : List LlRec) : Prop where
  cells : RingBuffer.Holds b.recArr stream
  nrec : b.nrec = stream.length % bufferSize

theorem Holds.update {b : Recbuf} {stream : List LlRec} (h : b.Holds stream) (rec : LlRec) :
    (b.update rec).Holds (stream ++ if rec.userLand then [rec] else []) := by
  by_cases huser : rec.userLand
  · rw [Recbuf.update, if_pos huser, if_pos huser]
    refine ⟨?_, ?_⟩
    · have hput := h.cells.put rec
      rwa [RingBuffer.put, b.size, ← h.nrec] at hput
    · have hnrec := h.nrec
      simp only [List.length_append, List.length_singleton]
      unfold bufferSize at *
      split_ifs <;> omega
  · rw [Recbuf.update, if_neg huser, if_neg huser, List.append_nil]
    exact h

/-- The loop hands over the last entries, in the order they came. -/
theorem Holds.samples {b : Recbuf} {stream : List LlRec} (h : b.Holds stream) {n : Nat} (hn : n ≤ stream.length)
    (hsize : n < bufferSize) : b.samples n = some (stream.drop (stream.length - n)) := by
  induction n with
  | zero => simp [Recbuf.samples]
  | succ n ih =>
    have hcell : PartialStep.subscript b.recArr
        (if (b.nrec : Int) - (n + 1 : Nat) < 0 then bufferSize + ((b.nrec : Int) - (n + 1 : Nat))
          else (b.nrec : Int) - (n + 1 : Nat)) = stream[stream.length - (n + 1)]? := by
      have hindex : (if (b.nrec : Int) - (n + 1 : Nat) < 0 then bufferSize + ((b.nrec : Int) - (n + 1 : Nat))
          else (b.nrec : Int) - (n + 1 : Nat)) = ((stream.length - (n + 1)) % bufferSize : Nat) := by
        have hnrec := h.nrec
        unfold bufferSize at *
        split_ifs <;> omega
      have hread := h.cells (stream.length - (n + 1)) (by omega) (by rw [b.size]; omega)
      rw [b.size] at hread
      rw [hindex, PartialStep.subscript_natCast, hread]
    have hlt : stream.length - (n + 1) < stream.length := by omega
    have hdrop : stream.drop (stream.length - (n + 1)) =
        stream[stream.length - (n + 1)] :: stream.drop (stream.length - n) := by
      rw [List.drop_eq_getElem_cons hlt]
      congr 2
      omega
    rw [List.getElem?_eq_getElem hlt] at hcell
    simp only [Recbuf.samples, hcell, ih (by omega) (by omega), hdrop, Option.bind_eq_bind, Option.bind_some]

/-- What is left of the entries of one pass when the buffer has gone around whole times. -/
def recent (pass : List LlRec) : List LlRec := pass.drop (pass.length / bufferSize * bufferSize)

theorem recent_eq_self_iff (pass : List LlRec) : recent pass = pass ↔ pass.length < bufferSize := by
  constructor
  · intro h
    by_contra hge
    have hlength := congrArg List.length h
    rw [recent, List.length_drop] at hlength
    unfold bufferSize at *
    omega
  · intro h
    rw [recent, Nat.div_eq_of_lt h, Nat.zero_mul, List.drop_zero]

theorem length_recent_le (pass : List LlRec) : (recent pass).length ≤ pass.length := by
  rw [recent, List.length_drop]
  omega

/-- Of a list of passes nothing is left out exactly if each of them fits into the buffer. -/
theorem flatMap_recent_eq_iff (passes : List (Nat × List LlRec)) :
    passes.flatMap (fun pass => recent pass.2) = passes.flatMap Prod.snd ↔
      ∀ pass ∈ passes, pass.2.length < bufferSize := by
  constructor
  · intro h
    have hle : ∀ l : List (Nat × List LlRec),
        (l.flatMap fun pass => recent pass.2).length ≤ (l.flatMap Prod.snd).length := by
      intro l
      induction l with
      | nil => simp
      | cons pass l ih =>
        have := length_recent_le pass.2
        simp only [List.flatMap_cons, List.length_append]
        omega
    induction passes with
    | nil => simp
    | cons pass passes ih =>
      simp only [List.flatMap_cons] at h
      have hlength := congrArg List.length h
      have hhead := length_recent_le pass.2
      have htail := hle passes
      rw [List.length_append, List.length_append] at hlength
      obtain ⟨hpass, hpasses⟩ := List.append_inj h (by omega)
      exact List.forall_mem_cons.mpr ⟨(recent_eq_self_iff pass.2).mp hpass, ih hpasses⟩
  · intro h
    have hsame : ∀ pass ∈ passes, recent pass.2 = pass.2 :=
      fun pass hpass => (recent_eq_self_iff pass.2).mpr (h pass hpass)
    exact List.flatMap_congr hsame

/-- After a pass the loop hands over what `recent` says. -/
theorem Holds.samples_pass {b : Recbuf} {before pass : List LlRec} (h : b.Holds (before ++ pass)) :
    b.samples (b.wrDiff (before.length % bufferSize)) = some (recent pass) := by
  have hdiff : b.wrDiff (before.length % bufferSize) = pass.length % bufferSize := by
    have hnrec := h.nrec
    rw [List.length_append] at hnrec
    unfold Recbuf.wrDiff bufferSize at *
    split_ifs <;> omega
  have hmod : pass.length % bufferSize < bufferSize := Nat.mod_lt _ (by decide)
  have hle : pass.length % bufferSize ≤ pass.length := Nat.mod_le _ _
  rw [hdiff, h.samples (by rw [List.length_append]; omega) hmod, recent]
  have hsplit : (before ++ pass).length - pass.length % bufferSize =
      before.length + pass.length / bufferSize * bufferSize := by
    have := Nat.div_add_mod' pass.length bufferSize
    rw [List.length_append]
    omega
  rw [hsplit, ← List.drop_drop, List.drop_left]

end Recbuf

/-! ## The code -/

/-- The rings of the cores in `cpus_ll`, and `read_samples` with its buffer and its place in the loop.
`consumed` are the samples handed on so far. -/
structure SampleReader where
  cpus : List Mapping
  record : Recbuf
  lastRead : Nat := 0
  i : Nat := 0
  endRecording : Bool := false
  returned : Bool := false
  consumed : List LlRec := []

inductive SamplingEvent where
  /-- The kernel writes a record to the ring of a core. -/
  | output (cpu : Nat) (r : PerfRecord)
  /-- The reader makes one round of the loop of `pf_ll_record`. -/
  | round
  /-- Another thread sets `end_recording`. -/
  | stop

namespace SampleReader

/-- What follows the return of `pf_ll_record`. -/
def finishPass (s : SampleReader) : Option SampleReader :=
  if s.endRecording then some { s with returned := true }
  else do
    let samples ← s.record.samples (s.record.wrDiff s.lastRead)
    some { s with
      consumed := s.consumed ++ samples
      lastRead := s.record.nrec
      i := if s.i + 1 < s.cpus.length then s.i + 1 else 0 }

def readSamples (s : SampleReader) : Option SampleReader := do
  let m ← s.cpus[s.i]?
  let (rec, again, m) ← m.pfLlRecord
  let s := { s with
    cpus := s.cpus.set s.i m
    record := match rec with
      | some rec => s.record.update rec
      | none => s.record }
  if again then some s else s.finishPass

def step (s : SampleReader) : SamplingEvent → Option SampleReader
  | .output cpu r => some { s with cpus := s.cpus.modify cpu (fun m => m.perfOutput r.encode) }
  | .round => if s.returned then some s else s.readSamples
  | .stop => some { s with endRecording := true }

end SampleReader

/-! ## What it is for -/

/-- The records pending in one ring. `head` counts the bytes that went in, and `written` has the samples. -/
structure CoreRing where
  head : Nat := 0
  queue : List PerfRecord := []
  written : List LlRec := []

/-- The cores take turns; a turn ends when the ring is empty. `passes` has the samples of each turn
that has ended, with its core, and `pass` those of the turn that has not. -/
structure SampleQueues where
  cpus : List CoreRing
  i : Nat := 0
  endRecording : Bool := false
  returned : Bool := false
  pass : List LlRec := []
  passes : List (Nat × List LlRec) := []

namespace PerfRecord

/-- The sample of a record, if it is one of a user-land process. -/
def user (r : PerfRecord) : List LlRec := (r.taken.filter LlRec.userLand).toList

end PerfRecord

namespace CoreRing

def output (ring : RingSize) (c : CoreRing) (r : PerfRecord) : CoreRing :=
  if Mapping.Fits ring c.queue r then
    { head := c.head + r.encode.length, queue := c.queue ++ [r], written := c.written ++ r.user }
  else c

theorem output_head_le (ring : RingSize) (c : CoreRing) (r : PerfRecord) :
    (c.output ring r).head ≤ c.head + r.encode.length := by
  unfold output
  split_ifs
  · exact Nat.le_refl _
  · exact Nat.le_add_right _ _

end CoreRing

namespace SampleQueues

def next (q : SampleQueues) : Nat := if q.i + 1 < q.cpus.length then q.i + 1 else 0

/-- A turn takes one record, or ends. -/
def turn (q : SampleQueues) (c : CoreRing) : SampleQueues :=
  match c.queue with
  | r :: queue =>
    { q with
      cpus := q.cpus.set q.i { c with queue := r.leaves c.head queue }
      pass := q.pass ++ r.user }
  | [] =>
    if q.endRecording then { q with returned := true }
    else { q with passes := q.passes ++ [(q.i, q.pass)], pass := [], i := q.next }

def step (ring : RingSize) (q : SampleQueues) : SamplingEvent → SampleQueues
  | .output cpu r => { q with cpus := q.cpus.modify cpu (fun c => c.output ring r) }
  | .round =>
    if q.returned then q
    else match q.cpus[q.i]? with
      | some c => q.turn c
      | none => q
  | .stop => { q with endRecording := true }

def run (ring : RingSize) (q : SampleQueues) (events : List SamplingEvent) : SampleQueues :=
  events.foldl (step ring) q

/-- Everything that went into the buffer so far. -/
def stream (q : SampleQueues) : List LlRec := q.passes.flatMap Prod.snd ++ q.pass

end SampleQueues

/-! ## The code does that -/

/-- The ring of a core holds what the model says. -/
structure RingOf (ring : RingSize) (m : Mapping) (c : CoreRing) : Prop where
  ring : m.ring = ring
  head : m.dataHead = c.head
  queue : m.Represents c.queue

theorem RingOf.output {ring : RingSize} {m : Mapping} {c : CoreRing} (h : RingOf ring m c) (r : PerfRecord) :
    RingOf ring (m.perfOutput r.encode) (c.output ring r) := by
  have hqueue := h.queue.perfOutput r
  have hhead := h.queue.perfOutput_dataHead r
  rw [h.ring] at hqueue hhead
  rw [h.head] at hhead
  unfold CoreRing.output
  by_cases hfits : Mapping.Fits ring c.queue r
  · rw [if_pos hfits] at hqueue hhead ⊢
    exact ⟨by rw [Mapping.perfOutput_ring, h.ring], hhead, hqueue⟩
  · rw [if_neg hfits] at hqueue hhead ⊢
    exact ⟨by rw [Mapping.perfOutput_ring, h.ring], hhead, hqueue⟩

/-- The state of the code that belongs to a state of the model. -/
structure Simulates (ring : RingSize) (s : SampleReader) (q : SampleQueues) : Prop where
  length : s.cpus.length = q.cpus.length
  cpus : ∀ (j : Nat) (m : Mapping) (c : CoreRing), s.cpus[j]? = some m → q.cpus[j]? = some c → RingOf ring m c
  i : s.i = q.i
  endRecording : s.endRecording = q.endRecording
  returned : s.returned = q.returned
  record : s.record.Holds q.stream
  lastRead : s.lastRead = (q.passes.flatMap Prod.snd).length % bufferSize
  consumed : s.consumed = q.passes.flatMap (fun pass => Recbuf.recent pass.2)

/-- The counters of the rings have room for that many bytes more. -/
structure SampleQueues.InRange (q : SampleQueues) (n : Nat) : Prop where
  i : q.i < q.cpus.length
  heads : ∀ c ∈ q.cpus, c.head + n < 2 ^ 63

namespace Simulates

variable {ring : RingSize} {s : SampleReader} {q : SampleQueues}

theorem output (h : Simulates ring s q) (cpu : Nat) (r : PerfRecord) :
    ∃ t, s.step (.output cpu r) = some t ∧ Simulates ring t (q.step ring (.output cpu r)) := by
  refine ⟨_, rfl, ?_, ?_, h.i, h.endRecording, h.returned, h.record, h.lastRead, h.consumed⟩
  · simpa [SampleQueues.step] using h.length
  · intro j m c hm hc
    simp only [SampleQueues.step, List.getElem?_modify, Option.map_eq_map, Option.map_eq_some_iff] at hm hc
    obtain ⟨m', hm', rfl⟩ := hm
    obtain ⟨c', hc', rfl⟩ := hc
    have hring := h.cpus j m' c' hm' hc'
    by_cases hj : cpu = j
    · simpa [hj] using hring.output r
    · simpa [hj] using hring

theorem stop (h : Simulates ring s q) :
    ∃ t, s.step .stop = some t ∧ Simulates ring t (q.step ring .stop) :=
  ⟨_, rfl, h.length, h.cpus, h.i, rfl, h.returned, h.record, h.lastRead, h.consumed⟩

theorem next (h : Simulates ring s q) : (if s.i + 1 < s.cpus.length then s.i + 1 else 0) = q.next := by
  rw [SampleQueues.next, h.i, h.length]

/-- A round on an empty ring ends the turn of the core. -/
theorem finishPass (h : Simulates ring s q) {m : Mapping} {c : CoreRing} (hm : s.cpus[s.i]? = some m)
    (hqueue : c.queue = []) (hring : RingOf ring m c) :
    ∃ t, s.readSamples = some t ∧ Simulates ring t (q.turn c) := by
  have hempty := hring.queue
  rw [hqueue] at hempty
  have hsame : s.cpus.set s.i m = s.cpus := by
    obtain ⟨hlt, rfl⟩ := List.getElem?_eq_some_iff.mp hm
    exact List.set_getElem_self hlt
  have hread : s.readSamples = s.finishPass := by
    simp only [SampleReader.readSamples, hm, hempty.nil, hsame, Option.bind_eq_bind, Option.bind_some,
      Bool.false_eq_true, if_false]
  rw [hread, SampleReader.finishPass, SampleQueues.turn, hqueue, h.endRecording]
  by_cases hend : q.endRecording = true
  · rw [if_pos hend]
    refine ⟨_, rfl, ?_⟩
    simp only [if_pos hend]
    exact ⟨h.length, h.cpus, h.i, rfl, rfl, h.record, h.lastRead, h.consumed⟩
  · have hsamples := h.record.samples_pass
    rw [← h.lastRead] at hsamples
    rw [if_neg hend, hsamples]
    refine ⟨_, rfl, ?_⟩
    simp only [if_neg hend]
    have hstream : (q.passes ++ [(q.i, q.pass)]).flatMap Prod.snd ++ [] = q.stream := by
      simp [SampleQueues.stream]
    refine ⟨h.length, h.cpus, h.next, rfl, h.returned, ?_, ?_, ?_⟩
    · simpa only [SampleQueues.stream, hstream] using h.record
    · rw [List.append_nil] at hstream
      simpa only [hstream] using h.record.nrec
    · simp [h.consumed]

/-- A round on another takes a record. -/
theorem take (h : Simulates ring s q) {m : Mapping} {c : CoreRing} {r : PerfRecord} {queue : List PerfRecord}
    (hm : s.cpus[s.i]? = some m) (hqueue : c.queue = r :: queue) (hring : RingOf ring m c)
    (hhead : c.head < 2 ^ 63) :
    ∃ t, s.readSamples = some t ∧ Simulates ring t (q.turn c) := by
  have hrecords := hring.queue
  rw [hqueue] at hrecords
  obtain ⟨n, hround, hleft⟩ := hrecords.cons (by rw [hring.head]; exact hhead)
  rw [hring.head] at hleft
  have hread : s.readSamples = some { s with
      cpus := s.cpus.set s.i (m.advance n)
      record := match r.taken with
        | some rec => s.record.update rec
        | none => s.record } := by
    simp only [SampleReader.readSamples, hm, hround, Option.bind_eq_bind, Option.bind_some, if_true]
  rw [hread, SampleQueues.turn, hqueue]
  refine ⟨_, rfl, ?_, ?_, h.i, h.endRecording, h.returned, ?_, h.lastRead, h.consumed⟩
  · simpa using h.length
  · intro j m' c' hm' hc'
    rw [h.i] at hm'
    rcases SlotTable.getElem?_set_cases hm' with ⟨rfl, rfl⟩ | ⟨hj, hm'⟩
    · rcases SlotTable.getElem?_set_cases hc' with ⟨-, rfl⟩ | ⟨hj, -⟩
      · exact ⟨hring.ring, hring.head, hleft⟩
      · exact absurd rfl hj
    · rcases SlotTable.getElem?_set_cases hc' with ⟨rfl, -⟩ | ⟨-, hc'⟩
      · exact absurd rfl hj
      · exact h.cpus j m' c' hm' hc'
  · have hstream : q.passes.flatMap Prod.snd ++ (q.pass ++ r.user) = q.stream ++ r.user := by
      rw [SampleQueues.stream, List.append_assoc]
    change Recbuf.Holds _ (q.passes.flatMap Prod.snd ++ (q.pass ++ r.user))
    rw [hstream]
    cases htaken : r.taken with
    | none => simpa [PerfRecord.user, htaken] using h.record
    | some rec =>
      have huser : r.user = if rec.userLand then [rec] else [] := by
        by_cases hrec : rec.userLand = true <;> simp [PerfRecord.user, htaken, Option.filter, hrec]
      rw [huser]
      exact h.record.update rec

theorem round (h : Simulates ring s q) {n : Nat} (hq : q.InRange n) :
    ∃ t, s.step .round = some t ∧ Simulates ring t (q.step ring .round) := by
  by_cases hreturned : q.returned = true
  · refine ⟨s, ?_, ?_⟩
    · simp [SampleReader.step, h.returned, hreturned]
    · simpa [SampleQueues.step, hreturned] using h
  have hc : q.cpus[q.i]? = some (q.cpus.get ⟨q.i, hq.i⟩) := List.getElem?_eq_getElem hq.i
  have hlt : s.i < s.cpus.length := by
    rw [h.length, h.i]
    exact hq.i
  have hm : s.cpus[s.i]? = some (s.cpus.get ⟨s.i, hlt⟩) := List.getElem?_eq_getElem hlt
  generalize s.cpus.get ⟨s.i, hlt⟩ = m at hm
  generalize q.cpus.get ⟨q.i, hq.i⟩ = c at hc
  have hring := h.cpus q.i m c (h.i ▸ hm) hc
  have hstep : s.step .round = s.readSamples := by simp [SampleReader.step, h.returned, hreturned]
  have hturn : q.step ring .round = q.turn c := by simp [SampleQueues.step, hreturned, hc]
  rw [hstep, hturn]
  cases hqueue : c.queue with
  | nil => exact h.finishPass hm hqueue hring
  | cons r queue =>
    have hhead := hq.heads c (List.mem_of_getElem? hc)
    exact h.take hm hqueue hring (by omega)

end Simulates

namespace SamplingEvent

/-- What an event may add to a head. -/
def bytes : SamplingEvent → Nat
  | .output _ r => r.encode.length
  | .round => 0
  | .stop => 0

end SamplingEvent

namespace SampleQueues

variable {ring : RingSize} {q : SampleQueues}

theorem next_lt (h : q.i < q.cpus.length) : q.next < q.cpus.length := by
  unfold next
  split_ifs <;> omega

theorem InRange.step {e : SamplingEvent} {n : Nat} (h : q.InRange (e.bytes + n)) : (q.step ring e).InRange n := by
  cases e with
  | output cpu r =>
    refine ⟨by simpa [SampleQueues.step] using h.i, ?_⟩
    intro c hc
    obtain ⟨j, hj⟩ := List.mem_iff_getElem?.mp hc
    simp only [SampleQueues.step, List.getElem?_modify, Option.map_eq_map, Option.map_eq_some_iff] at hj
    obtain ⟨c', hc', rfl⟩ := hj
    have hhead := h.heads c' (List.mem_of_getElem? hc')
    have hadded := c'.output_head_le ring r
    simp only [SamplingEvent.bytes] at hhead
    split_ifs <;> omega
  | stop => exact ⟨h.i, fun c hc => by simpa [SamplingEvent.bytes] using h.heads c hc⟩
  | round =>
    have hkept : q.InRange n := by simpa [SamplingEvent.bytes] using h
    have hc : q.cpus[q.i]? = some (q.cpus.get ⟨q.i, h.i⟩) := List.getElem?_eq_getElem h.i
    generalize q.cpus.get ⟨q.i, h.i⟩ = c at hc
    by_cases hreturned : q.returned = true
    · simpa [SampleQueues.step, hreturned] using hkept
    · simp only [SampleQueues.step, hreturned, hc, Bool.false_eq_true, if_false, turn]
      cases c.queue with
      | nil =>
        simp only
        split_ifs
        · exact ⟨hkept.i, hkept.heads⟩
        · exact ⟨next_lt hkept.i, hkept.heads⟩
      | cons r queue =>
        refine ⟨by simpa using hkept.i, ?_⟩
        intro c' hc'
        rcases List.mem_or_eq_of_mem_set hc' with hc' | rfl
        · exact hkept.heads c' hc'
        · exact hkept.heads c (List.mem_of_getElem? hc)

end SampleQueues

namespace Simulates

variable {ring : RingSize} {s : SampleReader} {q : SampleQueues}

theorem step (h : Simulates ring s q) {n : Nat} (hq : q.InRange n) (e : SamplingEvent) :
    ∃ t, s.step e = some t ∧ Simulates ring t (q.step ring e) := by
  cases e with
  | output cpu r => exact h.output cpu r
  | round => exact h.round hq
  | stop => exact h.stop

theorem run (h : Simulates ring s q) (events : List SamplingEvent)
    (hq : q.InRange (events.map SamplingEvent.bytes).sum) :
    ∃ t, PartialStep.run SampleReader.step s events = some t ∧ Simulates ring t (q.run ring events) := by
  induction events generalizing s q with
  | nil => exact ⟨s, rfl, h⟩
  | cons e events ih =>
    rw [List.map_cons, List.sum_cons] at hq
    obtain ⟨t, hstep, ht⟩ := h.step hq e
    obtain ⟨u, hrun, hu⟩ := ih ht hq.step
    exact ⟨u, by rw [PartialStep.run_cons, hstep, Option.bind_some, hrun], hu⟩

end Simulates

/-! ## Nothing is lost on the way -/

namespace SampleQueues

variable {ring : RingSize} {q : SampleQueues}

def start (n : Nat) : SampleQueues := { cpus := List.replicate n {} }

/-- The samples that were taken from the ring of a core, in the turns it had and in the one it has. -/
def taken (q : SampleQueues) (cpu : Nat) : List LlRec :=
  (q.passes.filter (fun pass => pass.1 = cpu)).flatMap Prod.snd ++ if q.i = cpu then q.pass else []

end SampleQueues

/-- What was taken and what is pending is in the order in which it was written, and it is all that was written
as long as every skip sees the head. -/
structure CoreRing.Accounted (c : CoreRing) (taken : List LlRec) : Prop where
  sublist : (taken ++ c.queue.flatMap PerfRecord.user).Sublist c.written
  all : c.head < 2 ^ 31 → taken ++ c.queue.flatMap PerfRecord.user = c.written

namespace CoreRing.Accounted

variable {c : CoreRing} {taken : List LlRec}

theorem output (h : c.Accounted taken) (ring : RingSize) (r : PerfRecord) : (c.output ring r).Accounted taken := by
  unfold CoreRing.output
  split_ifs with hfits
  · have hqueue : taken ++ (c.queue ++ [r]).flatMap PerfRecord.user =
        taken ++ c.queue.flatMap PerfRecord.user ++ r.user := by simp
    constructor
    · simp only [hqueue]
      exact h.sublist.append_right _
    · intro hhead
      simp only at hhead
      simp only [hqueue, h.all (by omega)]
  · exact h

theorem take {r : PerfRecord} {queue : List PerfRecord} (h : c.Accounted taken) (hqueue : c.queue = r :: queue) :
    CoreRing.Accounted { c with queue := r.leaves c.head queue } (taken ++ r.user) := by
  have hsublist := h.sublist
  have hall := h.all
  rw [hqueue, List.flatMap_cons, ← List.append_assoc] at hsublist hall
  constructor
  · refine List.Sublist.trans ?_ hsublist
    refine List.Sublist.append_left ?_ _
    unfold PerfRecord.leaves
    split_ifs
    · exact List.Sublist.refl _
    · exact List.nil_sublist _
  · intro hhead
    have hsees : Mapping.SeesHead c.head := .inl hhead
    have hleaves : r.leaves c.head queue = queue := if_pos (.inr hsees)
    simp only [hleaves]
    exact hall hhead

end CoreRing.Accounted

namespace SampleQueues

variable {ring : RingSize} {q : SampleQueues}

def Accounted (q : SampleQueues) : Prop :=
  ∀ (cpu : Nat) (c : CoreRing), q.cpus[cpu]? = some c → c.Accounted (q.taken cpu)

theorem start_accounted (n : Nat) : (start n).Accounted := by
  intro cpu c hc
  obtain rfl : c = {} := List.eq_of_mem_replicate (List.mem_of_getElem? hc)
  have htaken : (start n).taken cpu = [] := by
    unfold taken
    split_ifs <;> rfl
  constructor <;> simp [htaken]

/-- A turn that ends leaves to every core what was taken from it. -/
theorem taken_finish (q : SampleQueues) (cpu : Nat) :
    SampleQueues.taken { q with passes := q.passes ++ [(q.i, q.pass)], pass := [], i := q.next } cpu = q.taken cpu := by
  unfold taken
  by_cases hcpu : q.i = cpu
  · simp [hcpu]
  · simp [hcpu]

theorem Accounted.step (h : q.Accounted) (e : SamplingEvent) : (q.step ring e).Accounted := by
  cases e with
  | output cpu r =>
    intro j c hc
    simp only [SampleQueues.step, List.getElem?_modify, Option.map_eq_map, Option.map_eq_some_iff] at hc
    obtain ⟨c', hc', rfl⟩ := hc
    have hkept := h j c' hc'
    have htaken : (q.step ring (.output cpu r)).taken j = q.taken j := rfl
    rw [htaken]
    by_cases hj : cpu = j
    · simpa [hj] using hkept.output ring r
    · simpa [hj] using hkept
  | stop => exact h
  | round =>
    by_cases hreturned : q.returned = true
    · simpa [SampleQueues.step, hreturned] using h
    · simp only [SampleQueues.step, hreturned, Bool.false_eq_true, if_false]
      cases hc : q.cpus[q.i]? with
      | none => exact h
      | some c =>
        simp only [turn]
        cases hqueue : c.queue with
        | nil =>
          simp only
          split_ifs
          · exact h
          · intro j c' hc'
            rw [taken_finish]
            exact h j c' hc'
        | cons r queue =>
          intro j c' hc'
          rcases SlotTable.getElem?_set_cases hc' with ⟨rfl, rfl⟩ | ⟨hj, hc'⟩
          · have htake := (h q.i c hc).take hqueue
            simpa [taken] using htake
          · have hkept := h j c' hc'
            have htaken : SampleQueues.taken { q with
                cpus := q.cpus.set q.i { c with queue := r.leaves c.head queue }
                pass := q.pass ++ r.user } j = q.taken j := by
              simp [taken, Ne.symm hj]
            rw [htaken]
            exact hkept

theorem Accounted.run (h : q.Accounted) (events : List SamplingEvent) : (q.run ring events).Accounted := by
  induction events generalizing q with
  | nil => exact h
  | cons e events ih => exact ih (h.step e)

end SampleQueues

namespace SampleReader

/-- `read_samples` as it is entered, on the rings that `setup_sampling` mapped. -/
def enter (ring : RingSize) (n : Nat) (record : Recbuf) : SampleReader where
  cpus := List.replicate n (Mapping.fresh ring)
  record := record

theorem enter_simulates {ring : RingSize} {record : Recbuf} (n : Nat) (h : record.nrec = 0) :
    Simulates ring (enter ring n record) (SampleQueues.start n) where
  length := by simp [enter, SampleQueues.start]
  cpus := by
    intro j m c hm hc
    obtain rfl : m = Mapping.fresh ring := List.eq_of_mem_replicate (List.mem_of_getElem? hm)
    obtain rfl : c = {} := List.eq_of_mem_replicate (List.mem_of_getElem? hc)
    exact ⟨rfl, rfl, Mapping.pending_empty rfl rfl, by simp [Mapping.fresh]⟩
  i := rfl
  endRecording := rfl
  returned := rfl
  record := ⟨RingBuffer.Holds.nil _, h⟩
  lastRead := rfl
  consumed := rfl

theorem start_inRange {n total : Nat} (hn : 0 < n) (htotal : total < 2 ^ 63) :
    (SampleQueues.start n).InRange total where
  i := by simpa [SampleQueues.start] using hn
  heads := by
    intro c hc
    obtain rfl : c = {} := List.eq_of_mem_replicate hc
    simpa using htotal

/-- Whatever the order in which the kernel writes and the reader reads, no access leaves a ring or the buffer, and
the samples that are consumed are those of the turns, each without whole fillings of the buffer. -/
theorem readSamples_refines {ring : RingSize} {record : Recbuf} {n : Nat} (hn : 0 < n) (hrecord : record.nrec = 0)
    {events : List SamplingEvent} (hbytes : (events.map SamplingEvent.bytes).sum < 2 ^ 63) :
    ∃ t, PartialStep.run step (enter ring n record) events = some t ∧
      t.consumed = ((SampleQueues.start n).run ring events).passes.flatMap (fun pass => Recbuf.recent pass.2) := by
  obtain ⟨t, hrun, ht⟩ := (enter_simulates n hrecord).run events (start_inRange hn hbytes)
  exact ⟨t, hrun, ht.consumed⟩

/-- The buffer before the first sample. -/
def emptyRecord : Recbuf where
  recArr := List.replicate bufferSize ⟨0, 0, 0, 0, 0, 0⟩
  nrec := 0
  size := List.length_replicate
  bound := bufferSize_pos

/-- Two cores: a record that is no sample and two samples on the first, of which the later belongs to the kernel,
and a sample on the second. -/
def twoCores : List SamplingEvent := [
  .output 0 (.other Mapping.lostRecord),
  .output 1 (.sample 0 0 0 0 ⟨7, 8, 8192, 1, 20, 0⟩),
  .output 0 (.sample 0 0 0 0 ⟨7, 7, 4096, 0, 20, 0⟩),
  .round, .round,
  .output 0 (.sample 0 0 0 0 ⟨0, 0, 4096, 0, 20, 0⟩),
  .round, .round, .round, .round]

/-- The samples are consumed in the order of the cores, and the one of the kernel is not. -/
theorem readSamples_refines_two :
    ∃ t, PartialStep.run step (enter ⟨.normal, 0, Nat.zero_le 20⟩ 2 emptyRecord) twoCores = some t ∧
      t.consumed = [⟨7, 7, 4096, 0, 20, 0⟩, ⟨7, 8, 8192, 1, 20, 0⟩] := by
  obtain ⟨t, hrun, hconsumed⟩ :=
    @readSamples_refines ⟨.normal, 0, Nat.zero_le 20⟩ emptyRecord 2 (by decide) rfl twoCores (by decide)
  exact ⟨t, hrun, hconsumed.trans (by decide +kernel)⟩

/-- Nothing is invented, repeated or reordered, and below 2 GiB nothing is lost before the buffer; there nothing is
lost exactly if no turn brings as many samples as the buffer holds. -/
theorem readSamples_lossless {ring : RingSize} {record : Recbuf} {n : Nat} (hn : 0 < n) (hrecord : record.nrec = 0)
    {events : List SamplingEvent} (hbytes : (events.map SamplingEvent.bytes).sum < 2 ^ 63) :
    ∃ t q, PartialStep.run step (enter ring n record) events = some t ∧
      q = (SampleQueues.start n).run ring events ∧
      (∀ (cpu : Nat) (c : CoreRing), q.cpus[cpu]? = some c → c.Accounted (q.taken cpu)) ∧
      (t.consumed = q.passes.flatMap Prod.snd ↔ ∀ pass ∈ q.passes, pass.2.length < bufferSize) := by
  obtain ⟨t, hrun, ht⟩ := (enter_simulates n hrecord).run events (start_inRange hn hbytes)
  refine ⟨t, _, hrun, rfl, (SampleQueues.start_accounted n).run events, ?_⟩
  rw [ht.consumed]
  exact Recbuf.flatMap_recent_eq_iff _

/-- Neither core loses anything, and all that was taken is consumed. -/
theorem readSamples_lossless_two :
    ∃ t q, PartialStep.run step (enter ⟨.normal, 0, Nat.zero_le 20⟩ 2 emptyRecord) twoCores = some t ∧
      q = (SampleQueues.start 2).run ⟨.normal, 0, Nat.zero_le 20⟩ twoCores ∧
      (∀ (cpu : Nat) (c : CoreRing), q.cpus[cpu]? = some c → c.Accounted (q.taken cpu)) ∧
      q.taken 0 = [⟨7, 7, 4096, 0, 20, 0⟩] ∧ q.taken 1 = [⟨7, 8, 8192, 1, 20, 0⟩] ∧
      t.consumed = q.passes.flatMap Prod.snd := by
  obtain ⟨t, q, hrun, rfl, haccounted, hiff⟩ :=
    @readSamples_lossless ⟨.normal, 0, Nat.zero_le 20⟩ emptyRecord 2 (by decide) rfl twoCores (by decide)
  exact ⟨t, _, hrun, rfl, haccounted, by decide +kernel, by decide +kernel, hiff.mpr (by decide +kernel)⟩

end SampleReader

end AutopinPlus
