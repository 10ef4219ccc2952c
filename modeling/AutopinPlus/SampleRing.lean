import AutopinPlus.RingBuffer
import AutopinPlus.CommChannel
import AutopinPlus.PartialStep
import Mathlib.Tactic.Ring

/-!
# The ring of one core

The kernel leaves its records in a ring of pages behind a metadata page, and `sampling-core.c` takes them out
again, field by field. `data_head` and `data_tail` count the bytes that went in and out since the start.
-/
namespace AutopinPlus

/-! ## The mapping -/

inductive PreciseType where
  | normal | high | low
  deriving DecidableEq, Repr

namespace PreciseType

/-- `PF_MAP_NPAGES_NORMAL`, `PF_MAP_NPAGES_MAX` and `PF_MAP_NPAGES_MIN`. -/
def npages : PreciseType → Nat
  | .normal => 256
  | .high => 1024
  | .low => 64

def npagesOrder : PreciseType → Nat
  | .normal => 8
  | .high => 10
  | .low => 6

theorem npages_eq (p : PreciseType) : p.npages = 2 ^ p.npagesOrder := by cases p <;> rfl

end PreciseType

/-- What `pf_ringsize_init` sets its two variables from. The size of a page is a power of two, and the
size of the mapping has to be an `int`. -/
structure RingSize where
  precise : PreciseType
  pageOrder : Nat
  bound : pageOrder ≤ 20

namespace RingSize

def pagesize (r : RingSize) : Nat := 2 ^ r.pageOrder

/-- The data pages, which is what `pf_ringsize_init` returns. -/
def bytes (r : RingSize) : Nat := r.pagesize * r.precise.npages

def mapsize (r : RingSize) : Nat := r.pagesize * (r.precise.npages + 1)

def mapmask (r : RingSize) : Nat := r.bytes - 1

theorem bytes_eq (r : RingSize) : r.bytes = 2 ^ (r.pageOrder + r.precise.npagesOrder) := by
  rw [bytes, pagesize, PreciseType.npages_eq, Nat.pow_add]

theorem mapsize_eq (r : RingSize) : r.mapsize = r.bytes + r.pagesize := by
  unfold mapsize bytes
  ring

theorem and_mapmask (r : RingSize) (p : Nat) : p &&& r.mapmask = p % r.bytes := by
  rw [mapmask, bytes_eq, Nat.and_two_pow_sub_one_eq_mod]

theorem pagesize_pos (r : RingSize) : 0 < r.pagesize := Nat.two_pow_pos _

theorem bytes_pos (r : RingSize) : 0 < r.bytes := by
  rw [bytes_eq]
  exact Nat.two_pow_pos _

/-- Words of eight bytes fit into the ring without rest. -/
theorem eight_dvd_bytes (r : RingSize) : 8 ∣ r.bytes := by
  have hnpages : 8 ∣ r.precise.npages := by cases r.precise <;> decide
  exact Nat.dvd_trans hnpages ⟨r.pagesize, Nat.mul_comm _ _⟩

theorem bytes_lt (r : RingSize) : r.bytes < 2 ^ 31 := by
  have hpages : r.pagesize ≤ 2 ^ 20 := Nat.pow_le_pow_right (by omega) r.bound
  have hnpages : r.precise.npages ≤ 2 ^ 10 := by cases r.precise <;> decide
  have := Nat.mul_le_mul hpages hnpages
  unfold bytes
  omega

end RingSize

/-- A `perf_event_mmap_page` with the data pages behind it. -/
structure Mapping where
  ring : RingSize
  dataHead : Nat
  dataTail : Nat
  data : List UInt8
  size : data.length = ring.bytes

namespace Mapping

/-- The kernel hands the pages out empty. -/
def fresh (ring : RingSize) : Mapping where
  ring := ring
  dataHead := 0
  dataTail := 0
  data := List.replicate ring.bytes 0
  size := List.length_replicate

/-- `memcpy` out of the data pages. Nothing is mapped behind the last of them. -/
def copy (m : Mapping) (offset n : Nat) : Option (List UInt8) :=
  if offset + n ≤ m.data.length then some ((m.data.drop offset).take n) else none

/-- `header->data_tail += n`. -/
def advance (m : Mapping) (n : Nat) : Mapping := { m with dataTail := m.dataTail + n }

@[simp] theorem advance_ring (m : Mapping) (n : Nat) : (m.advance n).ring = m.ring := rfl

@[simp] theorem advance_dataHead (m : Mapping) (n : Nat) : (m.advance n).dataHead = m.dataHead := rfl

@[simp] theorem advance_dataTail (m : Mapping) (n : Nat) : (m.advance n).dataTail = m.dataTail + n := rfl

theorem advance_zero (m : Mapping) : m.advance 0 = m := rfl

theorem advance_advance (m : Mapping) (i j : Nat) : (m.advance i).advance j = m.advance (i + j) := by
  simp only [advance, Nat.add_assoc]

/-- The inner `none` is the result -1, with the mapping as it was. -/
def mmapBufferRead (m : Mapping) (size : Nat) : Option (Option (List UInt8 × Mapping)) :=
  let dataSize := Int.bmod (m.dataHead - m.dataTail) (2 ^ 32)
  -- the comparison with `size` makes a `size_t` of it
  if dataSize % 2 ^ 64 < size then some none
  else
    let dataTail := m.dataTail &&& m.ring.mapmask
    -- counts the metadata page, which is not behind `data`
    let ncopies := m.ring.mapsize - dataTail
    let buf :=
      if ncopies < size then
        (m.copy dataTail ncopies).bind fun front => (m.copy 0 (size - ncopies)).map (front ++ ·)
      else m.copy dataTail size
    buf.map fun buf => some (buf, m.advance size)

/-- What `mmap_buffer_skip` makes of its `size`. The local `data_head` is an `int`; the comparison and the
difference are those of `u64`. -/
def skipSize (m : Mapping) (size : Int) : Int :=
  let dataHead := Int.bmod m.dataHead (2 ^ 32)
  if (m.dataTail + size) % 2 ^ 64 > dataHead % 2 ^ 64 then Int.bmod (dataHead - m.dataTail) (2 ^ 32) else size

def mmapBufferSkip (m : Mapping) (size : Int) : Mapping :=
  { m with dataTail := ((m.dataTail + m.skipSize size) % 2 ^ 64).toNat }

/-- The kernel appends a record behind the head, if the reader has made room for it. -/
def perfOutput (m : Mapping) (record : List UInt8) : Mapping :=
  if m.dataHead - m.dataTail + record.length ≤ m.ring.bytes then
    { m with
      dataHead := m.dataHead + record.length
      data := RingBuffer.putAll m.data m.dataHead record
      size := by rw [RingBuffer.length_putAll, m.size] }
  else m

/-! ### What is pending -/

/-- The ring holds the stream of all bytes written, and these bytes of it are not read yet. -/
structure Pending (m : Mapping) (bytes : List UInt8) : Prop where
  stream : ∃ stream, RingBuffer.Holds m.data stream ∧ stream.length = m.dataHead ∧ stream.drop m.dataTail = bytes
  le : m.dataTail ≤ m.dataHead
  room : m.dataHead ≤ m.dataTail + m.ring.bytes

theorem Pending.length {m : Mapping} {bytes : List UInt8} (h : m.Pending bytes) :
    m.dataHead = m.dataTail + bytes.length := by
  obtain ⟨stream, -, hlength, hdrop⟩ := h.stream
  have hle := h.le
  rw [← hdrop, List.length_drop]
  omega

/-- A mapping fresh from the kernel. -/
theorem pending_empty {m : Mapping} (hhead : m.dataHead = 0) (htail : m.dataTail = 0) : m.Pending [] where
  stream := ⟨[], RingBuffer.Holds.nil _, hhead.symm, by rw [htail]; rfl⟩
  le := by omega
  room := by omega

/-- Moving the tail over some of the pending bytes leaves the others. -/
theorem Pending.advance {m : Mapping} {front rest : List UInt8} (h : m.Pending (front ++ rest)) {n : Nat}
    (hn : n = front.length) : (m.advance n).Pending rest where
  stream := by
    obtain ⟨stream, hholds, hlength, hdrop⟩ := h.stream
    refine ⟨stream, hholds, hlength, ?_⟩
    rw [advance_dataTail, hn, ← List.drop_drop, hdrop, List.drop_left]
  le := by
    have hlength := h.length
    rw [List.length_append] at hlength
    simp only [advance_dataTail, advance_dataHead]
    omega
  room := by
    have hroom := h.room
    simp only [advance_dataTail, advance_dataHead, advance_ring]
    omega

theorem Pending.perfOutput {m : Mapping} {bytes : List UInt8} (h : m.Pending bytes) (record : List UInt8) :
    (m.perfOutput record).Pending
      (if bytes.length + record.length ≤ m.ring.bytes then bytes ++ record else bytes) := by
  have hlength := h.length
  have hroom : m.dataHead - m.dataTail = bytes.length := by omega
  rw [Mapping.perfOutput, hroom]
  split_ifs with hfits
  · obtain ⟨stream, hholds, hstream, hdrop⟩ := h.stream
    have hle := h.le
    have hputs := hholds.putAll record
    rw [hstream] at hputs
    refine ⟨⟨stream ++ record, hputs, ?_, ?_⟩, ?_, ?_⟩
    · rw [List.length_append, hstream]
    · change (stream ++ record).drop m.dataTail = bytes ++ record
      rw [List.drop_append_of_le_length (by omega), hdrop]
    · simp only
      omega
    · simp only
      omega
  · exact h

/-- The difference of the counters fits into the `int` it is kept in. -/
theorem Pending.dataSize {m : Mapping} {bytes : List UInt8} (h : m.Pending bytes) :
    Int.bmod (m.dataHead - m.dataTail) (2 ^ 32) % 2 ^ 64 = bytes.length := by
  have hlength := h.length
  have hroom := h.room
  have hring := m.ring.bytes_lt
  have hdiff : (m.dataHead : Int) - m.dataTail = bytes.length := by omega
  have hbmod : Int.bmod (bytes.length : Int) (2 ^ 32) = bytes.length := by
    apply Int.bmod_eq_of_le <;> omega
  rw [hdiff, hbmod]
  omega

/-- A read of what is not there changes nothing. -/
theorem Pending.read_short {m : Mapping} {bytes : List UInt8} (h : m.Pending bytes) {size : Nat}
    (hsize : bytes.length < size) : m.mmapBufferRead size = some none := by
  have hless : Int.bmod (m.dataHead - m.dataTail) (2 ^ 32) % 2 ^ 64 < size := by
    rw [h.dataSize]
    omega
  simp only [mmapBufferRead, if_pos hless]

/-- A copy that ends before the ring does finds what the kernel wrote. -/
theorem Pending.copy {m : Mapping} {front rest : List UInt8} (h : m.Pending (front ++ rest))
    (hend : m.dataTail % m.ring.bytes + front.length ≤ m.ring.bytes) :
    m.copy (m.dataTail % m.ring.bytes) front.length = some front := by
  obtain ⟨stream, hholds, hstream, hdrop⟩ := h.stream
  have hlength := h.length
  have hroom := h.room
  rw [List.length_append] at hlength
  rw [← m.size] at hend hroom ⊢
  rw [Mapping.copy, if_pos hend, hholds.window (by omega) (by omega) hend, hdrop, List.take_left]

/-- A read is defined exactly if it does not go on at the front of the ring: the part it expects at the end
includes a page that is not there. What it reads are then the next bytes. -/
theorem Pending.read {m : Mapping} {front rest : List UInt8} (h : m.Pending (front ++ rest)) :
    m.mmapBufferRead front.length =
      if m.dataTail % m.ring.bytes + front.length ≤ m.ring.bytes then
        some (some (front, m.advance front.length))
      else none := by
  have henough : ¬ Int.bmod (m.dataHead - m.dataTail) (2 ^ 32) % 2 ^ 64 < front.length := by
    rw [h.dataSize, List.length_append]
    omega
  have hpage := m.ring.pagesize_pos
  simp only [mmapBufferRead, if_neg henough, RingSize.and_mapmask, RingSize.mapsize_eq]
  split_ifs with hwraps hend hend
  · omega
  · -- the first part alone runs over the last page
    rw [Mapping.copy, if_neg (by rw [m.size]; omega)]
    rfl
  · rw [h.copy hend, Option.map_some]
  · rw [Mapping.copy, if_neg (by rw [m.size]; omega), Option.map_none]

/-! ### Skipping -/

/-- The head that `mmap_buffer_skip` sees: below 2^31 it is the head, and with bit 31 set it is behind every tail. -/
def SeesHead (head : Nat) : Prop := head < 2 ^ 31 ∨ 2 ^ 31 ≤ head % 2 ^ 32

instance (head : Nat) : Decidable (SeesHead head) := inferInstanceAs (Decidable (_ ∨ _))

theorem bmod_eq_ite (x : Int) :
    Int.bmod x (2 ^ 32) = if x % 2 ^ 32 < 2 ^ 31 then x % 2 ^ 32 else x % 2 ^ 32 - 2 ^ 32 := by
  rw [Int.bmod_def]
  rfl

theorem Pending.skipSize_eq {m : Mapping} {front rest : List UInt8} (h : m.Pending (front ++ rest))
    (hhead : m.dataHead < 2 ^ 63) :
    m.skipSize front.length = if SeesHead m.dataHead then front.length else front.length + rest.length := by
  have hlength := h.length
  have hroom := h.room
  have hring := m.ring.bytes_lt
  rw [List.length_append] at hlength
  simp only [skipSize]
  by_cases hsees : SeesHead m.dataHead
  · rw [if_pos hsees]
    have hbehind : ¬ (m.dataTail + front.length : Int) % 2 ^ 64 > Int.bmod m.dataHead (2 ^ 32) % 2 ^ 64 := by
      rw [bmod_eq_ite]
      unfold SeesHead at hsees
      split_ifs <;> omega
    rw [if_neg hbehind]
  · rw [if_neg hsees]
    have hbefore : (m.dataTail + front.length : Int) % 2 ^ 64 > Int.bmod m.dataHead (2 ^ 32) % 2 ^ 64 := by
      rw [bmod_eq_ite]
      unfold SeesHead at hsees
      split_ifs <;> omega
    have hdiff : (m.dataHead : Int) - m.dataTail = front.length + rest.length := by omega
    rw [if_pos hbefore, Int.bmod_sub_bmod, hdiff]
    apply Int.bmod_eq_of_le <;> omega

/-- A skip moves the tail over the bytes it is to skip if it sees the head, and otherwise over all there are. -/
theorem Pending.mmapBufferSkip_eq {m : Mapping} {front rest : List UInt8} (h : m.Pending (front ++ rest))
    (hhead : m.dataHead < 2 ^ 63) :
    m.mmapBufferSkip front.length =
      m.advance (if SeesHead m.dataHead then front.length else front.length + rest.length) := by
  have hlength := h.length
  rw [List.length_append] at hlength
  have htail (n : Nat) (hn : m.dataTail + n ≤ m.dataHead) :
      ((m.dataTail + n : Int) % 2 ^ 64).toNat = m.dataTail + n := by omega
  rw [mmapBufferSkip, h.skipSize_eq hhead, htail _ (by split_ifs <;> omega), Mapping.advance]

/-- Of the bytes behind those it skips it leaves all or none. -/
theorem Pending.skip {m : Mapping} {front rest : List UInt8} (h : m.Pending (front ++ rest))
    (hhead : m.dataHead < 2 ^ 63) :
    (m.mmapBufferSkip front.length).Pending (if SeesHead m.dataHead then rest else []) := by
  rw [h.mmapBufferSkip_eq hhead]
  by_cases hsees : SeesHead m.dataHead
  · rw [if_pos hsees, if_pos hsees]
    exact h.advance rfl
  · rw [if_neg hsees, if_neg hsees]
    rw [← List.append_nil (front ++ rest)] at h
    exact h.advance (by rw [List.length_append])

end Mapping

/-! ## Writes and reads in any order -/

/-- A ring, the bytes it took from the kernel and the bytes it gave to the reader. -/
structure RingLog where
  mapping : Mapping
  accepted : List UInt8 := []
  got : List UInt8 := []

inductive RingEvent where
  | output (record : List UInt8)
  | read (size : Nat)
  deriving DecidableEq, Repr

namespace RingLog

def step (s : RingLog) : RingEvent → Option RingLog
  | .output record => some { s with
      mapping := s.mapping.perfOutput record
      accepted := s.accepted ++
        if s.mapping.dataHead - s.mapping.dataTail + record.length ≤ s.mapping.ring.bytes then record else [] }
  | .read size => (s.mapping.mmapBufferRead size).map fun
    | some (buf, m) => { s with mapping := m, got := s.got ++ buf }
    | none => s

/-- What was accepted and not read is pending. -/
def Consistent (s : RingLog) : Prop := ∃ pending, s.mapping.Pending pending ∧ s.accepted = s.got ++ pending

/-- A read finds too few bytes, or it ends before the ring does. -/
def Inside (s : RingLog) : RingEvent → Prop
  | .output _ => True
  | .read size => s.mapping.dataHead - s.mapping.dataTail < size ∨
      s.mapping.dataTail % s.mapping.ring.bytes + size ≤ s.mapping.ring.bytes

theorem Consistent.output {s : RingLog} (h : s.Consistent) (record : List UInt8) :
    ∃ t, s.step (.output record) = some t ∧ t.Consistent := by
  obtain ⟨pending, hpending, haccepted⟩ := h
  have hlength := hpending.length
  have hroom : s.mapping.dataHead - s.mapping.dataTail = pending.length := by omega
  refine ⟨_, rfl, _, hpending.perfOutput record, ?_⟩
  simp only [hroom, haccepted, List.append_assoc]
  split_ifs
  · rfl
  · rw [List.append_nil]

theorem Consistent.read {s : RingLog} (h : s.Consistent) (size : Nat) :
    ((s.step (.read size)).isSome ↔ s.Inside (.read size)) ∧
      ∀ t, s.step (.read size) = some t → t.Consistent := by
  obtain ⟨pending, hpending, haccepted⟩ := h
  have hlength := hpending.length
  have hroom : s.mapping.dataHead - s.mapping.dataTail = pending.length := by omega
  simp only [Inside, hroom, RingLog.step]
  by_cases hshort : pending.length < size
  · rw [hpending.read_short hshort]
    refine ⟨by simp [hshort], ?_⟩
    intro t ht
    simp only [Option.map_some, Option.some.injEq] at ht
    exact ht ▸ ⟨pending, hpending, haccepted⟩
  · have hfront : (pending.take size).length = size := by
      rw [List.length_take]
      omega
    have hsplit : s.mapping.Pending (pending.take size ++ pending.drop size) := by
      rwa [List.take_append_drop]
    have hread := hsplit.read
    rw [hfront] at hread
    rw [hread]
    split_ifs with hend
    · refine ⟨by simp [hend], ?_⟩
      intro t ht
      simp only [Option.map_some, Option.some.injEq] at ht
      refine ht ▸ ⟨pending.drop size, hsplit.advance hfront.symm, ?_⟩
      rw [haccepted, List.append_assoc, List.take_append_drop]
    · refine ⟨by simp [hend, hshort], ?_⟩
      intro t ht
      cases ht

/-- In any order of writes and reads, no access leaves the mapping exactly if no read runs over the end of the
ring, and then the reader gets the bytes the kernel wrote, each once and in order. -/
theorem run_reads (ring : RingSize) (events : List RingEvent) :
    ((PartialStep.run step ⟨Mapping.fresh ring, [], []⟩ events).isSome ↔
        PartialStep.Admitted step Inside ⟨Mapping.fresh ring, [], []⟩ events) ∧
      ∀ t, PartialStep.run step ⟨Mapping.fresh ring, [], []⟩ events = some t →
        ∃ pending, t.mapping.Pending pending ∧ t.accepted = t.got ++ pending := by
  have hstart : Consistent ⟨Mapping.fresh ring, [], []⟩ := ⟨[], Mapping.pending_empty rfl rfl, rfl⟩
  have hstep : ∀ s e t, Consistent s → step s e = some t → t.Consistent := by
    intro s e t hs ht
    cases e with
    | output record =>
      obtain ⟨u, hu, hconsistent⟩ := hs.output record
      exact Option.some.inj (hu.symm.trans ht) ▸ hconsistent
    | read size => exact (hs.read size).2 t ht
  have hdef : ∀ s e, Consistent s → ((step s e).isSome ↔ Inside s e) := by
    intro s e hs
    cases e with
    | output record => exact iff_of_true rfl trivial
    | read size => exact (hs.read size).1
  refine ⟨PartialStep.run_isSome_iff Consistent hstep hdef events hstart, ?_⟩
  intro t ht
  exact PartialStep.run_invariant Consistent (fun s e t hs _ => hstep s e t hs) hstart
    (PartialStep.admitted_true step _ events) ht

end RingLog

end AutopinPlus
