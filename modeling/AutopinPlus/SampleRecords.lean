import AutopinPlus.SampleRing

/-!
# The records of a ring

A record is a header with the size of the whole, and for a sample the fields that `pf_ll_setup` asked for. The
reader takes one record in each round of `pf_ll_record`; on rings with whole records of whole words it never
leaves the mapping.
-/
namespace AutopinPlus

/-! ## Bytes of numbers -/

def littleEndianBytes : Nat → Nat → List UInt8
  | 0, _ => []
  | n + 1, x => UInt8.ofNat x :: littleEndianBytes n (x / 256)

@[simp] theorem length_littleEndianBytes (n x : Nat) : (littleEndianBytes n x).length = n := by
  induction n generalizing x with
  | zero => rfl
  | succ n ih => rw [littleEndianBytes, List.length_cons, ih]

theorem toNat_littleEndian_bytes {n : Nat} (hn : n ≤ 8) (x : Nat) :
    (littleEndian (littleEndianBytes n x)).toNat = x % 256 ^ n := by
  induction n generalizing x with
  | zero =>
    rw [Nat.pow_zero, Nat.mod_one]
    rfl
  | succ n ih =>
    have hrest := ih (by omega) (x / 256)
    have hbound : 256 ^ n ≤ 256 ^ 7 := Nat.pow_le_pow_right (by omega) (by omega)
    have hlt : x / 256 % 256 ^ n < 256 ^ n := Nat.mod_lt _ (Nat.pow_pos (by omega))
    have hcons : littleEndian (littleEndianBytes (n + 1) x) =
        littleEndian (littleEndianBytes n (x / 256)) * 256 + (UInt8.ofNat x).toUInt64 := rfl
    have hsplit : x % 256 ^ (n + 1) = x % 256 + 256 * (x / 256 % 256 ^ n) := by rw [Nat.pow_succ', Nat.mod_mul]
    have h256 : (256 : UInt64).toNat = 256 := rfl
    rw [hcons, UInt64.toNat_add, UInt64.toNat_mul, hrest, UInt8.toNat_toUInt64, UInt8.toNat_ofNat', h256, hsplit]
    omega

/-! ## What is read -/

/-- `PERF_RECORD_SAMPLE` -/
def perfRecordSample : UInt32 := 9

/-- The members of `pf_ll_rec_t` that are set from a sample and used again. -/
structure LlRec where
  pid : UInt32
  tid : UInt32
  addr : UInt64
  cpu : UInt64
  latency : UInt64
  dataSource : UInt64
  deriving DecidableEq, Repr

namespace Mapping

/-- Up to `n` reads of eight bytes, each taken off `size`, until one fails. -/
def readWords : Nat → Mapping → Int → Option (List (List UInt8) × Mapping × Int)
  | 0, m, size => some ([], m, size)
  | n + 1, m, size => do
    match ← m.mmapBufferRead 8 with
    | none => some ([], m, size)
    | some (buf, m) =>
      let (bufs, m, size) ← readWords n m (size - 8)
      some (buf :: bufs, m, size)

/-- The record that the eight fields of a sample make; `period`, `time` and `ip` are read and not kept. -/
def sampleOf : List (List UInt8) → Option LlRec
  | [_ip, id, _time, addr, cpu, _period, weight, dsrc] => some {
      pid := (littleEndian (id.take 4)).toUInt32
      tid := (littleEndian (id.drop 4)).toUInt32
      addr := littleEndian addr
      cpu := littleEndian cpu
      latency := littleEndian weight
      dataSource := littleEndian dsrc }
  | _ => none

/-- On both ways out the rest of the record is skipped, if there is one. -/
def llSampleRead (m : Mapping) (size : Int) : Option (Option LlRec × Mapping) := do
  let (bufs, m, size) ← readWords 8 m size
  some (sampleOf bufs, if size > 0 then m.mmapBufferSkip size else m)

/-- One round of the loop of `pf_ll_record`: the sample, if there is a valid one, and whether the loop goes on. -/
def pfLlRecord (m : Mapping) : Option (Option LlRec × Bool × Mapping) := do
  match ← m.mmapBufferRead 8 with
  | none => some (none, false, m)
  | some (ehdr, m) =>
    let type := (littleEndian (ehdr.take 4)).toUInt32
    let size : Int := (littleEndian (ehdr.drop 6)).toNat - 8
    if size ≤ 0 then some (none, false, m)
    else if type = perfRecordSample then
      let (rec, m) ← m.llSampleRead size
      some (rec, rec.isSome, m)
    else some (none, true, m.mmapBufferSkip size)

end Mapping

/-! ## What is written -/

/-- A record of another kind, behind its header. -/
structure OtherRecord where
  type : UInt32
  misc : UInt16
  payload : List UInt8
  ne : type ≠ perfRecordSample
  words : 8 ∣ payload.length
  bound : payload ≠ [] ∧ 8 + payload.length < 2 ^ 16

inductive PerfRecord where
  | sample (misc : UInt16) (ip time period : UInt64) (rec : LlRec)
  | other (record : OtherRecord)

namespace PerfRecord

/-- `struct perf_event_header` -/
def header (type : UInt32) (misc : UInt16) (size : Nat) : List UInt8 :=
  littleEndianBytes 4 type.toNat ++ (littleEndianBytes 2 misc.toNat ++ littleEndianBytes 2 size)

/-- The fields in the order of the bits of `sample_type`. -/
def fields (ip time period : UInt64) (rec : LlRec) : List (List UInt8) := [
  littleEndianBytes 8 ip.toNat,
  littleEndianBytes 4 rec.pid.toNat ++ littleEndianBytes 4 rec.tid.toNat,
  littleEndianBytes 8 time.toNat,
  littleEndianBytes 8 rec.addr.toNat,
  littleEndianBytes 8 rec.cpu.toNat,
  littleEndianBytes 8 period.toNat,
  littleEndianBytes 8 rec.latency.toNat,
  littleEndianBytes 8 rec.dataSource.toNat]

def type : PerfRecord → UInt32
  | .sample _ _ _ _ _ => perfRecordSample
  | .other record => record.type

def misc : PerfRecord → UInt16
  | .sample misc _ _ _ _ => misc
  | .other record => record.misc

def payload : PerfRecord → List UInt8
  | .sample _ ip time period rec => (fields ip time period rec).flatten
  | .other record => record.payload

/-- The record as the kernel writes it. -/
def encode (r : PerfRecord) : List UInt8 := header r.type r.misc (8 + r.payload.length) ++ r.payload

@[simp] theorem length_header (type : UInt32) (misc : UInt16) (size : Nat) : (header type misc size).length = 8 := by
  simp [header]

theorem length_encode (r : PerfRecord) : r.encode.length = 8 + r.payload.length := by simp [encode]

theorem header_type (type : UInt32) (misc : UInt16) (size : Nat) :
    (littleEndian ((header type misc size).take 4)).toUInt32 = type := by
  rw [header, List.take_left' (length_littleEndianBytes _ _)]
  apply UInt32.toNat_inj.mp
  rw [UInt64.toNat_toUInt32, toNat_littleEndian_bytes (by omega)]
  have := type.toNat_lt
  omega

theorem header_size (type : UInt32) (misc : UInt16) {size : Nat} (h : size < 2 ^ 16) :
    (littleEndian ((header type misc size).drop 6)).toNat = size := by
  rw [header, ← List.append_assoc, List.drop_left' (by simp), toNat_littleEndian_bytes (by omega)]
  exact Nat.mod_eq_of_lt h

theorem littleEndian_word (x : UInt64) : littleEndian (littleEndianBytes 8 x.toNat) = x := by
  apply UInt64.toNat_inj.mp
  rw [toNat_littleEndian_bytes (by omega)]
  have := x.toNat_lt
  omega

theorem littleEndian_half (x : UInt32) : (littleEndian (littleEndianBytes 4 x.toNat)).toUInt32 = x := by
  apply UInt32.toNat_inj.mp
  rw [UInt64.toNat_toUInt32, toNat_littleEndian_bytes (by omega)]
  have := x.toNat_lt
  omega

/-- The reader gets back the sample that was written. -/
theorem sampleOf_fields (ip time period : UInt64) (rec : LlRec) :
    Mapping.sampleOf (fields ip time period rec) = some rec := by
  simp only [Mapping.sampleOf, fields, List.take_left' (length_littleEndianBytes 4 _),
    List.drop_left' (length_littleEndianBytes 4 _), littleEndian_word, littleEndian_half]

theorem length_of_mem_fields {ip time period : UInt64} {rec : LlRec} {field : List UInt8}
    (h : field ∈ fields ip time period rec) : field.length = 8 := by
  simp only [fields, List.mem_cons, List.not_mem_nil, or_false] at h
  rcases h with h | h | h | h | h | h | h | h <;> simp [h]

theorem payload_bound (r : PerfRecord) : 0 < r.payload.length ∧ 8 + r.payload.length < 2 ^ 16 := by
  cases r with
  | sample misc ip time period rec => simp [payload, fields]
  | other record => exact ⟨List.length_pos_iff.mpr record.bound.1, record.bound.2⟩

theorem eight_dvd_payload (r : PerfRecord) : 8 ∣ r.payload.length := by
  cases r with
  | sample misc ip time period rec => simp [payload, fields]
  | other record => exact record.words

theorem eight_dvd_encodes (queue : List PerfRecord) : 8 ∣ (queue.flatMap encode).length := by
  induction queue with
  | nil => simp
  | cons r queue ih =>
    have hpayload := r.eight_dvd_payload
    rw [List.flatMap_cons, List.length_append, length_encode]
    omega

end PerfRecord

/-! ## Rings of records -/

namespace Mapping

/-- What is pending starts at a whole word. -/
structure Words (m : Mapping) (bytes : List UInt8) : Prop extends Pending m bytes where
  aligned : 8 ∣ m.dataTail

/-- A word never runs over the end of the ring. -/
theorem Words.read {m : Mapping} {word rest : List UInt8} (h : m.Words (word ++ rest)) (hword : word.length = 8) :
    m.mmapBufferRead 8 = some (some (word, m.advance 8)) ∧ (m.advance 8).Words rest := by
  have hread := h.toPending.read
  rw [hword] at hread
  have hring := m.ring.eight_dvd_bytes
  have hpos := m.ring.bytes_pos
  have htail := h.aligned
  have hcell : m.dataTail % m.ring.bytes < m.ring.bytes := Nat.mod_lt _ hpos
  have hmod : 8 ∣ m.dataTail % m.ring.bytes := (Nat.dvd_mod_iff hring).mpr htail
  rw [if_pos (by omega)] at hread
  exact ⟨hread, h.toPending.advance hword.symm, by rw [advance_dataTail]; omega⟩

theorem Words.readWords {m : Mapping} {words : List (List UInt8)} {rest : List UInt8} (size : Int)
    (h : m.Words (words.flatten ++ rest)) (hwords : ∀ word ∈ words, word.length = 8) :
    readWords words.length m size = some (words, m.advance (8 * words.length), size - 8 * words.length) ∧
      (m.advance (8 * words.length)).Words rest := by
  induction words generalizing m size with
  | nil => exact ⟨by simp [Mapping.readWords, advance_zero], by simpa [advance_zero] using h⟩
  | cons word words ih =>
    rw [List.flatten_cons, List.append_assoc] at h
    obtain ⟨hword, htail⟩ := List.forall_mem_cons.mp hwords
    obtain ⟨hread, hnext⟩ := h.read hword
    obtain ⟨hreads, hrest⟩ := ih (size - 8) hnext htail
    have hadvance : (m.advance 8).advance (8 * words.length) = m.advance (8 * (words.length + 1)) := by
      rw [advance_advance]
      congr 1
      omega
    rw [hadvance] at hreads hrest
    refine ⟨?_, hrest⟩
    have hsize : size - 8 - 8 * (words.length : Int) = size - 8 * ((words.length + 1 : Nat) : Int) := by omega
    rw [hsize] at hreads
    simp only [List.length_cons, Mapping.readWords, hread, hreads, Option.bind_eq_bind, Option.bind_some]

/-- The header of the first record, as `pf_ll_record` reads it. -/
theorem Words.pfLlRecord {m : Mapping} {r : PerfRecord} {rest : List UInt8} (h : m.Words (r.encode ++ rest)) :
    m.pfLlRecord =
      (if r.type = perfRecordSample then do
        let (rec, m) ← (m.advance 8).llSampleRead r.payload.length
        some (rec, rec.isSome, m)
      else some (none, true, (m.advance 8).mmapBufferSkip r.payload.length)) ∧
      (m.advance 8).Words (r.payload ++ rest) := by
  rw [PerfRecord.encode, List.append_assoc] at h
  obtain ⟨hread, hrest⟩ := h.read (PerfRecord.length_header _ _ _)
  obtain ⟨hpos, hbound⟩ := r.payload_bound
  refine ⟨?_, hrest⟩
  have hsize : (8 + r.payload.length : Nat) - 8 = (r.payload.length : Int) := by omega
  have hmore : ¬ (r.payload.length : Int) ≤ 0 := by omega
  simp only [Mapping.pfLlRecord, hread, Option.bind_eq_bind, Option.bind_some, PerfRecord.header_type,
    PerfRecord.header_size _ _ hbound, hsize, if_neg hmore]

theorem Words.llSampleRead {m : Mapping} {ip time period : UInt64} {rec : LlRec} {rest : List UInt8}
    (h : m.Words ((PerfRecord.fields ip time period rec).flatten ++ rest)) :
    m.llSampleRead 64 = some (some rec, m.advance 64) ∧ (m.advance 64).Words rest := by
  obtain ⟨hreads, hrest⟩ := h.readWords 64 (fun _ => PerfRecord.length_of_mem_fields)
  have hlength : (PerfRecord.fields ip time period rec).length = 8 := rfl
  rw [hlength] at hreads hrest
  refine ⟨?_, hrest⟩
  simp only [Mapping.llSampleRead, hreads, Option.bind_eq_bind, Option.bind_some, PerfRecord.sampleOf_fields]
  rfl

/-- A ring with these records, the next one first. -/
def Represents (m : Mapping) (queue : List PerfRecord) : Prop := m.Words (queue.flatMap PerfRecord.encode)

end Mapping

namespace PerfRecord

/-- What `pf_ll_record` gets out of a record. -/
def taken : PerfRecord → Option LlRec
  | .sample _ _ _ _ rec => some rec
  | .other _ => none

/-- What it leaves of the records behind: a record that is no sample is skipped. -/
def leaves (r : PerfRecord) (head : Nat) (queue : List PerfRecord) : List PerfRecord :=
  if r.taken.isSome ∨ Mapping.SeesHead head then queue else []

end PerfRecord

namespace Mapping

theorem Represents.nil {m : Mapping} (h : m.Represents []) : m.pfLlRecord = some (none, false, m) := by
  have hread : m.mmapBufferRead 8 = some none := h.toPending.read_short (by simp)
  simp only [Mapping.pfLlRecord, hread, Option.bind_eq_bind, Option.bind_some]

/-- A round of the loop takes the first record. -/
theorem Represents.cons {m : Mapping} {r : PerfRecord} {queue : List PerfRecord} (h : m.Represents (r :: queue))
    (hhead : m.dataHead < 2 ^ 63) :
    ∃ n, m.pfLlRecord = some (r.taken, true, m.advance n) ∧
      (m.advance n).Represents (r.leaves m.dataHead queue) := by
  rw [Represents, List.flatMap_cons] at h
  obtain ⟨hround, hpayload⟩ := h.pfLlRecord
  cases r with
  | sample misc ip time period rec =>
    obtain ⟨hsample, hrest⟩ := hpayload.llSampleRead
    have hlength : (PerfRecord.sample misc ip time period rec).payload.length = 64 := by
      simp [PerfRecord.payload, PerfRecord.fields]
    rw [advance_advance] at hsample hrest
    have hleaves : (PerfRecord.sample misc ip time period rec).leaves m.dataHead queue = queue := by
      simp [PerfRecord.leaves, PerfRecord.taken]
    have htype : (PerfRecord.sample misc ip time period rec).type = perfRecordSample := rfl
    refine ⟨8 + 64, ?_, hleaves ▸ hrest⟩
    rw [hround, hlength, if_pos htype]
    simp [hsample, PerfRecord.taken]
  | other record =>
    have hskip := hpayload.toPending.mmapBufferSkip_eq (by simpa using hhead)
    have hleft := hpayload.toPending.skip (by simpa using hhead)
    rw [hskip, advance_advance, advance_dataHead] at hleft
    rw [advance_advance, advance_dataHead] at hskip
    have htype : (PerfRecord.other record).type ≠ perfRecordSample := record.ne
    have hwords := (PerfRecord.other record).eight_dvd_payload
    have hqueue : (if SeesHead m.dataHead then queue.flatMap PerfRecord.encode else []) =
        ((PerfRecord.other record).leaves m.dataHead queue).flatMap PerfRecord.encode := by
      by_cases hsees : SeesHead m.dataHead <;> simp [PerfRecord.leaves, PerfRecord.taken, hsees]
    rw [hqueue] at hleft
    refine ⟨_, ?_, Words.mk hleft ?_⟩
    · rw [hround, if_neg htype, hskip]
      rfl
    · have htail := h.aligned
      have hrest := PerfRecord.eight_dvd_encodes queue
      rw [advance_dataTail]
      split_ifs <;> omega

theorem Represents.eq_nil {m : Mapping} {queue : List PerfRecord} (h : m.Represents queue) (hempty : m.Represents []) :
    queue = [] := by
  have hlength := h.toPending.length
  have hzero := hempty.toPending.length
  cases queue with
  | nil => rfl
  | cons r queue =>
    simp only [List.flatMap_cons, List.flatMap_nil, List.length_append, PerfRecord.length_encode,
      List.length_nil] at hlength hzero
    omega

/-- A round leaves the records behind the first exactly if that is a sample, the skip sees the head, or there are
none. Otherwise nothing is left. -/
theorem pfLlRecord_keeps_iff {m : Mapping} {r : PerfRecord} {queue : List PerfRecord} (h : m.Represents (r :: queue))
    (hhead : m.dataHead < 2 ^ 63) :
    ∃ m', m.pfLlRecord = some (r.taken, true, m') ∧
      (m'.Represents queue ↔ r.taken.isSome ∨ SeesHead m.dataHead ∨ queue = []) ∧
      (¬ (r.taken.isSome ∨ SeesHead m.dataHead ∨ queue = []) → m'.Represents []) := by
  obtain ⟨n, hround, hleft⟩ := h.cons hhead
  refine ⟨m.advance n, hround, ?_⟩
  rw [← or_assoc]
  by_cases hkeeps : r.taken.isSome ∨ SeesHead m.dataHead
  · rw [PerfRecord.leaves, if_pos hkeeps] at hleft
    exact ⟨iff_of_true hleft (.inl hkeeps), fun hno => absurd (.inl hkeeps) hno⟩
  · rw [PerfRecord.leaves, if_neg hkeeps] at hleft
    refine ⟨?_, fun _ => hleft⟩
    constructor
    · intro hqueue
      exact .inr (hqueue.eq_nil hleft)
    · intro hqueue
      rw [hqueue.resolve_left hkeeps]
      exact hleft

/-- Whether the kernel has room for one more record. -/
def Fits (ring : RingSize) (queue : List PerfRecord) (r : PerfRecord) : Prop :=
  ((queue ++ [r]).flatMap PerfRecord.encode).length ≤ ring.bytes

instance (ring : RingSize) (queue : List PerfRecord) (r : PerfRecord) : Decidable (Fits ring queue r) :=
  inferInstanceAs (Decidable (_ ≤ _))

theorem Represents.perfOutput {m : Mapping} {queue : List PerfRecord} (h : m.Represents queue) (r : PerfRecord) :
    (m.perfOutput r.encode).Represents (if Fits m.ring queue r then queue ++ [r] else queue) := by
  have hpending := h.toPending.perfOutput r.encode
  have htail : (m.perfOutput r.encode).dataTail = m.dataTail := by
    rw [Mapping.perfOutput]
    split_ifs <;> rfl
  refine ⟨?_, htail ▸ h.aligned⟩
  simp only [Fits, List.flatMap_append, List.flatMap_cons, List.flatMap_nil, List.append_nil, List.length_append]
  split_ifs with hfits
  · rw [if_pos hfits] at hpending
    simpa using hpending
  · rwa [if_neg hfits] at hpending

@[simp] theorem perfOutput_ring (m : Mapping) (record : List UInt8) : (m.perfOutput record).ring = m.ring := by
  rw [Mapping.perfOutput]
  split_ifs <;> rfl

theorem Represents.perfOutput_dataHead {m : Mapping} {queue : List PerfRecord} (h : m.Represents queue)
    (r : PerfRecord) :
    (m.perfOutput r.encode).dataHead = m.dataHead + if Fits m.ring queue r then r.encode.length else 0 := by
  have hroom : m.dataHead - m.dataTail + r.encode.length ≤ m.ring.bytes ↔ Fits m.ring queue r := by
    have hlength := h.toPending.length
    simp only [Fits, List.flatMap_append, List.flatMap_cons, List.flatMap_nil, List.append_nil, List.length_append]
    omega
  by_cases hfits : Fits m.ring queue r
  · rw [Mapping.perfOutput, if_pos (hroom.mpr hfits), if_pos hfits]
  · rw [Mapping.perfOutput, if_neg (fun hle => hfits (hroom.mp hle)), if_neg hfits, Nat.add_zero]

/-- A ring out of which everything was read when the kernel had written `n` zero bytes. -/
def drained (ring : RingSize) (n : Nat) : Mapping := { fresh ring with dataHead := n, dataTail := n }

@[simp] theorem drained_ring (ring : RingSize) (n : Nat) : (drained ring n).ring = ring := rfl

theorem drained_represents (ring : RingSize) {n : Nat} (hn : 8 ∣ n) : (drained ring n).Represents [] where
  stream := ⟨List.replicate n 0, RingBuffer.Holds.replicate _ _ _, List.length_replicate, by simp [drained]⟩
  le := Nat.le_refl _
  room := Nat.le_add_right _ _
  aligned := hn

/-- `PERF_RECORD_LOST` -/
def lostRecord : OtherRecord where
  type := 2
  misc := 0
  payload := List.replicate 16 0
  ne := by decide
  words := by decide
  bound := by decide

/-- A sample that is written behind a record of another kind. -/
def sampleBehindLost (head : Nat) : Mapping :=
  ((drained ⟨.normal, 0, Nat.zero_le 20⟩ head).perfOutput (PerfRecord.other lostRecord).encode).perfOutput
    (PerfRecord.sample 0 0 0 0 ⟨7, 7, 4096, 0, 20, 0⟩).encode

/-- The sample is kept below 2 GiB, and dropped after 4 GiB. -/
theorem pfLlRecord_keeps_iff_lost :
    (∃ m', (sampleBehindLost 0).pfLlRecord = some (none, true, m') ∧
      m'.Represents [.sample 0 0 0 0 ⟨7, 7, 4096, 0, 20, 0⟩]) ∧
    ∃ m', (sampleBehindLost (2 ^ 32)).pfLlRecord = some (none, true, m') ∧
      ¬ m'.Represents [.sample 0 0 0 0 ⟨7, 7, 4096, 0, 20, 0⟩] ∧ m'.Represents [] := by
  have hring (head : Nat) (h : 8 ∣ head) : (sampleBehindLost head).Represents
      [.other lostRecord, .sample 0 0 0 0 ⟨7, 7, 4096, 0, 20, 0⟩] := by
    have hlost := (drained_represents ⟨.normal, 0, Nat.zero_le 20⟩ h).perfOutput (.other lostRecord)
    rw [drained_ring, if_pos (by decide), List.nil_append] at hlost
    have hsample := hlost.perfOutput (.sample 0 0 0 0 ⟨7, 7, 4096, 0, 20, 0⟩)
    rw [perfOutput_ring, drained_ring, if_pos (by decide)] at hsample
    exact hsample
  have hlow : SeesHead (sampleBehindLost 0).dataHead := by decide
  have hhigh : ¬ SeesHead (sampleBehindLost (2 ^ 32)).dataHead := by decide
  constructor
  · obtain ⟨m', hround, hiff, -⟩ := pfLlRecord_keeps_iff (hring 0 (by decide)) (by decide)
    exact ⟨m', hround, hiff.mpr (.inr (.inl hlow))⟩
  · obtain ⟨m', hround, hiff, hdropped⟩ := pfLlRecord_keeps_iff (hring (2 ^ 32) (by decide)) (by decide)
    have hno : ¬ ((PerfRecord.other lostRecord).taken.isSome ∨ SeesHead (sampleBehindLost (2 ^ 32)).dataHead ∨
        [PerfRecord.sample 0 0 0 0 ⟨7, 7, 4096, 0, 20, 0⟩] = []) := by
      rintro (htaken | hsees | hnil)
      · cases htaken
      · exact hhigh hsees
      · cases hnil
    exact ⟨m', hround, fun hkept => hno (hiff.mp hkept), hdropped hno⟩

end Mapping

end AutopinPlus
