import Mathlib.Data.Nat.Digits.Defs
import AutopinPlus.PerfEventAttr
import AutopinPlus.Tools

/-!
# Sensors

`readSensor` turns the text of an option into the attributes of a counter. The text names an event of
sysfs, a counter the kernel abstracts or the attributes themselves; one family of texts is read by
reading another text of the same family first.
-/
namespace AutopinPlus

variable {D : Type}

namespace QString

/-- `number` of an unsigned value. -/
def number (n base : Nat) : String :=
  if n = 0 then "0"
  else String.ofList ((Nat.digits base n).reverse.map fun d => Char.ofNat (if d < 10 then 48 + d else 87 + d))

example : number 35 36 = "z" ∧ number 36 36 = "10" := by decide +kernel

end QString

structure Sensor (D : Type) where
  attr : PerfEventAttr
  name : String
  processors : List Int
  scale : D
  unit : String

/-- What `readSensor` needs besides its text: the files, the functions of Qt that are not modelled, and
what the machine makes of a shift by 64 or more, which the language leaves open. -/
structure SensorHost (D : Type) extends Sysfs where
  absolutePath : String → String
  toDouble : String → Option D
  wideShift : BitVec 64 → BitVec 64 → BitVec 64

namespace SensorHost

/-- `<<` on `unsigned long`. -/
def shiftLeft (h : SensorHost D) (value count : BitVec 64) : BitVec 64 :=
  if count.toNat < 64 then value <<< count.toNat else h.wideShift value count

end SensorHost

namespace Sensor

/-- A sensor that only has its name. -/
def ofInput [One D] (input : String) : Sensor D where
  attr := .initial
  name := input
  processors := []
  scale := 1
  unit := ""

variable (h : SensorHost D) (name : String)

/-- The beginning of an exception. -/
def failed (input : String) : String := name ++ ".readSensor(" ++ input ++ ")"

def notSupported (input field : String) : String :=
  failed name input ++ " failed: Setting the " ++ field ++ " field in the perf_event_attr struct is not supported."

/-! ## Events of sysfs -/

/-- What is assigned in a `try` block, or stays as it was. -/
def orElse {α : Type} (result : Except String α) (fallback : α) : α := result.toOption.getD fallback

/-- The fields of a format entry that can be set. -/
def configFields : List (String × PerfField) := [("config", .config), ("config1", .config1), ("config2", .config2)]

/-- One pass of the loop over the selectors. -/
def applySelector (input : String) (attr : PerfEventAttr) (selector : String) : Except String PerfEventAttr := do
  let variableValue := orElse (Tools.readPair selector '=') (selector, "1")
  let value ← Tools.readULong variableValue.2
  let format ← Tools.readLine h.toSysfs (h.absolutePath input ++ "/../format/" ++ variableValue.1)
  let fieldPosition ← Tools.readPair format ':'
  let lowerUpper := orElse (Tools.readPair fieldPosition.2 '-') (fieldPosition.2, fieldPosition.2)
  let lower ← Tools.readULong lowerUpper.1
  let upper ← Tools.readULong lowerUpper.2
  let bits := upper - lower + 1
  if h.shiftLeft 1 bits ≤ value then
    .error (failed name input ++ " failed: Could not fit " ++ toString value.toNat ++ " in " ++
      toString bits.toNat ++ " bits.")
  else
    match configFields.lookup fieldPosition.1 with
    | some field => .ok (attr.assign field (attr.get field ||| h.shiftLeft value lower))
    | none => .error (notSupported name input fieldPosition.1)

/-- The sensor of an event whose attributes are known. Nothing that is read here can make it fail. -/
def sysfsSensor [One D] (input : String) (attr : PerfEventAttr) : Sensor D :=
  { (ofInput input : Sensor D) with
    attr := attr
    scale := orElse ((Tools.readLine h.toSysfs (input ++ ".scale")).bind (Tools.readDouble h.toDouble)) 1
    unit := orElse (Tools.readLine h.toSysfs (input ++ ".unit")) ""
    processors := orElse ((Tools.readLine h.toSysfs (h.absolutePath input ++ "/../cpumask")).bind
      fun line => Tools.readInts (QString.splitAll ',' line)) [] }

def readSysfs [One D] (input : String) : Except String (Sensor D) := do
  let type ← Tools.readULong (← Tools.readLine h.toSysfs (h.absolutePath input ++ "/../type"))
  let selectors ← Tools.readLine h.toSysfs input
  let attr ← (QString.splitAll ',' selectors).foldlM (applySelector h name input)
    (PerfEventAttr.initial.assign .type type)
  .ok (sysfsSensor h input attr)

/-! ## Counters of the kernel -/

def typeHardware : BitVec 64 := 0
def typeSoftware : BitVec 64 := 1
def typeHwCache : BitVec 64 := 3

def hardwareCounters : List (String × BitVec 64) :=
  [("hardware/cpu-cycles", 0), ("hardware/instructions", 1), ("hardware/cache-references", 2),
   ("hardware/cache-misses", 3), ("hardware/branch-instructions", 4), ("hardware/branch-misses", 5),
   ("hardware/bus-cycles", 6), ("hardware/stalled-cycles-frontend", 7),
   ("hardware/stalled-cycles-backend", 8), ("hardware/ref-cpu-cycles", 9)]

def softwareCounters : List (String × BitVec 64) :=
  [("software/cpu-clock", 0), ("software/task-clock", 1), ("software/page-faults", 2),
   ("software/context-switches", 3), ("software/cpu-migrations", 4), ("software/page-faults-min", 5),
   ("software/page-faults-maj", 6), ("software/alignment-faults", 7), ("software/emulation-faults", 8),
   ("software/dummy", 9)]

def caches : List (String × BitVec 64) :=
  [("l1d", 0), ("l1i", 1), ("ll", 2), ("dtlb", 3), ("itlb", 4), ("bpu", 5), ("node", 6)]

def cacheOps : List (String × BitVec 64) := [("read", 0), ("write", 1), ("prefetch", 2)]

def cacheResults : List (String × BitVec 64) := [("access", 0), ("miss", 1)]

/-- There is a branch for every combination. -/
def cacheCounters : List (String × BitVec 64) :=
  caches.flatMap fun cache => cacheOps.flatMap fun op => cacheResults.map fun result =>
    ("cache/" ++ cache.1 ++ "-" ++ op.1 ++ "-" ++ result.1, cache.2 ||| op.2.shiftLeft 8 ||| result.2.shiftLeft 16)

/-- A text that is compared with the names of a table. -/
def readCounter [One D] (type : BitVec 64) (counters : List (String × BitVec 64)) (unknown input : String) :
    Except String (Sensor D) :=
  match counters.lookup input with
  | some config => .ok { ofInput input with attr := (PerfEventAttr.initial.assign .type type).assign .config config }
  | none => .error (failed name input ++ unknown)

/-! ## Gate sensors -/

/-- The three constants that are combined with these are 0. -/
def gateCounters : List (String × BitVec 64) :=
  [("gate/diagnostic", 0x61485B1B4A325B1B), ("gate/diagnostid", 0x7568732E2E2E6D6C),
   ("gate/diagnostie", 0x2E2E2E2E6873726B), ("gate/diagnostif", 0x2E2E727A7A616866),
   ("gate/diagnostig", 0x2E65687574747364), ("gate/diagnostih", 0x1B00000000002E2E),
   ("gate/diagnostii", 0x6874485B1B4A325B), ("gate/diagnostij", 0x6562652E2E2E7265),
   ("gate/diagnostik", 0x696F65687320206E), ("gate/diagnostil", 0x616172662E2E2E2E),
   ("gate/diagnostim", 0x7074732E2E2E7273), ("gate/diagnostin", 0x726D2E2E2E6F6E70),
   ("gate/diagnostio", 0x6C756A6E6F726761), ("gate/diagnostip", 0x680A0A616E747265),
   ("gate/diagnostiq", 0x0000000A0A706C65), ("gate/diagnostir", 0x7261206F68570000),
   ("gate/diagnostis", 0x0A0A3F756F792065), ("gate/diagnostit", 0x746562617A696C65),
   ("gate/diagnostiu", 0x0000726965772068), ("gate/diagnostiv", 0x1B4A325B1B000000),
   ("gate/diagnostiw", 0x206572656857485B), ("gate/diagnostix", 0x3F756F7920657261),
   ("gate/diagnostiy", 0x7475706D6F630A0A), ("gate/diagnostiz", 0x69666669640A7265),
   ("gate/diagnostj0", 0x7275630A746C7563), ("gate/diagnostj1", 0x6E6F6320746E6572),
   ("gate/diagnostj2", 0x0A0A6E6F69746964), ("gate/diagnostj3", 0x5700000000000000),
   ("gate/diagnostj4", 0x7070616820746168), ("gate/diagnostj5", 0x206F742064656E65),
   ("gate/diagnostj6", 0x000000003F756F79), ("gate/diagnostj7", 0x485B1B4A325B1B00),
   ("gate/diagnostj8", 0x6563617073627573), ("gate/diagnostj9", 0x756369666669640A),
   ("gate/diagnostja", 0x72746E6F6320746C), ("gate/diagnostjb", 0x6E697972740A6C6F),
   ("gate/diagnostjc", 0x000000006F742067), ("gate/diagnostjd", 0x485B1B4A325B1B00),
   ("gate/diagnostje", 0x20756F7920646944), ("gate/diagnostjf", 0x3F74616874206F64),
   ("gate/diagnostjg", 0x7266776C6C610A0A), ("gate/diagnostjh", 0x2065746675736162),
   ("gate/diagnostji", 0x737A7769647A6620), ("gate/diagnostjj", 0x0000000A0A786D20),
   ("gate/diagnostjk", 0x6F79206572410000), ("gate/diagnostjl", 0x206C6C6974732075),
   ("gate/diagnostjm", 0x0A0A3F6572656874), ("gate/diagnostjn", 0x00656D20706C6568)]

/-- The sensor, which is printed as eight characters. An unknown name leaves `config` as it is. -/
def gateSensor [One D] (input : String) : Sensor D :=
  { ofInput input with
    attr := (PerfEventAttr.initial.assign .type typeHardware).assign .config ((gateCounters.lookup input).getD 0) }

/-- The text that is read next: what stands behind the first slash is counted up in base 36. -/
def nextGate (input : String) : String :=
  let suffix := (QString.toULong 36 ((QString.splitAll '/' input).getD 1 "")).getD 0
  "gate/" ++ QString.number ((suffix + 1) % 2 ^ 64) 36

/-! ## Attributes -/

/-- The comparisons of a key, in the order of the source. -/
def keys : List (String × PerfField) :=
  [("type", .type), ("size", .size), ("config", .config), ("sample_period", .samplePeriod),
   ("sample_freq", .sampleFreq), ("sample_type", .sampleType), ("read_format;", .readFormat),
   ("disabled", .disabled), ("inherit", .inherit), ("pinned", .pinned), ("exclusive", .exclusive),
   ("exclude_user", .excludeUser), ("exclude_kernel", .excludeKernel), ("exclude_hv", .excludeHv),
   ("exclude_idle", .excludeIdle), ("mmap", .mmap), ("comm", .comm), ("freq", .freq),
   ("inherit_stat", .inheritStat), ("enable_on_exec", .enableOnExec), ("task", .task),
   ("watermark", .watermark), ("precise_ip", .preciseIp), ("mmap_data", .mmapData),
   ("sample_id_all", .sampleIdAll), ("exclude_host", .excludeHost), ("exclude_guest", .excludeGuest),
   ("exclude_callchain_kernel", .excludeCallchainKernel), ("exclude_callchain_user", .excludeCallchainUser),
   ("mmap2 ", .mmap2), ("__reserved_1", .reserved1), ("wakeup_events", .wakeupEvents),
   ("wakeup_watermark", .wakeupWatermark), ("bp_type", .bpType), ("bp_addr", .bpAddr), ("config1", .config1),
   ("bp_len", .bpLen), ("config2", .config2), ("branch_sample_type", .branchSampleType),
   ("sample_regs_user", .sampleRegsUser), ("sample_stack_user", .sampleStackUser),
   ("__reserved_2", .reserved2)]

/-- One pass of the loop over the settings. -/
def applySetting (input : String) (attr : PerfEventAttr) (setting : String) : Except String PerfEventAttr := do
  let fieldValue ← Tools.readPair setting '='
  let value ← Tools.readULong fieldValue.2
  match keys.lookup fieldValue.1 with
  | some field => .ok (attr.assign field value)
  | none => .error (notSupported name input fieldValue.1)

def readSettings [One D] (input : String) : Except String (Sensor D) := do
  let prefixConfig ← Tools.readPair input '/'
  let attr ← (QString.splitAll ',' prefixConfig.2).foldlM (applySetting name input) .initial
  .ok { ofInput input with attr := attr }

/-! ## All texts -/

open QString in
/-- The function, for at most `calls` calls of it inside one another. -/
def readSensor [One D] : Nat → String → Option (Except String (Sensor D))
  | 0, _ => none
  | calls + 1, input =>
    if startsWith input "/" then some (readSysfs h name input)
    else if startsWith input "hardware/" then
      some (readCounter name typeHardware hardwareCounters ": Unknown hardware sensor." input)
    else if startsWith input "cache/" then
      some (readCounter name typeHwCache cacheCounters ": failed: Unknown cache sensor." input)
    else if startsWith input "gate/" then
      -- the sensor that is read next is thrown away, an exception is not
      (readSensor calls (nextGate input)).map fun next => next.map fun _ => gateSensor input
    else if startsWith input "software/" then
      some (readCounter name typeSoftware softwareCounters ": Unknown software sensor." input)
    else if startsWith input "perf_event_attr/" then some (readSettings name input)
    else some (.error (failed name input ++ " failed: Unknown sensor format."))

end Sensor

/-! ## Which texts are read by a call alone -/

namespace QString

theorem startsWith_iff (s start : String) : startsWith s start = true ↔ start.toList <+: s.toList :=
  List.isPrefixOf_iff_prefix

/-- A text does not start with two texts that differ. -/
theorem startsWith_other {s a b : String} (ha : startsWith s a = true) (hab : ¬ a.toList <+: b.toList)
    (hba : ¬ b.toList <+: a.toList) : startsWith s b = false := by
  rw [Bool.eq_false_iff]
  intro hb
  rw [startsWith_iff] at ha hb
  rcases List.prefix_or_prefix_of_prefix ha hb with h | h
  · exact hab h
  · exact hba h

theorem startsWith_append (a b : String) : startsWith (a ++ b) a = true := by
  rw [startsWith_iff, String.toList_append]
  exact List.prefix_append _ _

end QString

namespace Sensor

open QString

variable [One D] (h : SensorHost D) (name : String)

theorem readSensor_sysfs {input : String} (hs : startsWith input "/" = true) (calls : Nat) :
    readSensor h name (calls + 1) input = some (readSysfs h name input) := if_pos hs

theorem readSensor_settings {input : String} (hs : startsWith input "perf_event_attr/" = true) (calls : Nat) :
    readSensor h name (calls + 1) input = some (readSettings name input) := by
  have h1 := startsWith_other (b := "/") hs (by decide) (by decide)
  have h2 := startsWith_other (b := "hardware/") hs (by decide) (by decide)
  have h3 := startsWith_other (b := "cache/") hs (by decide) (by decide)
  have h4 := startsWith_other (b := "gate/") hs (by decide) (by decide)
  have h5 := startsWith_other (b := "software/") hs (by decide) (by decide)
  simp only [readSensor, h1, h2, h3, h4, h5, hs, Bool.false_eq_true, if_true, if_false]

theorem readSensor_gate {input : String} (hs : startsWith input "gate/" = true) (calls : Nat) :
    readSensor h name (calls + 1) input =
      (readSensor h name calls (nextGate input)).map fun next => next.map fun _ => gateSensor input := by
  have h1 := startsWith_other (b := "/") hs (by decide) (by decide)
  have h2 := startsWith_other (b := "hardware/") hs (by decide) (by decide)
  have h3 := startsWith_other (b := "cache/") hs (by decide) (by decide)
  simp only [readSensor, h1, h2, h3, hs, Bool.false_eq_true, if_true, if_false]

theorem nextGate_gate (input : String) : startsWith (nextGate input) "gate/" = true := startsWith_append _ _

/-- A gate sensor reads a gate sensor, so that no number of calls is enough. -/
theorem readSensor_gate_none {input : String} (hs : startsWith input "gate/" = true) (calls : Nat) :
    readSensor h name calls input = none := by
  induction calls generalizing input with
  | zero => rfl
  | succ calls ih => rw [readSensor_gate h name hs, ih (nextGate_gate input), Option.map_none]

/-- Every other text is read by one call. -/
theorem readSensor_isSome {input : String} (hs : startsWith input "gate/" = false) :
    (readSensor h name 1 input).isSome = true := by
  simp only [readSensor, hs, Bool.false_eq_true, if_false]
  split_ifs <;> rfl

/-- The calls come to an end exactly for the texts that name no gate sensor. -/
theorem readSensor_terminates_iff (input : String) :
    (∃ calls result, readSensor h name calls input = some result) ↔ startsWith input "gate/" = false := by
  constructor
  · rintro ⟨calls, result, hresult⟩
    rw [Bool.eq_false_iff]
    intro hs
    rw [readSensor_gate_none h name hs] at hresult
    cases hresult
  · intro hs
    exact ⟨1, Option.isSome_iff_exists.mp (readSensor_isSome h name hs)⟩

/-- A machine without a single file. -/
def emptyHost : SensorHost Nat where
  nprocs := 1
  file _ := none
  absolutePath path := path
  toDouble _ := none
  wideShift _ _ := 1

theorem readSensor_diagnostic :
    nextGate "gate/diagnostic" = "gate/diagnostid" ∧
      ¬ ∃ calls result, readSensor emptyHost "gperf" calls "gate/diagnostic" = some result := by
  refine ⟨by decide +kernel, ?_⟩
  rintro ⟨calls, result, hresult⟩
  rw [readSensor_gate_none emptyHost "gperf" (by decide)] at hresult
  cases hresult

end Sensor

end AutopinPlus
