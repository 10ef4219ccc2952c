import Mathlib.Data.BitVec

/-!
# `struct perf_event_attr`

The fields of the kernel's structure with their widths. The fields of a union share their storage,
so an assignment to one of them is one to all, and an assigned value is cut to the width.
-/
namespace AutopinPlus

inductive PerfField where
  | type | size | config | samplePeriod | sampleFreq | sampleType | readFormat
  | disabled | inherit | pinned | exclusive | excludeUser | excludeKernel | excludeHv | excludeIdle
  | mmap | comm | freq | inheritStat | enableOnExec | task | watermark | preciseIp | mmapData
  | sampleIdAll | excludeHost | excludeGuest | excludeCallchainKernel | excludeCallchainUser | mmap2
  | commExec | useClockid | reserved1 | wakeupEvents | wakeupWatermark | bpType | bpAddr | config1
  | bpLen | config2 | branchSampleType | sampleRegsUser | sampleStackUser | clockid | sampleRegsIntr
  | auxWatermark | reserved2
  deriving DecidableEq, Repr

namespace PerfField

/-- The name in the header. -/
def name : PerfField → String
  | type => "type" | size => "size" | config => "config"
  | samplePeriod => "sample_period" | sampleFreq => "sample_freq"
  | sampleType => "sample_type" | readFormat => "read_format"
  | disabled => "disabled" | inherit => "inherit" | pinned => "pinned" | exclusive => "exclusive"
  | excludeUser => "exclude_user" | excludeKernel => "exclude_kernel" | excludeHv => "exclude_hv"
  | excludeIdle => "exclude_idle" | mmap => "mmap" | comm => "comm" | freq => "freq"
  | inheritStat => "inherit_stat" | enableOnExec => "enable_on_exec" | task => "task"
  | watermark => "watermark" | preciseIp => "precise_ip" | mmapData => "mmap_data"
  | sampleIdAll => "sample_id_all" | excludeHost => "exclude_host" | excludeGuest => "exclude_guest"
  | excludeCallchainKernel => "exclude_callchain_kernel"
  | excludeCallchainUser => "exclude_callchain_user" | mmap2 => "mmap2" | commExec => "comm_exec"
  | useClockid => "use_clockid" | reserved1 => "__reserved_1"
  | wakeupEvents => "wakeup_events" | wakeupWatermark => "wakeup_watermark" | bpType => "bp_type"
  | bpAddr => "bp_addr" | config1 => "config1" | bpLen => "bp_len" | config2 => "config2"
  | branchSampleType => "branch_sample_type" | sampleRegsUser => "sample_regs_user"
  | sampleStackUser => "sample_stack_user" | clockid => "clockid"
  | sampleRegsIntr => "sample_regs_intr" | auxWatermark => "aux_watermark" | reserved2 => "__reserved_2"

/-- The first field of the union, for a field of one. -/
def storage : PerfField → PerfField
  | sampleFreq => samplePeriod
  | wakeupWatermark => wakeupEvents
  | config1 => bpAddr
  | config2 => bpLen
  | f => f

/-- The width of what is stored, in bits. -/
def storageWidth : PerfField → Nat
  | type | size | wakeupEvents | bpType | sampleStackUser | clockid | auxWatermark | reserved2 => 32
  | config | samplePeriod | sampleType | readFormat | bpAddr | bpLen | branchSampleType | sampleRegsUser
  | sampleRegsIntr => 64
  | preciseIp => 2
  | reserved1 => 38
  | _ => 1

def width (f : PerfField) : Nat := f.storage.storageWidth

/-- A value as the field keeps it. -/
def cut (f : PerfField) (value : BitVec 64) : BitVec 64 := (value.setWidth f.width).setWidth 64

theorem cut_congr {f g : PerfField} (h : f.storage = g.storage) (value : BitVec 64) : f.cut value = g.cut value := by
  have hwidth : f.width = g.width := congrArg storageWidth h
  rw [cut, cut, hwidth]

theorem cut_lt (f : PerfField) (value : BitVec 64) : (f.cut value).toNat < 2 ^ f.width := by
  rw [cut, BitVec.toNat_setWidth]
  exact Nat.lt_of_le_of_lt (Nat.mod_le _ _) (BitVec.isLt _)

theorem cut_wide {f : PerfField} (h : f.width = 64) (value : BitVec 64) : f.cut value = value := by
  rw [cut, h, BitVec.setWidth_eq, BitVec.setWidth_eq]

end PerfField

/-- The value of every field. -/
structure PerfEventAttr where
  get : PerfField → BitVec 64
  bounded : ∀ f, (get f).toNat < 2 ^ f.width
  shared : ∀ f g, f.storage = g.storage → get f = get g

namespace PerfEventAttr

/-- After `memset`. -/
def zero : PerfEventAttr where
  get _ := 0
  bounded _ := Nat.two_pow_pos _
  shared _ _ _ := rfl

def assign (f : PerfField) (value : BitVec 64) (a : PerfEventAttr) : PerfEventAttr where
  get g := if g.storage = f.storage then g.cut value else a.get g
  bounded g := by
    split
    · exact g.cut_lt value
    · exact a.bounded g
  shared g h hgh := by
    simp only [hgh]
    split
    · exact PerfField.cut_congr hgh value
    · exact a.shared g h hgh

@[simp] theorem get_assign (f g : PerfField) (value : BitVec 64) (a : PerfEventAttr) :
    (a.assign f value).get g = if g.storage = f.storage then g.cut value else a.get g := rfl

@[simp] theorem get_zero (f : PerfField) : zero.get f = 0 := rfl

/-- The members have no padding between them. -/
def sizeof : BitVec 64 := 112

/-- The attributes every sensor starts with. -/
def initial : PerfEventAttr := (zero.assign .disabled 1).assign .size sizeof

theorem get_initial (f : PerfField) :
    initial.get f = if f = .disabled then 1 else if f = .size then sizeof else 0 := by
  cases f <;> decide

end PerfEventAttr

end AutopinPlus
