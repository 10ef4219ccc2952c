import Mathlib.Algebra.Group.Nat.Defs
import Mathlib.Algebra.Ring.Int.Defs
import Mathlib.Data.List.AList
import AutopinPlus.SortedSet

/-!
# The host outside autopin+

Everything the program cannot decide itself is an answer of the kernel or of a
device, given by the number of the call, so that a theorem about all `Kernel`s
covers every outcome of every call, also different outcomes of equal calls. The
host remembers what has been asked of it.
-/
namespace AutopinPlus

variable {D : Type}

/-- `std::set<int>` of tids or pids. -/
abbrev TidSet := SortedSet Int

inductive PerfRequest where
  | disable | reset | enable
  deriving DecidableEq, Repr

structure Kernel (D : Type) where
  schedSetaffinity : Nat → Int → Int → Int
  perfEventOpen : Nat → Int → Int → Int
  ioctl : Nat → Int → PerfRequest → Int
  /-- The 64-bit counter value, or `none` for a failed `read`. -/
  read : Nat → Int → Option Nat
  close : Nat → Int → Int
  elapsed : Nat → Int
  /-- The payload of a ClustSafe response, or the text of the exception thrown. -/
  sendCommand : Nat → Except String (List UInt8)
  getRandomValue : Nat → D
  strerror : Nat → String

/-- A kernel on which every call succeeds. -/
def Kernel.succeeding : Kernel Int where
  schedSetaffinity _ _ _ := 0
  perfEventOpen clock _ _ := clock + 3
  ioctl _ _ _ := 0
  read clock _ := some clock
  close _ _ := 0
  elapsed clock := clock
  sendCommand _ := .ok [0, 0, 0, 0, 0, 0, 0, 0]
  getRandomValue clock := clock
  strerror _ := "Success"

structure AffinityCall where
  tid : Int
  cpu : Int
  ret : Int
  deriving DecidableEq, Repr

inductive DescriptorEvent where
  | opened (fd : Int)
  | closed (fd : Int)
  deriving DecidableEq, Repr

/-- The static members of `ClustSafe::Main`; instances are numbered. -/
structure ClustSafeStatic where
  instanceValueMap : AList (fun _ : Nat => Nat) := ∅
  timerStarted : Bool := false
  outlets : List Int := [1]

/-- Both histories have the latest entry first. -/
structure Host where
  clock : Nat := 0
  affinity : List AffinityCall := []
  descriptors : List DescriptorEvent := []
  clustSafe : ClustSafeStatic := {}

namespace Host

/-- `OSServices::setAffinity`. -/
def setAffinity (k : Kernel D) (tid cpu : Int) (h : Host) : Int × Host :=
  let ret := k.schedSetaffinity h.clock tid cpu
  (ret, { h with clock := h.clock + 1, affinity := ⟨tid, cpu, ret⟩ :: h.affinity })

def perfEventOpen (k : Kernel D) (pid cpu : Int) (h : Host) : Int × Host :=
  let fd := k.perfEventOpen h.clock pid cpu
  (fd, { h with clock := h.clock + 1,
                descriptors := if 0 ≤ fd then .opened fd :: h.descriptors else h.descriptors })

def ioctl (k : Kernel D) (fd : Int) (request : PerfRequest) (h : Host) : Int × Host :=
  (k.ioctl h.clock fd request, { h with clock := h.clock + 1 })

def read (k : Kernel D) (fd : Int) (h : Host) : Option Nat × Host :=
  (k.read h.clock fd, { h with clock := h.clock + 1 })

def close (k : Kernel D) (fd : Int) (h : Host) : Int × Host :=
  let ret := k.close h.clock fd
  (ret, { h with clock := h.clock + 1,
                 descriptors := if ret = -1 then h.descriptors else .closed fd :: h.descriptors })

/-- `QElapsedTimer::elapsed`. -/
def elapsed (k : Kernel D) (h : Host) : Int × Host :=
  (k.elapsed h.clock, { h with clock := h.clock + 1 })

def sendCommand (k : Kernel D) (h : Host) : Except String (List UInt8) × Host :=
  (k.sendCommand h.clock, { h with clock := h.clock + 1 })

/-- The CPU of the last `setAffinity` call that succeeded for a tid. -/
def lastAffinity (h : Host) (tid : Int) : Option Int :=
  (h.affinity.find? (fun c => c.tid = tid ∧ c.ret = 0)).map AffinityCall.cpu

@[simp] theorem setAffinity_ret (k : Kernel D) (tid cpu : Int) (h : Host) :
    (h.setAffinity k tid cpu).1 = k.schedSetaffinity h.clock tid cpu := rfl

@[simp] theorem setAffinity_affinity (k : Kernel D) (tid cpu : Int) (h : Host) :
    (h.setAffinity k tid cpu).2.affinity = ⟨tid, cpu, (h.setAffinity k tid cpu).1⟩ :: h.affinity := rfl

@[simp] theorem perfEventOpen_affinity (k : Kernel D) (pid cpu : Int) (h : Host) :
    (h.perfEventOpen k pid cpu).2.affinity = h.affinity := rfl

@[simp] theorem ioctl_affinity (k : Kernel D) (fd : Int) (request : PerfRequest) (h : Host) :
    (h.ioctl k fd request).2.affinity = h.affinity := rfl

@[simp] theorem read_affinity (k : Kernel D) (fd : Int) (h : Host) :
    (h.read k fd).2.affinity = h.affinity := rfl

@[simp] theorem close_affinity (k : Kernel D) (fd : Int) (h : Host) :
    (h.close k fd).2.affinity = h.affinity := rfl

@[simp] theorem elapsed_affinity (k : Kernel D) (h : Host) :
    (h.elapsed k).2.affinity = h.affinity := rfl

@[simp] theorem sendCommand_affinity (k : Kernel D) (h : Host) :
    (h.sendCommand k).2.affinity = h.affinity := rfl

/-- A call for another tid, or one that failed, does not move a tid. -/
theorem lastAffinity_cons_other {h h' : Host} {c : AffinityCall} {tid : Int}
    (hh : h'.affinity = c :: h.affinity) (hc : c.tid ≠ tid ∨ c.ret ≠ 0) :
    h'.lastAffinity tid = h.lastAffinity tid := by
  have hn : ¬ (c.tid = tid ∧ c.ret = 0) := by tauto
  simp [lastAffinity, hh, hn]

theorem lastAffinity_cons_self {h h' : Host} {c : AffinityCall}
    (hh : h'.affinity = c :: h.affinity) (hc : c.ret = 0) :
    h'.lastAffinity c.tid = some c.cpu := by
  simp [lastAffinity, hh, hc]

theorem lastAffinity_congr {h h' : Host} (hh : h'.affinity = h.affinity) (tid : Int) :
    h'.lastAffinity tid = h.lastAffinity tid := by
  simp [lastAffinity, hh]

end Host

end AutopinPlus
