import AutopinPlus.Autopin1
import AutopinPlus.Configuration

/-!
# How a watchdog starts

`Watchdog::slot_watchdogRun` creates the components a configuration asks for, initialises
them and, if no report was fatal by then, starts the process and signals that it is ready.
Whether a report is fatal is decided by its tag alone, and the error state is never left.
-/
namespace AutopinPlus

/-- A report: type, tag and text. -/
structure Report where
  error : AutopinErrors
  opt : String
  msg : String

/-- What the components find outside the configuration; each question has its number. -/
structure Surroundings where
  toDouble : String → DoubleText
  /-- `getenv("HOME")` -/
  homedir : Option String
  getPid : Nat → String → TidSet × List Report
  getCmd : Nat → Int → String
  /-- The text of the exception, where `readSensor` throws one. -/
  readSensor : Nat → String → Option String
  waitForStarted : Nat → List String → Bool
  /-- The pid after `ObservedProcess::start`, and what was reported in it. -/
  start : Nat → Int × List Report

/-- The context of a watchdog while it is set up, and the number of the next question. -/
structure Boot where
  context : AutopinContext := {}
  clock : Nat := 0

namespace Boot

def report (error : AutopinErrors) (opt msg : String) (b : Boot) : Boot :=
  { b with context := b.context.report error opt msg }

def reportAll (reports : List Report) (b : Boot) : Boot :=
  reports.foldl (fun b r => b.report r.error r.opt r.msg) b

def tick (b : Boot) : Boot := { b with clock := b.clock + 1 }

def isError (b : Boot) : Bool := b.context.isError

end Boot

/-! ## Performance monitors -/

inductive MonitorType where
  | clustsafe | gperf | random | pagemigrate
  deriving DecidableEq, Repr

/-- The members of a monitor that its constructor, `init` and the watchdog set. -/
structure MonitorObject where
  name : String
  type : MonitorType
  valtype : Montype
  processors : List Int := []
  monitoredPid : Int := 0
  deriving DecidableEq, Repr

/-- The constructors: only two of them set `valtype`. -/
def MonitorObject.create (name : String) : MonitorType → MonitorObject
  | .clustsafe => { name := name, type := .clustsafe, valtype := .min }
  | .gperf => { name := name, type := .gperf, valtype := .min }
  | .random => { name := name, type := .random, valtype := .unknown }
  | .pagemigrate => { name := name, type := .pagemigrate, valtype := .unknown }

def MonitorType.ofName : String → Option MonitorType
  | "clustsafe" => some .clustsafe
  | "gperf" => some .gperf
  | "random" => some .random
  | "pagemigrate" => some .pagemigrate
  | _ => none

def readMontype (s : String) : Except String Montype :=
  if QString.toLower s = "max" then .ok .max
  else if QString.toLower s = "min" then .ok .min
  else if QString.toLower s = "unknown" then .ok .unknown
  else .error ("PerformanceMonitor::readMontype(" ++ s ++ ") failed: Must be one of 'MAX', 'MIN', 'UNKNOWN'.")

namespace MonitorObject

variable (w : Surroundings) (config : StandardConfiguration)

/-- `Random::Main::init`, without the two bounds of the random values. -/
def initRandom (m : MonitorObject) (b : Boot) : MonitorObject × Boot :=
  let valtype :=
    if config.configOptionExists (m.name ++ ".valtype") = 1 then
      if config.getConfigOption (m.name ++ ".valtype") = "max" then .max
      else if config.getConfigOption (m.name ++ ".valtype") = "min" then .min
      else .unknown
    else .max
  ({ m with valtype := valtype }, b)

/-- The end of `GPerf::Main::init`. -/
def initValtype (m : MonitorObject) (b : Boot) : MonitorObject × Boot :=
  if 0 < config.configOptionExists (m.name ++ ".valtype") then
    match readMontype (config.getConfigOption (m.name ++ ".valtype")) with
    | .ok valtype => ({ m with valtype := valtype }, b)
    | .error what => (m, b.report .badConfig "option_format"
        (m.name ++ ".init(): Could not parse the 'valtype' option (" ++ what ++ ")."))
  else (m, b)

/-- The middle of `GPerf::Main::init`. -/
def initSensor (m : MonitorObject) (b : Boot) : MonitorObject × Boot :=
  if 0 < config.configOptionExists (m.name ++ ".sensor") then
    match w.readSensor b.clock (config.getConfigOption (m.name ++ ".sensor")) with
    | none => initValtype config m b.tick
    | some what => (m, b.tick.report .badConfig "option_format"
        (m.name ++ ".init() failed: Could not parse the 'sensor' option (" ++ what ++ ")."))
  else
    (m, b.report .badConfig "option_missing" (m.name ++ ".init() failed: Could not find the 'sensor' option."))

def initGPerf (m : MonitorObject) (b : Boot) : MonitorObject × Boot :=
  if 0 < config.configOptionExists (m.name ++ ".processors") then
    match Tools.readInts (config.getConfigOptionList (m.name ++ ".processors")) with
    | .ok processors => initSensor w config { m with processors := processors } b
    | .error what => (m, b.report .badConfig "option_format"
        (m.name ++ ".init() failed: Could not parse the 'processors' option (" ++ what ++ ")."))
  else initSensor w config m b

/-- The virtual `init`. `PageMigrate::Main::init` also reads three numbers for the sampling. -/
def init (m : MonitorObject) (b : Boot) : MonitorObject × Boot :=
  match m.type with
  | .clustsafe => (m, b)
  | .gperf => initGPerf w config m b
  | .random => initRandom config m b
  | .pagemigrate => ({ m with valtype := .max }, b)

end MonitorObject

/-! ## The observed process -/

structure ProcessMembers where
  pid : Int := -1
  cmd : String := ""
  trace : Bool := false
  exec : Bool := false
  commAddr : String := ""
  commTimeout : Int := 60

namespace ProcessMembers

variable (w : Surroundings) (config : StandardConfiguration)

/-- `OSServices::getCommDefaultAddr`. -/
def getCommDefaultAddr (b : Boot) : String × Boot :=
  match w.homedir with
  | some homedir => (homedir ++ "/.autopin_socket", b)
  | none => ("", b.report .comm "default_addr" "Cannot determine the user's home directory")

def initCommChan (p : ProcessMembers) (b : Boot) : ProcessMembers × Boot :=
  if config.configOptionExists "CommChan" = 1 then
    if config.configOptionBool w.toDouble "CommChan" then
      if config.getConfigOptionBool w.toDouble "CommChan" then
        ({ p with commAddr := (getCommDefaultAddr w b).1 }, (getCommDefaultAddr w b).2)
      else (p, b)
    else ({ p with commAddr := config.getConfigOption "CommChan" }, b)
  else if 1 < config.configOptionExists "CommChan" then
    (p, b.report .badConfig "inconsistent" "CommChan accepts only one value")
  else (p, b)

/-- The process to attach to, by its pid or by its name. -/
def attach (expr : String) (p : ProcessMembers) (b : Boot) : ProcessMembers × Boot :=
  if QString.isInteger expr then ({ p with pid := (QString.toInt expr).getD 0 }, b)
  else
    let (procs, reports) := w.getPid b.clock expr
    let b := (b.tick).reportAll reports
    match procs.elems with
    | [] => (p, b.report .process "not_found" ("No process found with name " ++ expr))
    | [pid] => ({ p with pid := pid, cmd := w.getCmd b.clock pid }, b.tick)
    | _ :: _ :: _ => (p, b.report .process "found_many" ("There exist more processes with name " ++ expr))

def initProcess (p : ProcessMembers) (b : Boot) : ProcessMembers × Boot :=
  if 0 < config.configOptionExists "Attach" then
    attach w (config.getConfigOption "Attach") { p with exec := false } b
  else if 0 < config.configOptionExists "Exec" then
    ({ p with exec := true, cmd := " ".intercalate (config.getConfigOptionList "Exec") }, b)
  else (p, b.report .badConfig "option_missing" "No process configured")

/-- `ObservedProcess::init`. -/
def init (p : ProcessMembers) (b : Boot) : ProcessMembers × Boot :=
  let p := { p with trace := config.getConfigOptionBool w.toDouble "Trace" }
  let (p, b) := initCommChan w config p b
  let timeout := config.getConfigOptionInt "CommChanTimeout"
  let p := if p.commAddr ≠ "" ∧ 0 < timeout then { p with commTimeout := timeout } else p
  initProcess w config p b

end ProcessMembers

/-! ## Control strategies -/

namespace Autopin1

/-- The members of `Autopin1::Main` that `init` sets. `monitor` points into the list of monitors,
and `monitor_type` has no value until it is written. -/
structure Members where
  pinnings : List (List Int) := []
  monitor : Option Nat := none
  monitorType : Option Montype := none
  initTime : Int := 0
  warmupTime : Int := 0
  measureTime : Int := 0
  openmpIcc : Bool := false
  skip : TidSet := .empty
  skipStr : List String := []
  notificationInterval : Int := 0

variable (w : Surroundings) (config : StandardConfiguration)

/-- The cores of one pinning; `none` where a part is not a number or negative. -/
def readPinning (entry : String) : Option (List Int) :=
  (QString.split ':' entry.toList).mapM fun part =>
    (QString.toInt (String.ofList part)).filter (fun cpu => 0 ≤ cpu)

/-- The pinnings up to the first that is not valid, which is returned too. -/
def readEntries : List String → List (List Int) × Option String
  | [] => ([], none)
  | entry :: entries =>
    match readPinning entry with
    | none => ([], some entry)
    | some pinning => (pinning :: (readEntries entries).1, (readEntries entries).2)

def readPinnings (opt : String) (b : Boot) : List (List Int) × Boot :=
  if config.configOptionExists opt = 0 then
    ([], b.report .badConfig "option_missing" "No pinning specified")
  else
    match readEntries (config.getConfigOptionList opt) with
    | (result, none) => (result, b)
    | (result, some entry) => (result, b.report .badConfig "option_format" (entry ++ " is not a valid pinning"))

/-- The first monitor, if its type is known. -/
def selectMonitor (monitors : List MonitorObject) (s : Members) (b : Boot) : Members × Boot :=
  match monitors with
  | m :: _ =>
    if m.valtype ≠ .unknown then ({ s with monitor := some 0, monitorType := some m.valtype }, b)
    else (s, b.report .badConfig "no_monitor" "No performance monitor found!")
  | [] => (s, b.report .badConfig "no_monitor" "No performance monitor found!")

def optionInt (opt : String) (standard : Int) : Int :=
  if 0 < config.configOptionExists opt then config.getConfigOptionInt opt else standard

/-- One pass of the loop over `skip_str`; an entry that is not a number stands for 0. -/
def skipEntry (acc : TidSet × Boot) (entry : String) : TidSet × Boot :=
  match QString.toInt entry with
  | some j => (acc.1.insert j, acc.2)
  | none => (acc.1.insert 0, acc.2.report .badConfig "invalid_value"
      ("Invalid id for skipped thread: " ++ entry))

/-- One of the three checks of a time. -/
def checkTime (valid : Bool) (what : String) (time : Int) (b : Boot) : Boot :=
  if valid then b
  else b.report .badConfig "invalid_value" ("Invalid " ++ what ++ " time: " ++ toString time)

/-- `Autopin1::Main::init`. -/
def init (monitors : List MonitorObject) (s : Members) (b : Boot) : Members × Boot :=
  let (pinnings, b) := readPinnings config "autopin1.schedule" b
  let (s, b) := selectMonitor monitors { s with pinnings := pinnings } b
  let skipStr := config.getConfigOptionList "autopin1.skip"
  let (skip, b) := skipStr.foldl skipEntry (.empty, b)
  let s :=
    { s with
      initTime := optionInt config "autopin1.init_time" 15,
      warmupTime := optionInt config "autopin1.warmup_time" 15,
      measureTime := optionInt config "autopin1.measure_time" 30,
      openmpIcc := config.configOptionBool w.toDouble "autopin1.openmp_icc" &&
        config.getConfigOptionBool w.toDouble "autopin1.openmp_icc",
      skip := skip,
      skipStr := skipStr,
      notificationInterval := optionInt config "autopin1.notification_interval" 0 }
  let b := checkTime (0 ≤ s.initTime) "init" s.initTime b
  let b := checkTime (0 ≤ s.warmupTime) "warmup" s.warmupTime b
  (s, checkTime (0 < s.measureTime) "measure" s.measureTime b)

/-- The members as the slots of the strategy read them; without a monitor type they have no meaning. -/
def Members.setup {M D : Type} (kernel : Kernel D) (monitor : PerformanceMonitor M D) (trace : Bool)
    (s : Members) : Option (Setup M D) :=
  s.monitorType.map fun monitorType =>
    { kernel, monitor, monitorType, pinnings := s.pinnings, skip := s.skip, openmpIcc := s.openmpIcc, trace }

end Autopin1

/-- `interval` is the only option of the strategies that use the shared table. -/
inductive StrategyObject where
  | autopin1 (members : Autopin1.Members)
  | onTable (kind : Kind) (interval : Int)

namespace StrategyObject

variable (w : Surroundings) (config : StandardConfiguration)

def ofName : String → Option StrategyObject
  | "autopin1" => some (.autopin1 {})
  | "noop" => some (.onTable .noop 100)
  | "compact" => some (.onTable .compact 100)
  | "scatter" => some (.onTable .scatter 100)
  | _ => none

/-- The virtual `init`. -/
def init (monitors : List MonitorObject) (b : Boot) : StrategyObject → StrategyObject × Boot
  | .autopin1 s => (.autopin1 (Autopin1.init w config monitors s b).1, (Autopin1.init w config monitors s b).2)
  | .onTable kind interval =>
    if 0 < config.configOptionExists (kind.name ++ ".interval") then
      match Tools.readInt (config.getConfigOption (kind.name ++ ".interval")) with
      | .ok interval => (.onTable kind interval, b)
      | .error _ => (.onTable kind interval, b.report .badConfig "option_format"
          (kind.name ++ ".init() failed: Could not parse the 'interval' option."))
    else (.onTable kind interval, b)

end StrategyObject

/-! ## The watchdog -/

structure Watchdog where
  context : AutopinContext
  monitors : List MonitorObject := []
  process : ProcessMembers := {}
  strategy : Option StrategyObject := none
  /-- `sig_watchdogReady` was emitted. -/
  ready : Bool := false

namespace Watchdog

variable (w : Surroundings) (config : StandardConfiguration)

/-- One pass of the loop in `createPerformanceMonitors`. -/
def createMonitor (acc : List MonitorObject × Boot) (name : String) : List MonitorObject × Boot :=
  let (monitors, b) := acc
  -- nothing is ever added to `existing_ids`
  let existingIds : List String := []
  let b :=
    if name ∈ existingIds then
      b.report .badConfig "inconsistent" ("The identifier " ++ name ++ " is already assigned to another monitor")
    else b
  let numtypes := config.configOptionExists (name ++ ".type")
  let b :=
    if numtypes = 0 then
      b.report .badConfig "option_missing" ("Type for monitor \"" ++ name ++ "\" is not specified")
    else if 1 < numtypes then
      b.report .badConfig "inconsistent"
        ("Specified " ++ toString numtypes ++ " types for monitor " ++ name)
    else b
  let currentType := config.getConfigOption (name ++ ".type")
  match MonitorType.ofName currentType with
  | some type => (monitors ++ [.create name type], b)
  | none => (monitors, b.report .unsupported "critical"
      ("Performance monitor type \"" ++ currentType ++ "\" is not supported"))

def createPerformanceMonitors (b : Boot) : List MonitorObject × Boot :=
  let configMonitors := config.getConfigOptionList "PerformanceMonitors"
  let b :=
    if configMonitors.isEmpty then
      b.report .badConfig "option_missing" "No performance monitor configured"
    else b
  configMonitors.foldl (createMonitor config) ([], b)

def createControlStrategy (b : Boot) : Option StrategyObject × Boot :=
  let optcount := config.configOptionExists "ControlStrategy"
  let b :=
    if optcount = 0 then b.report .badConfig "option_missing" "No control strategy configured" else b
  let b :=
    if 1 < optcount then
      b.report .badConfig "inconsistent" ("Specified " ++ toString optcount ++ " control strategies")
    else b
  let strategyConfig := config.getConfigOption "ControlStrategy"
  match StrategyObject.ofName strategyConfig with
  | some strategy => (some strategy, b)
  | none => (none, b.report .unsupported "critical"
      ("Control strategy \"" ++ strategyConfig ++ "\" is not supported"))

/-- The loggers created, all of them external ones, up to the first that is not supported. -/
def createDataLoggers : List String → Boot → Nat × Boot
  | [], b => (0, b)
  | logger :: loggers, b =>
    if logger = "external" then
      ((createDataLoggers loggers b).1 + 1, (createDataLoggers loggers b).2)
    else
      (0, b.report .unsupported "critical" ("Data logger \"" ++ logger ++ "\" is not supported"))

/-- `Logger::External::Main::init`. -/
def initLogger (b : Boot) : Boot :=
  let command :=
    if 0 < config.configOptionExists "external.command" then config.getConfigOptionList "external.command"
    else ["cat"]
  let startProcess (b : Boot) : Boot :=
    if w.waitForStarted b.clock command then b.tick
    else b.tick.report .badConfig "option_format" "external.init() failed: Could not start the specified command."
  if 0 < config.configOptionExists "external.interval" then
    match Tools.readInt (config.getConfigOption "external.interval") with
    | .ok _ => startProcess b
    | .error _ =>
      b.report .badConfig "option_format" "external.init() failed: Could not parse the 'interval' option."
  else startProcess b

def initLoggers : Nat → Boot → Boot
  | 0, b => b
  | n + 1, b => initLoggers n (initLogger w config b)

/-- The loop that calls `init` of every monitor. -/
def initMonitors : List MonitorObject → Boot → List MonitorObject × Boot
  | [], b => ([], b)
  | m :: ms, b =>
    let (m, b) := m.init w config b
    let (ms, b) := initMonitors ms b
    (m :: ms, b)

/-- What the watchdog has created before the first check. -/
structure Created where
  monitors : List MonitorObject
  strategy : Option StrategyObject
  loggers : Nat
  boot : Boot

def create : Created :=
  let (monitors, b) := createPerformanceMonitors config {}
  let (strategy, b) := createControlStrategy config b
  let (loggers, b) := createDataLoggers (config.getConfigOptionList "DataLoggers") b
  ⟨monitors, strategy, loggers, b⟩

/-- What `init` of every component leaves before the second check. -/
structure Initialized where
  monitors : List MonitorObject
  process : ProcessMembers
  strategy : Option StrategyObject
  boot : Boot

def initComponents (c : Created) : Initialized :=
  let (monitors, b) := initMonitors w config c.monitors c.boot
  let (process, b) := ProcessMembers.init w config {} b
  match c.strategy with
  | none => ⟨monitors, process, none, initLoggers w config c.loggers b⟩
  | some strategy =>
    let (strategy, b) := strategy.init w config monitors b
    ⟨monitors, process, some strategy, initLoggers w config c.loggers b⟩

/-- After `ObservedProcess::start` every monitor is initialised a second time, and nothing is
checked any more. -/
def finish (i : Initialized) : Watchdog :=
  let (pid, reports) := w.start i.boot.clock
  let b := i.boot.tick.reportAll reports
  let (monitors, b) := initMonitors w config i.monitors b
  { context := b.context
    monitors := monitors.map fun m => { m with monitoredPid := pid }
    process := { i.process with pid := pid }
    strategy := i.strategy
    ready := true }

def slotWatchdogRun : Watchdog :=
  let c := create config
  if c.boot.isError then { context := c.boot.context, monitors := c.monitors, strategy := c.strategy }
  else
    let i := initComponents w config c
    if i.boot.isError then
      { context := i.boot.context, monitors := i.monitors, process := i.process, strategy := i.strategy }
    else finish w config i

end Watchdog

/-! ## The error state is not left -/

/-- A function that reports may enter the error state, but never leaves it. -/
def Boot.Keeps (b b' : Boot) : Prop := b.isError = true → b'.isError = true

namespace Boot

@[simp] theorem isError_report (error : AutopinErrors) (opt msg : String) (b : Boot) :
    (b.report error opt msg).isError = (setsError error opt || b.isError) :=
  b.context.report_isError error opt msg

theorem Keeps.refl (b : Boot) : b.Keeps b := id

theorem Keeps.trans {a b c : Boot} (h : a.Keeps b) (h' : b.Keeps c) : a.Keeps c := fun ha => h' (h ha)

theorem Keeps.report {a b : Boot} (h : a.Keeps b) (error : AutopinErrors) (opt msg : String) :
    a.Keeps (b.report error opt msg) := by
  intro ha
  rw [isError_report, h ha, Bool.or_true]

theorem Keeps.reportIf {a b : Boot} (h : a.Keeps b) (p : Prop) [Decidable p] (error : AutopinErrors)
    (opt msg : String) : a.Keeps (if p then b.report error opt msg else b) := by
  split
  · exact h.report _ _ _
  · exact h

theorem Keeps.reportAll {a b : Boot} (h : a.Keeps b) (reports : List Report) :
    a.Keeps (b.reportAll reports) := by
  induction reports generalizing b with
  | nil => exact h
  | cons r reports ih => exact ih (h.report r.error r.opt r.msg)

theorem Keeps.isError {a b : Boot} (h : a.Keeps b) (hb : b.isError = false) : a.isError = false := by
  cases ha : a.isError with
  | false => rfl
  | true => exact absurd (h ha) (by simp [hb])

end Boot

variable {w : Surroundings} {config : StandardConfiguration}

namespace MonitorObject

theorem initValtype_keeps (m : MonitorObject) (b : Boot) : b.Keeps (initValtype config m b).2 := by
  unfold initValtype
  split
  · split
    · exact .refl b
    · exact (Boot.Keeps.refl b).report _ _ _
  · exact .refl b

theorem initSensor_keeps (m : MonitorObject) (b : Boot) : b.Keeps (initSensor w config m b).2 := by
  unfold initSensor
  split
  · split
    · exact initValtype_keeps m b.tick
    · exact Boot.Keeps.report (b := b.tick) id _ _ _
  · exact (Boot.Keeps.refl b).report _ _ _

theorem init_keeps (m : MonitorObject) (b : Boot) : b.Keeps (init w config m b).2 := by
  unfold init
  split
  · exact .refl b
  · unfold initGPerf
    split
    · split
      · exact initSensor_keeps _ b
      · exact (Boot.Keeps.refl b).report _ _ _
    · exact initSensor_keeps m b
  · exact .refl b
  · exact .refl b

end MonitorObject

namespace ProcessMembers

theorem initCommChan_keeps (p : ProcessMembers) (b : Boot) : b.Keeps (initCommChan w config p b).2 := by
  unfold initCommChan
  split
  · split
    · split
      · unfold getCommDefaultAddr
        split
        · exact .refl b
        · exact (Boot.Keeps.refl b).report _ _ _
      · exact .refl b
    · exact .refl b
  · split
    · exact (Boot.Keeps.refl b).report _ _ _
    · exact .refl b

theorem attach_keeps (expr : String) (p : ProcessMembers) (b : Boot) : b.Keeps (attach w expr p b).2 := by
  have hpid : b.Keeps (b.tick.reportAll (w.getPid b.clock expr).2) :=
    Boot.Keeps.reportAll (b := b.tick) id _
  unfold attach
  split
  · exact .refl b
  · simp only
    split
    · exact hpid.report _ _ _
    · exact hpid
    · exact hpid.report _ _ _

theorem initProcess_keeps (p : ProcessMembers) (b : Boot) : b.Keeps (initProcess w config p b).2 := by
  unfold initProcess
  split
  · exact attach_keeps _ _ _
  · split
    · exact .refl _
    · exact (Boot.Keeps.refl _).report _ _ _

theorem init_keeps (p : ProcessMembers) (b : Boot) : b.Keeps (init w config p b).2 :=
  (initCommChan_keeps { p with trace := config.getConfigOptionBool w.toDouble "Trace" } b).trans
    (initProcess_keeps _ _)

end ProcessMembers

namespace Autopin1

theorem selectMonitor_keeps (monitors : List MonitorObject) (s : Members) (b : Boot) :
    b.Keeps (selectMonitor monitors s b).2 := by
  unfold selectMonitor
  split
  · split
    · exact .refl b
    · exact (Boot.Keeps.refl b).report _ _ _
  · exact (Boot.Keeps.refl b).report _ _ _

theorem skipEntries_keeps (entries : List String) (skip : TidSet) (b : Boot) :
    b.Keeps (entries.foldl skipEntry (skip, b)).2 := by
  induction entries generalizing skip b with
  | nil => exact .refl b
  | cons entry entries ih =>
    rw [List.foldl_cons, skipEntry]
    split
    · exact ih _ b
    · exact ((Boot.Keeps.refl b).report _ _ _).trans (ih _ _)

theorem checkTime_keeps (valid : Bool) (what : String) (time : Int) (b : Boot) :
    b.Keeps (checkTime valid what time b) := by
  unfold checkTime
  split
  · exact .refl b
  · exact (Boot.Keeps.refl b).report _ _ _

/-- What follows the reading of the pinnings. -/
theorem init_keeps_pinnings (monitors : List MonitorObject) (s : Members) (b : Boot) :
    (readPinnings config "autopin1.schedule" b).2.Keeps (init w config monitors s b).2 := by
  have hselect := selectMonitor_keeps monitors
    { s with pinnings := (readPinnings config "autopin1.schedule" b).1 }
    (readPinnings config "autopin1.schedule" b).2
  have hskip := hselect.trans (skipEntries_keeps (config.getConfigOptionList "autopin1.skip") .empty _)
  exact ((hskip.trans (checkTime_keeps _ _ _ _)).trans (checkTime_keeps _ _ _ _)).trans
    (checkTime_keeps _ _ _ _)

theorem readPinnings_keeps (opt : String) (b : Boot) : b.Keeps (readPinnings config opt b).2 := by
  unfold readPinnings
  split
  · exact (Boot.Keeps.refl b).report _ _ _
  · split
    · exact .refl b
    · exact (Boot.Keeps.refl b).report _ _ _

end Autopin1

namespace Watchdog

theorem initLogger_keeps (b : Boot) : b.Keeps (initLogger w config b) := by
  have hstart : ∀ command : List String, b.Keeps (if w.waitForStarted b.clock command then b.tick
      else b.tick.report .badConfig "option_format"
        "external.init() failed: Could not start the specified command.") := by
    intro command
    split
    · exact id
    · exact Boot.Keeps.report (b := b.tick) id _ _ _
  simp only [initLogger]
  split
  · split
    · exact hstart _
    · exact (Boot.Keeps.refl b).report _ _ _
  · exact hstart _

theorem initLoggers_keeps (n : Nat) (b : Boot) : b.Keeps (initLoggers w config n b) := by
  induction n generalizing b with
  | zero => exact .refl b
  | succ n ih => exact (initLogger_keeps b).trans (ih _)

theorem initMonitors_keeps (ms : List MonitorObject) (b : Boot) : b.Keeps (initMonitors w config ms b).2 := by
  induction ms generalizing b with
  | nil => exact .refl b
  | cons m ms ih => exact (m.init_keeps b).trans (ih _)

theorem createMonitor_keeps (ms : List MonitorObject) (b : Boot) (name : String) :
    b.Keeps (createMonitor config (ms, b) name).2 := by
  have hnum : b.Keeps (if config.configOptionExists (name ++ ".type") = 0 then
      b.report .badConfig "option_missing" ("Type for monitor \"" ++ name ++ "\" is not specified")
    else if 1 < config.configOptionExists (name ++ ".type") then
      b.report .badConfig "inconsistent" ("Specified " ++
        toString (config.configOptionExists (name ++ ".type")) ++ " types for monitor " ++ name)
    else b) := by
    split
    · exact (Boot.Keeps.refl b).report _ _ _
    · exact (Boot.Keeps.refl b).reportIf _ _ _ _
  simp only [createMonitor, List.not_mem_nil, if_false]
  split
  · exact hnum
  · exact hnum.report _ _ _

theorem createMonitors_keeps (config : StandardConfiguration) (names : List String)
    (ms : List MonitorObject) (b : Boot) : b.Keeps (names.foldl (createMonitor config) (ms, b)).2 := by
  induction names generalizing ms b with
  | nil => exact .refl b
  | cons name names ih => exact (createMonitor_keeps ms b name).trans (ih _ _)

theorem createControlStrategy_keeps (b : Boot) : b.Keeps (createControlStrategy config b).2 := by
  have hcount := ((Boot.Keeps.refl b).reportIf (config.configOptionExists "ControlStrategy" = 0) .badConfig
    "option_missing" "No control strategy configured").reportIf
    (1 < config.configOptionExists "ControlStrategy") .badConfig "inconsistent"
    ("Specified " ++ toString (config.configOptionExists "ControlStrategy") ++ " control strategies")
  simp only [createControlStrategy]
  split
  · exact hcount
  · exact hcount.report _ _ _

theorem createDataLoggers_keeps (names : List String) (b : Boot) : b.Keeps (createDataLoggers names b).2 := by
  induction names generalizing b with
  | nil => exact .refl b
  | cons name names ih =>
    rw [createDataLoggers]
    split
    · exact ih b
    · exact (Boot.Keeps.refl b).report _ _ _

end Watchdog

end AutopinPlus
