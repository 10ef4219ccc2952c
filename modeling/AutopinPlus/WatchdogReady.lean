import AutopinPlus.Autopin1Stage
import AutopinPlus.WatchdogRun

/-!
# What a watchdog that is ready says of its configuration

autopin1 reports a missing monitor and an invalid time with tags that are not fatal, so that a
watchdog may become ready without a monitor, or with a time that makes no sense. Whether it
does is told by the configuration: the fatal reports of all other components leave only
these cases.
-/
namespace AutopinPlus

variable {w : Surroundings} {config : StandardConfiguration}

/-- The type a monitor has after its `init`. -/
def MonitorObject.configured (config : StandardConfiguration) (name : String) : MonitorType → Montype
  | .clustsafe => .min
  | .pagemigrate => .max
  | .random =>
    if config.configOptionExists (name ++ ".valtype") = 1 then
      if config.getConfigOption (name ++ ".valtype") = "max" then .max
      else if config.getConfigOption (name ++ ".valtype") = "min" then .min
      else .unknown
    else .max
  | .gperf =>
    if 0 < config.configOptionExists (name ++ ".valtype") then
      match readMontype (config.getConfigOption (name ++ ".valtype")) with
      | .ok valtype => valtype
      | .error _ => .min
    else .min

namespace MonitorObject

/-- A monitor as its constructor left it, if no fatal error is reported, or one that has its type. -/
def Typed (config : StandardConfiguration) (m : MonitorObject) (b : Boot) : Prop :=
  (m.valtype = (create m.name m.type).valtype ∧ b.isError = false) ∨
    m.valtype = configured config m.name m.type

/-- A fatal report leaves the type alone. -/
theorem Typed.of_error {m : MonitorObject} {b : Boot} (h : Typed config m b) (hb : b.isError = true) :
    m.valtype = configured config m.name m.type := by
  rcases h with ⟨-, h⟩ | h
  · simp [hb] at h
  · exact h

theorem initValtype_configured {m : MonitorObject} {b : Boot} (hm : m.type = .gperf)
    (h : Typed config m (initValtype config m b).2) :
    (initValtype config m b).1.valtype = configured config m.name m.type := by
  simp only [hm, configured]
  unfold initValtype at h ⊢
  split
  · rename_i hex
    rw [if_pos hex] at h
    cases hread : readMontype (config.getConfigOption (m.name ++ ".valtype")) with
    | ok valtype => rfl
    | error what =>
      rw [hread] at h
      simpa [hm, configured, hex, hread] using h.of_error (by simp [setsError])
  · rename_i hex
    rw [if_neg hex] at h
    rcases h with ⟨h, -⟩ | h
    · simpa [hm, create] using h
    · simpa [hm, configured, hex] using h

theorem initSensor_configured {m : MonitorObject} {b : Boot} (hm : m.type = .gperf)
    (h : Typed config m (initSensor w config m b).2) :
    (initSensor w config m b).1.valtype = configured config m.name m.type := by
  unfold initSensor at h ⊢
  split
  · rename_i hex
    rw [if_pos hex] at h
    cases hread : w.readSensor b.clock (config.getConfigOption (m.name ++ ".sensor")) with
    | none =>
      rw [hread] at h
      exact initValtype_configured hm h
    | some what =>
      rw [hread] at h
      exact h.of_error (by simp [setsError])
  · rename_i hex
    rw [if_neg hex] at h
    exact h.of_error (by simp [setsError])

theorem initGPerf_configured {m : MonitorObject} {b : Boot} (hm : m.type = .gperf)
    (h : Typed config m (initGPerf w config m b).2) :
    (initGPerf w config m b).1.valtype = configured config m.name m.type := by
  unfold initGPerf at h ⊢
  split
  · rename_i hex
    rw [if_pos hex] at h
    cases hread : Tools.readInts (config.getConfigOptionList (m.name ++ ".processors")) with
    | ok processors =>
      rw [hread] at h
      exact initSensor_configured (m := { m with processors := processors }) hm h
    | error what =>
      rw [hread] at h
      exact h.of_error (by simp [setsError])
  · rename_i hex
    rw [if_neg hex] at h
    exact initSensor_configured hm h

/-- After `init` a monitor has the type of its configuration; a later `init` does not change it. -/
theorem init_configured {m : MonitorObject} {b : Boot} (h : Typed config m (init w config m b).2) :
    (init w config m b).1.valtype = configured config m.name m.type := by
  unfold init at h ⊢
  cases hm : m.type with
  | clustsafe =>
    simp only [hm] at h ⊢
    rcases h with ⟨h, -⟩ | h
    · simpa [hm, create, configured] using h
    · simpa [hm] using h
  | gperf =>
    simp only [hm] at h ⊢
    exact hm ▸ initGPerf_configured hm h
  | random => rfl
  | pagemigrate => rfl

theorem initValtype_identity (config : StandardConfiguration) (m : MonitorObject) (b : Boot) :
    (initValtype config m b).1.name = m.name ∧ (initValtype config m b).1.type = m.type := by
  unfold initValtype
  split
  · split <;> exact ⟨rfl, rfl⟩
  · exact ⟨rfl, rfl⟩

theorem initSensor_identity (w : Surroundings) (config : StandardConfiguration) (m : MonitorObject) (b : Boot) :
    (initSensor w config m b).1.name = m.name ∧ (initSensor w config m b).1.type = m.type := by
  unfold initSensor
  split
  · split
    · exact initValtype_identity config m _
    · exact ⟨rfl, rfl⟩
  · exact ⟨rfl, rfl⟩

theorem init_identity (w : Surroundings) (config : StandardConfiguration) (m : MonitorObject) (b : Boot) :
    (init w config m b).1.name = m.name ∧ (init w config m b).1.type = m.type := by
  unfold init
  split
  · exact ⟨rfl, rfl⟩
  · unfold initGPerf
    split
    · split
      · exact initSensor_identity w config _ b
      · exact ⟨rfl, rfl⟩
    · exact initSensor_identity w config m b
  · exact ⟨rfl, rfl⟩
  · exact ⟨rfl, rfl⟩

theorem create_identity (name : String) (type : MonitorType) :
    (create name type).name = name ∧ (create name type).type = type := by
  cases type <;> exact ⟨rfl, rfl⟩

/-- A monitor after its constructor and a first `init` without a fatal report. -/
theorem init_create {name : String} {type : MonitorType} {b : Boot}
    (h : ((create name type).init w config b).2.isError = false) :
    ((create name type).init w config b).1.name = name ∧
      ((create name type).init w config b).1.type = type ∧
      ((create name type).init w config b).1.valtype = configured config name type := by
  obtain ⟨hname, htype⟩ := create_identity name type
  obtain ⟨hname', htype'⟩ := init_identity w config (create name type) b
  refine ⟨hname'.trans hname, htype'.trans htype, ?_⟩
  have hconfigured := init_configured (.inl ⟨by rw [hname, htype], h⟩)
  rwa [hname, htype] at hconfigured

/-- The type of the monitor can be used by autopin1. -/
def Known (config : StandardConfiguration) (name : String) : MonitorType → Prop
  | .random => config.configOptionExists (name ++ ".valtype") = 1 →
      config.getConfigOption (name ++ ".valtype") = "max" ∨ config.getConfigOption (name ++ ".valtype") = "min"
  | .gperf => QString.toLower (config.getConfigOption (name ++ ".valtype")) ≠ "unknown"
  | .clustsafe | .pagemigrate => True

theorem configured_known_iff (name : String) (type : MonitorType) :
    configured config name type ≠ .unknown ↔ Known config name type := by
  cases type with
  | clustsafe => simp [configured, Known]
  | pagemigrate => simp [configured, Known]
  | random =>
    simp only [configured, Known]
    split_ifs with hex hmax hmin <;> simp_all
  | gperf =>
    simp only [configured, Known, readMontype]
    split_ifs with hex hmax hmin hunknown
    · simp [hmax]
    · simp [hmin]
    · simp [hunknown]
    · simp [hunknown]
    · have hnone : config.getConfigOption (name ++ ".valtype") = "" := by
        have hnil : config.getConfigOptionList (name ++ ".valtype") = [] :=
          List.length_eq_zero_iff.mp (Nat.eq_zero_of_not_pos hex)
        simp [StandardConfiguration.getConfigOption, hnil]
      rw [hnone]
      decide

end MonitorObject

namespace Autopin1

/-- Without a fatal report there is at least one pinning. -/
theorem readPinnings_ne_nil {opt : String} {b : Boot} (h : (readPinnings config opt b).2.isError = false) :
    (readPinnings config opt b).1 ≠ [] := by
  unfold readPinnings at h ⊢
  split
  · rename_i hnone
    simp [hnone, setsError] at h
  · rename_i hsome
    rw [if_neg hsome] at h
    cases hlist : config.getConfigOptionList opt with
    | nil => exact absurd (congrArg List.length hlist) hsome
    | cons entry entries =>
      rw [hlist] at h
      cases hread : readPinning entry with
      | none => simp [readEntries, hread, setsError] at h
      | some pinning =>
        simp only [readEntries, hread]
        split
        · rename_i heq
          exact (Prod.mk.inj heq).1 ▸ List.cons_ne_nil _ _
        · rename_i heq
          exact (Prod.mk.inj heq).1 ▸ List.cons_ne_nil _ _

theorem optionInt_iff (config : StandardConfiguration) (P : Int → Prop) (opt : String) {standard : Int}
    (h : P standard) :
    P (optionInt config opt standard) ↔
      (0 < config.configOptionExists opt → P (config.getConfigOptionInt opt)) := by
  unfold optionInt
  split
  · rename_i hex
    simp [hex]
  · rename_i hex
    simp [hex, h]

/-- The monitor that is selected, where there is one, and its type. -/
theorem selectMonitor_monitor (m : MonitorObject) (ms : List MonitorObject) (pinnings : List (List Int))
    (b : Boot) :
    (selectMonitor (m :: ms) { pinnings := pinnings } b).1.monitor =
        (if m.valtype ≠ .unknown then some 0 else none) ∧
      (selectMonitor (m :: ms) { pinnings := pinnings } b).1.monitorType =
        (if m.valtype ≠ .unknown then some m.valtype else none) := by
  simp only [selectMonitor]
  split <;> exact ⟨rfl, rfl⟩

theorem selectMonitor_pinnings (monitors : List MonitorObject) (s : Members) (b : Boot) :
    (selectMonitor monitors s b).1.pinnings = s.pinnings := by
  unfold selectMonitor
  split
  · split <;> rfl
  · rfl

end Autopin1

namespace Watchdog

theorem createMonitors_head (config : StandardConfiguration) (names : List String) (m : MonitorObject)
    (ms : List MonitorObject) (b : Boot) :
    ∃ rest, (names.foldl (createMonitor config) (m :: ms, b)).1 = m :: rest := by
  induction names generalizing ms b with
  | nil => exact ⟨ms, rfl⟩
  | cons name names ih =>
    rw [List.foldl_cons, createMonitor]
    split
    · exact ih _ _
    · exact ih _ _

/-- Without a fatal report the first monitor of the list is created, with the type it names. -/
theorem createPerformanceMonitors_head {b : Boot} (h : (createPerformanceMonitors config b).2.isError = false) :
    ∃ name names type rest, config.getConfigOptionList "PerformanceMonitors" = name :: names ∧
      MonitorType.ofName (config.getConfigOption (name ++ ".type")) = some type ∧
      (createPerformanceMonitors config b).1 = MonitorObject.create name type :: rest := by
  unfold createPerformanceMonitors at h ⊢
  cases hlist : config.getConfigOptionList "PerformanceMonitors" with
  | nil => simp [hlist, setsError] at h
  | cons name names =>
    simp only [hlist, List.foldl_cons, List.isEmpty_cons, Bool.false_eq_true, if_false] at h ⊢
    cases htype : MonitorType.ofName (config.getConfigOption (name ++ ".type")) with
    | none =>
      have herror : (createMonitor config ([], b) name).2.isError = true := by
        simp [createMonitor, htype, setsError]
      have hkeeps := createMonitors_keeps config names (createMonitor config ([], b) name).1 _ herror
      exact absurd hkeeps (by simp [h])
    | some type =>
      have hmonitors : (createMonitor config ([], b) name).1 = [MonitorObject.create name type] := by
        simp [createMonitor, htype]
      obtain ⟨rest, hrest⟩ := createMonitors_head config names (MonitorObject.create name type) []
        (createMonitor config ([], b) name).2
      rw [← hmonitors] at hrest
      exact ⟨name, names, type, rest, rfl, htype, hrest⟩

/-- The configuration gives its first monitor a known type and names no time out of range. -/
structure Sound (config : StandardConfiguration) : Prop where
  monitor : ∀ name, (config.getConfigOptionList "PerformanceMonitors").head? = some name →
    ∀ type, MonitorType.ofName (config.getConfigOption (name ++ ".type")) = some type →
      MonitorObject.Known config name type
  initTime : 0 < config.configOptionExists "autopin1.init_time" →
    0 ≤ config.getConfigOptionInt "autopin1.init_time"
  warmupTime : 0 < config.configOptionExists "autopin1.warmup_time" →
    0 ≤ config.getConfigOptionInt "autopin1.warmup_time"
  measureTime : 0 < config.configOptionExists "autopin1.measure_time" →
    0 < config.getConfigOptionInt "autopin1.measure_time"

/-- What autopin1 needs: a monitor with a type, a pinning and times in range. -/
structure WellConfigured (d : Watchdog) (s : Autopin1.Members) : Prop where
  monitor : ∃ i m, s.monitor = some i ∧ d.monitors[i]? = some m ∧ (m.valtype = .max ∨ m.valtype = .min)
  pinnings : s.pinnings ≠ []
  initTime : 0 ≤ s.initTime
  warmupTime : 0 ≤ s.warmupTime
  measureTime : 0 < s.measureTime

/-- The run reached `sig_watchdogReady`. -/
theorem ready_cases (h : (slotWatchdogRun w config).ready = true) :
    (create config).boot.isError = false ∧ (initComponents w config (create config)).boot.isError = false ∧
      slotWatchdogRun w config = finish w config (initComponents w config (create config)) := by
  unfold slotWatchdogRun at h ⊢
  cases hcreate : (create config).boot.isError with
  | true => simp [hcreate] at h
  | false =>
    cases hinit : (initComponents w config (create config)).boot.isError with
    | true => simp [hcreate, hinit] at h
    | false => simp [hcreate, hinit]

/-- The first monitor and the strategy after the first check. -/
theorem create_cases (hsel : config.getConfigOption "ControlStrategy" = "autopin1")
    (h : (create config).boot.isError = false) :
    ∃ name names type rest, config.getConfigOptionList "PerformanceMonitors" = name :: names ∧
      MonitorType.ofName (config.getConfigOption (name ++ ".type")) = some type ∧
      (create config).monitors = MonitorObject.create name type :: rest ∧
      (create config).strategy = some (.autopin1 {}) := by
  have hmonitors : (createPerformanceMonitors config {}).2.isError = false :=
    ((createControlStrategy_keeps _).trans (createDataLoggers_keeps _ _)).isError h
  obtain ⟨name, names, type, rest, hlist, htype, hhead⟩ := createPerformanceMonitors_head hmonitors
  refine ⟨name, names, type, rest, hlist, htype, hhead, ?_⟩
  simp [create, createControlStrategy, hsel, StrategyObject.ofName]

/-- The monitor of autopin1, and what `init` of all components leaves, after the second check. -/
theorem initComponents_cases {c : Created} {m : MonitorObject} {ms : List MonitorObject}
    (hmonitors : c.monitors = m :: ms) (hstrategy : c.strategy = some (.autopin1 {}))
    (h : (initComponents w config c).boot.isError = false) :
    ∃ s ms', (m.init w config c.boot).2.isError = false ∧
      (initComponents w config c).monitors = (m.init w config c.boot).1 :: ms' ∧
      (initComponents w config c).strategy = some (.autopin1 s) ∧ s.pinnings ≠ [] ∧
      s.monitor = (if (m.init w config c.boot).1.valtype ≠ .unknown then some 0 else none) ∧
      s.monitorType = (if (m.init w config c.boot).1.valtype ≠ .unknown then
        some (m.init w config c.boot).1.valtype else none) ∧
      s.initTime = Autopin1.optionInt config "autopin1.init_time" 15 ∧
      s.warmupTime = Autopin1.optionInt config "autopin1.warmup_time" 15 ∧
      s.measureTime = Autopin1.optionInt config "autopin1.measure_time" 30 := by
  let rest := initMonitors w config ms (m.init w config c.boot).2
  let b := (ProcessMembers.init w config {} rest.2).2
  have hboot : (initComponents w config c).boot = initLoggers w config c.loggers
      (Autopin1.init w config ((m.init w config c.boot).1 :: rest.1) {} b).2 := by
    simp [initComponents, hmonitors, hstrategy, initMonitors, StrategyObject.init, rest, b]
  have hstrategy' : (initComponents w config c).strategy =
      some (.autopin1 (Autopin1.init w config ((m.init w config c.boot).1 :: rest.1) {} b).1) := by
    simp [initComponents, hmonitors, hstrategy, initMonitors, StrategyObject.init, rest, b]
  have hmonitors' : (initComponents w config c).monitors = (m.init w config c.boot).1 :: rest.1 := by
    simp [initComponents, hmonitors, hstrategy, initMonitors, rest]
  -- no error at the end, so none after any of the calls before
  have hinit : (Autopin1.init w config ((m.init w config c.boot).1 :: rest.1) {} b).2.isError = false :=
    (initLoggers_keeps _ _).isError (hboot ▸ h)
  have hpinnings : (Autopin1.readPinnings config "autopin1.schedule" b).2.isError = false :=
    (Autopin1.init_keeps_pinnings _ _ _).isError hinit
  have hb : b.isError = false := (Autopin1.readPinnings_keeps _ _).isError hpinnings
  have hfirst : (m.init w config c.boot).2.isError = false :=
    ((initMonitors_keeps ms _).trans (ProcessMembers.init_keeps _ _)).isError hb
  obtain ⟨hmonitor, htype⟩ := Autopin1.selectMonitor_monitor (m.init w config c.boot).1 rest.1
    (Autopin1.readPinnings config "autopin1.schedule" b).1 (Autopin1.readPinnings config "autopin1.schedule" b).2
  refine ⟨_, rest.1, hfirst, hmonitors', hstrategy', ?_, hmonitor, htype, rfl, rfl, rfl⟩
  simp only [Autopin1.init, Autopin1.selectMonitor_pinnings]
  exact Autopin1.readPinnings_ne_nil hpinnings

/-- The second `init` leaves the type of the first monitor. -/
theorem finish_head {i : Initialized} {m : MonitorObject} {ms : List MonitorObject}
    (hmonitors : i.monitors = m :: ms) (hm : m.valtype = MonitorObject.configured config m.name m.type) :
    ∃ m', (finish w config i).monitors[0]? = some m' ∧ m'.valtype = m.valtype := by
  simp only [finish, hmonitors, initMonitors, List.map_cons, List.getElem?_cons_zero]
  exact ⟨_, rfl, (MonitorObject.init_configured (.inr hm)).trans hm.symm⟩

/-- Where autopin1 is ready: the first monitor of the configuration with its type, and the members. -/
theorem ready_members (hsel : config.getConfigOption "ControlStrategy" = "autopin1")
    (h : (slotWatchdogRun w config).ready = true) :
    ∃ s name type m, (slotWatchdogRun w config).strategy = some (.autopin1 s) ∧
      (config.getConfigOptionList "PerformanceMonitors").head? = some name ∧
      MonitorType.ofName (config.getConfigOption (name ++ ".type")) = some type ∧
      (slotWatchdogRun w config).monitors[0]? = some m ∧
      (m.valtype ≠ .unknown ↔ MonitorObject.Known config name type) ∧
      s.monitor = (if m.valtype ≠ .unknown then some 0 else none) ∧
      s.monitorType = (if m.valtype ≠ .unknown then some m.valtype else none) ∧ s.pinnings ≠ [] ∧
      s.initTime = Autopin1.optionInt config "autopin1.init_time" 15 ∧
      s.warmupTime = Autopin1.optionInt config "autopin1.warmup_time" 15 ∧
      s.measureTime = Autopin1.optionInt config "autopin1.measure_time" 30 := by
  obtain ⟨hcreate, hinit, hrun⟩ := ready_cases h
  obtain ⟨name, names, type, rest, hlist, htype, hmonitors, hstrategy⟩ := create_cases hsel hcreate
  obtain ⟨s, ms, hfirst, hmonitors', hstrategy', hpinnings, hmonitor, hmonitorType, htimes⟩ :=
    initComponents_cases hmonitors hstrategy hinit
  obtain ⟨hname, htype', hvaltype⟩ := MonitorObject.init_create hfirst
  obtain ⟨m, hhead, hm⟩ := finish_head (w := w) hmonitors' (by rw [hname, htype', hvaltype])
  rw [← hm] at hmonitor hmonitorType hvaltype
  rw [hrun]
  refine ⟨s, name, type, m, hstrategy', by rw [hlist, List.head?_cons], htype, hhead, ?_, hmonitor,
    hmonitorType, hpinnings, htimes⟩
  rw [hvaltype]
  exact MonitorObject.configured_known_iff name type

/-- Where a watchdog for autopin1 becomes ready, autopin1 has a monitor of a known type, at least one
pinning and valid times if and only if the configuration gives its first monitor a known type and
names no invalid time. -/
theorem ready_wellConfigured_iff (w : Surroundings) (text : String) (context : AutopinContext)
    (hsel : (StandardConfiguration.ofText text context).getConfigOption "ControlStrategy" = "autopin1")
    (hready : (slotWatchdogRun w (.ofText text context)).ready = true) :
    ∃ s, (slotWatchdogRun w (.ofText text context)).strategy = some (.autopin1 s) ∧
      (WellConfigured (slotWatchdogRun w (.ofText text context)) s ↔ Sound (.ofText text context)) := by
  generalize StandardConfiguration.ofText text context = config at hsel hready ⊢
  obtain ⟨s, name, type, m, hstrategy, hname, htype, hm, hknown, hmonitor, -, hpinnings, hinit, hwarmup,
    hmeasure⟩ := ready_members hsel hready
  have hinit_iff :=
    Autopin1.optionInt_iff config (fun t => 0 ≤ t) "autopin1.init_time" (show (0 : Int) ≤ 15 by decide)
  have hwarmup_iff :=
    Autopin1.optionInt_iff config (fun t => 0 ≤ t) "autopin1.warmup_time" (show (0 : Int) ≤ 15 by decide)
  have hmeasure_iff :=
    Autopin1.optionInt_iff config (fun t => 0 < t) "autopin1.measure_time" (show (0 : Int) < 30 by decide)
  rw [← hinit] at hinit_iff
  rw [← hwarmup] at hwarmup_iff
  rw [← hmeasure] at hmeasure_iff
  refine ⟨s, hstrategy, ?_⟩
  constructor
  · intro h
    refine ⟨?_, hinit_iff.mp h.initTime, hwarmup_iff.mp h.warmupTime, hmeasure_iff.mp h.measureTime⟩
    intro name' hname' type' htype'
    obtain rfl : name = name' := Option.some.inj (hname.symm.trans hname')
    obtain rfl : type = type' := Option.some.inj (htype.symm.trans htype')
    -- a monitor of an unknown type would not have been selected
    apply hknown.mp
    intro hunknown
    obtain ⟨k, -, hk, -⟩ := h.monitor
    simp [hmonitor, hunknown] at hk
  · intro h
    have hval : m.valtype ≠ .unknown := hknown.mpr (h.monitor name hname type htype)
    refine ⟨⟨0, m, by rw [hmonitor, if_pos hval], hm, ?_⟩, hpinnings, hinit_iff.mpr h.initTime,
      hwarmup_iff.mpr h.warmupTime, hmeasure_iff.mpr h.measureTime⟩
    cases hm : m.valtype with
    | max => exact .inl rfl
    | min => exact .inr rfl
    | unknown => exact absurd hm hval

section Runs

open Autopin1 PartialStep

variable {M D : Type} [Zero D] [Add D] [Div D] [IntCast D] [NatCast D] [LT D] [DecidableLT D]

/-- From a sound configuration to the search: every order of events after the start is handled. -/
theorem sound_run_defined (kernel : Kernel D) (monitor : PerformanceMonitor M D)
    (hsel : config.getConfigOption "ControlStrategy" = "autopin1")
    (hready : (slotWatchdogRun w config).ready = true) (hsound : Sound config) :
    ∃ s u, (slotWatchdogRun w config).strategy = some (.autopin1 s) ∧
      s.setup kernel monitor (slotWatchdogRun w config).process.trace = some u ∧
      ∀ session es, ∃ t, run (step u) (Autopin1.ready session : State M D) es = some t := by
  obtain ⟨s, name, type, m, hstrategy, hname, htype, -, hknown, -, hmonitorType, hpinnings, -⟩ :=
    ready_members hsel hready
  have hval : m.valtype ≠ .unknown := hknown.mpr (hsound.monitor name hname type htype)
  rw [if_pos hval] at hmonitorType
  obtain ⟨u, hu, htype', hpinnings'⟩ : ∃ u : Setup M D,
      s.setup kernel monitor (slotWatchdogRun w config).process.trace = some u ∧
        u.monitorType = m.valtype ∧ u.pinnings = s.pinnings := by
    rw [Members.setup, hmonitorType]
    exact ⟨_, rfl, rfl, rfl⟩
  rw [← htype'] at hval
  rw [← hpinnings'] at hpinnings
  refine ⟨s, u, hstrategy, hu, ?_⟩
  intro session es
  obtain ⟨t, -, ht, -⟩ := run_effect (fun _ => True) hval (fun _ _ _ _ _ _ _ _ => trivial)
    (ready_inStage session hpinnings) trivial (admitted_true _ _ es)
  exact ⟨t, ht⟩

end Runs

/-- A machine on which every command starts and no report is made. -/
def quietHost : Surroundings :=
  { toDouble _ := {}
    homedir := some "/home/user"
    getPid _ _ := (.empty, [])
    getCmd _ _ := ""
    readSensor _ _ := none
    waitForStarted _ _ := true
    start _ := (10, []) }

def goodText : String :=
  "ControlStrategy = autopin1\nExec = stress\nPerformanceMonitors = c\nc.type = gperf\n" ++
    "c.sensor = cycles\nc.valtype = max\nautopin1.schedule = 0:1 1:2\nautopin1.measure_time = 15\n"

def brokenText : String :=
  "ControlStrategy = autopin1\nExec = stress\nPerformanceMonitors = r\nr.type = random\n" ++
    "r.valtype = maximum\nautopin1.schedule = 0:1 1:2\nautopin1.measure_time = 0\n"

theorem ready_wellConfigured_gperf :
    ∃ s, (slotWatchdogRun quietHost (.ofText goodText {})).strategy = some (.autopin1 s) ∧
      WellConfigured (slotWatchdogRun quietHost (.ofText goodText {})) s := by
  -- one evaluation of the text for everything that is asked of it
  have hfacts :
      let config := StandardConfiguration.ofText goodText {}
      config.getConfigOption "ControlStrategy" = "autopin1" ∧
        (slotWatchdogRun quietHost config).ready = true ∧
        (config.getConfigOptionList "PerformanceMonitors").head? = some "c" ∧
        MonitorType.ofName (config.getConfigOption ("c" ++ ".type")) = some .gperf ∧
        QString.toLower (config.getConfigOption ("c" ++ ".valtype")) ≠ "unknown" ∧
        config.configOptionExists "autopin1.init_time" = 0 ∧
        config.configOptionExists "autopin1.warmup_time" = 0 ∧
        0 < config.getConfigOptionInt "autopin1.measure_time" := by decide +kernel
  obtain ⟨hsel, hready, hhead, hgperf, hlower, hinit, hwarmup, hmeasure⟩ := hfacts
  obtain ⟨s, hs, hiff⟩ := ready_wellConfigured_iff quietHost goodText {} hsel hready
  refine ⟨s, hs, hiff.mpr ⟨?_, by simp [hinit], by simp [hwarmup], fun _ => hmeasure⟩⟩
  intro name hname type htype
  obtain rfl : "c" = name := Option.some.inj (hhead.symm.trans hname)
  obtain rfl : .gperf = type := Option.some.inj (hgperf.symm.trans htype)
  exact hlower

/-- A random monitor of an unknown type and an invalid time are reported, but the watchdog becomes
ready, and autopin1 has no monitor. -/
theorem ready_without_monitor :
    ¬ ∀ (w : Surroundings) (text : String) (context : AutopinContext),
      (StandardConfiguration.ofText text context).getConfigOption "ControlStrategy" = "autopin1" →
      (slotWatchdogRun w (.ofText text context)).ready = true →
      ∃ s, (slotWatchdogRun w (.ofText text context)).strategy = some (.autopin1 s) ∧
        WellConfigured (slotWatchdogRun w (.ofText text context)) s := by
  intro h
  have hfacts :
      let d := slotWatchdogRun quietHost (.ofText brokenText {})
      (StandardConfiguration.ofText brokenText {}).getConfigOption "ControlStrategy" = "autopin1" ∧
        d.ready = true ∧
        (match d.strategy with
          | some (.autopin1 s) => s.monitor
          | some (.onTable _ _) => some 0
          | none => some 0) = none := by decide +kernel
  obtain ⟨hsel, hready, hmonitor⟩ := hfacts
  obtain ⟨s, hs, hwell⟩ := h quietHost brokenText {} hsel hready
  rw [hs] at hmonitor
  obtain ⟨i, m, hi, -⟩ := hwell.monitor
  exact absurd (hmonitor.symm.trans hi) (by simp)

end Watchdog

end AutopinPlus
