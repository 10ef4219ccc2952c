import AutopinPlus.ConfigurationTexts
import AutopinPlus.Tools

/-!
# How the program is set up

`slot_autopinSetup` reads the options of the command line and the global configuration, chooses where to
log, and then creates everything else. The global configuration is parsed before there is a logger, since
it says which one to create, and the parser reports what it cannot read.
-/
namespace AutopinPlus

/-- The calls of a context that go to the logger all contexts share, with their texts. A report is
printed as an error or as a warning. -/
inductive ContextCall where
  | report (isError : Bool) (msg : String)
  | info (msg : String)
  | error (msg : String)
  deriving DecidableEq, Repr

inductive LoggingT where
  | stdout
  | logfile (path : String)
  | syslog
  deriving DecidableEq, Repr

/-- What the setup does, as far as it can be seen from outside. `quit` is `QCoreApplication::exit`, which
returns. -/
inductive SetupEvent where
  | setLogger (type : LoggingT)
  | call (c : ContextCall)
  | quit (code : Int)
  | ready
  deriving DecidableEq, Repr

/-- The machine and the libraries: the files that can be read, whether a log file can be opened, the texts
of the start messages, what `MQTTClient::init` returns and whether the signal handlers could be set. -/
structure AutopinHost where
  file : String → Option String
  opensLog : String → Bool
  pid : String
  hostname : String
  qVersion : String
  mqttInit : StandardConfiguration → String
  setupSignalHandler : Bool

/-- What `getopt_long` returns one after the other. -/
inductive CommandOpt where
  | version | help
  | conf (path : String)
  | daemon | unknown
  deriving DecidableEq, Repr

/-- The options of a command line, and the first argument that is none. -/
structure CommandLine where
  options : List CommandOpt
  rest : Option String

/-! ## `ClustSafe` -/

/-- The static members that say how the device is reached. -/
structure ClustSafeConnection where
  host : String := "localhost"
  port : BitVec 16 := 2010
  password : String := ""
  outlets : List Int := [1]

namespace ClustSafeConnection

/-- An option that is read in a `try` block: the value, or the text of what was thrown. -/
def readOption {α : Type} (config : StandardConfiguration) (opt key : String)
    (read : StandardConfiguration → Except String α) (fallback : α) : α × List ContextCall :=
  if config.configOptionExists opt = 0 then (fallback, [])
  else
    match read config with
    | .ok value => (value, [])
    | .error what =>
      (fallback, [.error ("ClustSafe::Main::init_static() failed: Could not parse the '" ++ key ++ "' option (" ++
        what ++ ").")])

def readString (config : StandardConfiguration) (opt fallback : String) : String :=
  if config.configOptionExists opt = 0 then fallback else config.getConfigOption opt

def initStatic (config : StandardConfiguration) (s : ClustSafeConnection) :
    ClustSafeConnection × List ContextCall :=
  let host := readString config "clust.host" s.host
  let port := readOption config "clust.port" "port"
    (fun c => (Tools.readULong (c.getConfigOption "clust.port")).map fun value => value.truncate 16) s.port
  let password := readString config "clust.password" s.password
  let outlets := readOption config "clust.outlets" "outlets"
    (fun c => Tools.readInts (c.getConfigOptionList "clust.outlets")) s.outlets
  ({ host := host, port := port.1, password := password, outlets := outlets.1 },
    port.2 ++ outlets.2 ++
      [.info "Using following values for ClustSafe", .info ("Host = " ++ host),
       .info ("Port = :" ++ toString port.1.toNat),
       .info ("Outlets = " ++ String.join (outlets.1.map fun elem => toString elem))])

end ClustSafeConnection

/-! ## `Autopin` -/

namespace Autopin

/-- The loop over the options. One of them can end the program with a code. -/
def readOptions : List CommandOpt → List String × Bool → Except Int (List String × Bool)
  | [], r => .ok r
  | .version :: _, _ => .error 0
  | .help :: _, _ => .error 0
  | .conf path :: options, (configPaths, isDaemon) => readOptions options (configPaths ++ [path], isDaemon)
  | .daemon :: options, (configPaths, _) => readOptions options (configPaths, true)
  | .unknown :: _, _ => .error 2

variable (host : AutopinHost)

def calls (l : List ContextCall) : List SetupEvent := l.map .call

def reports (l : List (Bool × String)) : List SetupEvent := calls (l.map fun r => .report r.1 r.2)

def globalConfigPath (line : CommandLine) : String := line.rest.getD ""

/-- The global configuration, if its file can be read. It has a context of its own. -/
def globalConfig (line : CommandLine) : Option StandardConfiguration :=
  (host.file (globalConfigPath line)).map fun text => StandardConfiguration.ofText text {}

/-- The file of `log.file`, or the default of `setupLogging`. -/
def logfilePath (config : StandardConfiguration) : String :=
  if config.getConfigOption "log.file" ≠ "" then config.getConfigOption "log.file" else "log.txt"

def loggingType : Option StandardConfiguration → LoggingT
  | none => .stdout
  | some config =>
    if config.getConfigOption "log.type" = "syslog" then .syslog
    else if config.getConfigOption "log.type" = "file" then .logfile (logfilePath config)
    else .stdout

/-- Only a log file can fail to be created. The program goes on then, without a logger. -/
def setupLogging : LoggingT → List SetupEvent
  | .logfile path => if host.opensLog path then [.setLogger (.logfile path)] else [.quit (-2)]
  | type => [.setLogger type]

def startMessages : List SetupEvent :=
  calls [.info ("autopin+ 1.0.0 started with pid " ++ host.pid ++ " on " ++ host.hostname ++ "!"),
    .info ("Running with Qt" ++ host.qVersion)]

/-- The connection of a daemon, and whether the setup goes on. -/
def setupDaemon (config : StandardConfiguration) (isDaemon : Bool) : List SetupEvent × Bool :=
  if isDaemon then
    if host.mqttInit config ≠ "" then
      (calls [.info "Setting up MQTT communication", .error (host.mqttInit config)] ++ [.quit 1], false)
    else (calls [.info "Setting up MQTT communication"], true)
  else ([], true)

/-- What is done with the global configuration before it is deleted. -/
def useGlobalConfig (config : Option StandardConfiguration) (isDaemon : Bool) : List SetupEvent × Bool :=
  match config with
  | none => ([], true)
  | some config =>
    let (events, goesOn) := setupDaemon host config isDaemon
    (events ++ if goesOn then calls (ClustSafeConnection.initStatic config {}).2 else [], goesOn)

/-- One pass of the loop over the process configurations: the global context, the configurations of the
watchdogs and the events so far. -/
def readConfig (acc : AutopinContext × List StandardConfiguration × List SetupEvent) (configPath : String) :
    AutopinContext × List StandardConfiguration × List SetupEvent :=
  let (context, watchdogs, events) := acc
  match host.file configPath with
  | some text =>
    let config := StandardConfiguration.ofText text context
    (config.context, watchdogs ++ [config], events ++ reports (config.context.logger.drop context.logger.length))
  | none =>
    let after := context.report .fileNotFound "config_file" ("Could not read configuration \"" ++ configPath ++ "\"")
    (after, watchdogs, events ++ reports (after.logger.drop context.logger.length))

def finishSetup (configPaths : List String) (isDaemon : Bool) : List SetupEvent :=
  calls [.info "Setting up signal handlers"] ++
    if host.setupSignalHandler then
      let (_, watchdogs, events) := configPaths.foldl (readConfig host) ({}, [], [])
      calls [.info "Getting information about the cpu", .info "Reading configurations ..."] ++ events ++
        (if !isDaemon && watchdogs.isEmpty then [.quit 0] else []) ++ [.ready]
    else
      reports (({} : AutopinContext).report .system "sigset" "Cannot setup signal handling").logger ++ [.quit 1]

def slotAutopinSetup (line : CommandLine) : List SetupEvent :=
  match readOptions line.options ([], false) with
  | .error code => [.quit code]
  | .ok (configPaths, isDaemon) =>
    let config := globalConfig host line
    let parsed := reports (config.elim [] fun c => c.context.logger)
    let used := useGlobalConfig host config isDaemon
    parsed ++ setupLogging host (loggingType config) ++ startMessages host ++ used.1 ++
      if used.2 then finishSetup host configPaths isDaemon else []

/-! ## Use before it is set -/

/-- No call before the logger is set. Such a call goes through a null pointer. -/
def SetBeforeUse (events : List SetupEvent) : Prop :=
  ∀ front c back, events = front ++ .call c :: back → ∃ type, .setLogger type ∈ front

theorem not_setBeforeUse_call (c : ContextCall) (events : List SetupEvent) : ¬ SetBeforeUse (.call c :: events) := by
  intro h
  obtain ⟨type, hm⟩ := h [] c events rfl
  cases hm

theorem setBeforeUse_setLogger (type : LoggingT) (events : List SetupEvent) :
    SetBeforeUse (.setLogger type :: events) := by
  intro front c back h
  cases front with
  | nil => cases h
  | cons e front =>
    obtain ⟨rfl, _⟩ := List.cons.inj h
    exact ⟨type, List.mem_cons_self⟩

theorem setBeforeUse_quit (code : Int) (events : List SetupEvent) :
    SetBeforeUse (.quit code :: events) ↔ SetBeforeUse events := by
  constructor
  · intro h front c back he
    obtain ⟨type, hm⟩ := h (.quit code :: front) c back (by rw [he, List.cons_append])
    exact ⟨type, (List.mem_cons.mp hm).resolve_left (by simp)⟩
  · intro h front c back he
    cases front with
    | nil => cases he
    | cons e front =>
      obtain ⟨_, he⟩ := List.cons.inj he
      obtain ⟨type, hm⟩ := h front c back he
      exact ⟨type, List.mem_cons_of_mem e hm⟩

/-- The logger that is asked for can be created. -/
def Creates : LoggingT → Prop
  | .logfile path => host.opensLog path = true
  | _ => True

/-- A call right after the logger is chosen finds it set exactly if it could be created. -/
theorem setBeforeUse_setupLogging (type : LoggingT) (c : ContextCall) (events : List SetupEvent) :
    SetBeforeUse (setupLogging host type ++ .call c :: events) ↔ Creates host type := by
  cases type with
  | stdout => exact iff_of_true (setBeforeUse_setLogger _ _) trivial
  | syslog => exact iff_of_true (setBeforeUse_setLogger _ _) trivial
  | logfile path =>
    rw [setupLogging, Creates]
    by_cases h : host.opensLog path = true
    · rw [if_pos h]
      exact iff_of_true (setBeforeUse_setLogger _ _) h
    · rw [if_neg h, List.singleton_append, setBeforeUse_quit]
      exact iff_of_false (not_setBeforeUse_call c events) h

theorem creates_loggingType_iff (config : Option StandardConfiguration) :
    Creates host (loggingType config) ↔
      ∀ c, config = some c → c.getConfigOption "log.type" = "file" → host.opensLog (logfilePath c) = true := by
  cases config with
  | none => simp [loggingType, Creates]
  | some config =>
    simp only [loggingType, Option.some.injEq, forall_eq']
    by_cases hsys : config.getConfigOption "log.type" = "syslog"
    · simp [hsys, Creates]
    · by_cases hfile : config.getConfigOption "log.type" = "file"
      · simp [hfile, Creates]
      · simp [hsys, hfile, Creates]

/-- Of a setup that goes beyond the options: the logger is set before it is used exactly if every line of the
global configuration is a comment or has an operator, and a log file it asks for can be opened. -/
theorem logger_set_before_use_iff {line : CommandLine} {options : List String × Bool}
    (haccepted : readOptions line.options ([], false) = .ok options) :
    SetBeforeUse (slotAutopinSetup host line) ↔
      ∀ text, host.file (globalConfigPath line) = some text →
        (∀ l ∈ StandardConfiguration.readLines text.toList, ¬ StandardConfiguration.Rejected l) ∧
        ((StandardConfiguration.ofText text {}).getConfigOption "log.type" = "file" →
          host.opensLog (logfilePath (StandardConfiguration.ofText text {})) = true) := by
  have hcreates := creates_loggingType_iff host (globalConfig host line)
  obtain ⟨configPaths, isDaemon⟩ := options
  simp only [slotAutopinSetup, haccepted]
  simp only [List.append_assoc]
  generalize hrest : (useGlobalConfig host (globalConfig host line) isDaemon).1 ++ _ = rest
  rw [startMessages, calls, List.map_cons, List.cons_append]
  unfold globalConfig at hcreates ⊢
  cases hfile : host.file (globalConfigPath line) with
  | none => simp [reports, calls, setBeforeUse_setupLogging, loggingType, Creates]
  | some text =>
    simp only [hfile, Option.map_some, Option.elim_some, Option.some.injEq, forall_eq'] at hcreates ⊢
    rw [← StandardConfiguration.logger_eq_nil_iff, ← hcreates]
    cases hlogger : (StandardConfiguration.ofText text {}).context.logger with
    | nil =>
      rw [reports, calls, List.map_nil, List.map_nil, List.nil_append, setBeforeUse_setupLogging, and_iff_right rfl]
    | cons r l =>
      rw [reports, calls, List.map_cons, List.map_cons, List.cons_append]
      exact iff_of_false (not_setBeforeUse_call _ _) (fun h => List.cons_ne_nil _ _ h.1)

/-- A machine with one file. -/
def oneFileHost (path text : String) : AutopinHost where
  file p := if p = path then some text else none
  opensLog _ := true
  pid := "1"
  hostname := "localhost"
  qVersion := "5"
  mqttInit _ := ""
  setupSignalHandler := true

theorem logger_set_before_use_logfile :
    SetBeforeUse (slotAutopinSetup (oneFileHost "autopin.conf" "# where to log\nlog.type = file\n")
      ⟨[.daemon], some "autopin.conf"⟩) := by
  have haccepted : readOptions [.daemon] ([], false) = .ok ([], true) := rfl
  refine (logger_set_before_use_iff _ haccepted).mpr ?_
  intro text htext
  obtain rfl : "# where to log\nlog.type = file\n" = text := Option.some.inj htext
  exact ⟨by decide, fun _ => rfl⟩

/-- A text that ends with an empty line. -/
theorem logger_used_before_set :
    readOptions [] ([], false) = .ok ([], false) ∧
    ¬ SetBeforeUse (slotAutopinSetup (oneFileHost "autopin.conf" "log.type = syslog\n\n")
      ⟨[], some "autopin.conf"⟩) := by
  refine ⟨rfl, ?_⟩
  intro h
  obtain ⟨type, hm⟩ := h [] (.report true "Invalid option format: \"\"") _ rfl
  cases hm

end Autopin

end AutopinPlus
