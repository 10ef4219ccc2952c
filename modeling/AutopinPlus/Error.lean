import Mathlib.Data.List.Basic

/-!
# Error reports and the error state of a context

Every component reports into the context of its watchdog. Whether a report is
fatal is decided by its type and a string tag, and the error state is never left.
-/
namespace AutopinPlus

inductive AutopinErrors where
  | fileNotFound | badConfig | process | system | procTrace | comm | monitor | strategy
  | history | unsupported | unknown | none
  deriving DecidableEq, Repr

inductive AutopinEstate where
  | error | noError
  deriving DecidableEq, Repr

/-- The table of `Error::report`: which tags call `setError`. A tag that is not
listed for its type is recorded and otherwise ignored. -/
def setsError : AutopinErrors → String → Bool
  | .fileNotFound, opt => opt == "config"
  | .badConfig, opt => opt == "option_format" || opt == "option_missing" || opt == "inconsistent"
  | .process, opt => opt == "not_found" || opt == "found_many" || opt == "create" || opt == "terminated"
  | .system, opt => opt == "create_socket" || opt == "mqqt" || opt == "sigset" || opt == "access_proc" ||
      opt == "file_open"
  | .comm, opt => opt == "default_addr" || opt == "not_initialized" || opt == "socket" ||
      opt == "comm_target" || opt == "connect" || opt == "send"
  | .procTrace, opt => opt == "in_use" || opt == "ptrace_eventmsg" || opt == "cont_failed"
  | .monitor, opt => opt == "init" || opt == "start" || opt == "value" || opt == "stop" ||
      opt == "create" || opt == "destroy"
  | .strategy, opt => opt == "no_task" || opt == "wrong_cpu"
  | .history, opt => opt == "bad_syntax" || opt == "bad_file"
  | .unsupported, opt => opt == "critical"
  | .unknown, _ => true
  | .none, _ => false

/-- `AutopinContext` with its `Error` member. The logger keeps the text of every
report, together with whether it was printed as an error. -/
structure AutopinContext where
  errors : List (AutopinErrors × String) := []
  globalEstate : AutopinEstate := .noError
  logger : List (Bool × String) := []
  deriving DecidableEq, Repr

namespace AutopinContext

def isError (c : AutopinContext) : Bool := c.globalEstate == .error

def report (c : AutopinContext) (error : AutopinErrors) (opt msg : String) : AutopinContext :=
  let estate := if setsError error opt then .error else c.globalEstate
  { errors := c.errors ++ [(error, opt)],
    globalEstate := estate,
    logger := c.logger ++ [(estate == .error, msg)] }

@[simp] theorem report_errors (c : AutopinContext) (error : AutopinErrors) (opt msg : String) :
    (c.report error opt msg).errors = c.errors ++ [(error, opt)] := rfl

@[simp] theorem report_isError (c : AutopinContext) (error : AutopinErrors) (opt msg : String) :
    (c.report error opt msg).isError = (setsError error opt || c.isError) := by
  unfold report isError
  cases setsError error opt <;> simp

/-- The report that put the context into the error state. -/
def cause (c : AutopinContext) : Option (AutopinErrors × String) :=
  c.errors.find? (fun e => setsError e.1 e.2)

/-- The error state has a cause, and this is not a failed `value` of a monitor. -/
structure Spared (c : AutopinContext) : Prop where
  isError : c.isError = c.cause.isSome
  cause : c.cause ≠ some (.monitor, "value")

theorem report_cause (c : AutopinContext) (error : AutopinErrors) (opt msg : String) :
    (c.report error opt msg).cause = c.cause.or (if setsError error opt then some (error, opt) else none) := by
  unfold cause
  rw [report_errors, List.find?_append]
  by_cases h : setsError error opt <;> simp [h]

/-- A failed `value` may be reported where the context is in the error state already. -/
theorem Spared.report {c : AutopinContext} (h : c.Spared) {error : AutopinErrors} {opt : String}
    (msg : String) (hv : (error, opt) = (.monitor, "value") → c.isError = true) :
    (c.report error opt msg).Spared := by
  obtain ⟨hstate, hcause⟩ := h
  constructor
  · rw [report_isError, report_cause, hstate]
    cases c.cause <;> by_cases hs : setsError error opt <;> simp [hs]
  · rw [report_cause]
    cases hc : c.cause with
    | some e =>
      rw [Option.some_or, ← hc]
      exact hcause
    | none =>
      rw [Option.none_or]
      split
      · intro he
        have := hv (Option.some.inj he)
        simp [hstate, hc] at this
      · simp

end AutopinContext

end AutopinPlus
