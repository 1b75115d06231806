import Flowline.Text.Case
import Flowline.Value.Convert

/-!
The configuration of an engine: limits and times that hold for all workflows.
-/

namespace Flowline

/-- Limits and times of an engine. Times are in seconds unless they say otherwise. -/
structure Config where
  /-- How many nodes one walk over a workflow takes from its queue at most. -/
  maxIterations : Int
  /-- After how long a waiting node is tried again that gives no time itself. -/
  resumePoll : Int
  /-- How long a node waits for a signal if it does not say. -/
  waitTimeout : Int
  /-- The length of the windows in which executions of a workflow are counted. -/
  rateWindow : Int
  /-- For how many days executions are kept. -/
  retentionDays : Int
  logLevel : String
  databaseUrl : String
deriving Repr, DecidableEq

namespace Config

def standard : Config where
  maxIterations := 10000
  resumePoll := 60
  waitTimeout := 3600
  rateWindow := 3600
  retentionDays := 30
  logLevel := "INFO"
  databaseUrl := "sqlite+aiosqlite:///./automation.db"

/-- The variables of the environment that are looked at. -/
def variableNames : List String := [
  "AUTOMATION_MAX_ITERATIONS", "AUTOMATION_RESUME_POLL_SECONDS", "AUTOMATION_DEFAULT_WAIT_TIMEOUT",
  "AUTOMATION_RATE_WINDOW_SECONDS", "AUTOMATION_EXECUTION_RETENTION_DAYS", "AUTOMATION_LOG_LEVEL",
  "AUTOMATION_DATABASE_URL"]

/-- The configuration that variables of the environment give, with standard values for the others. -/
def ofEnvironment (lookup : String → Option String) : Except Fault Config := do
  let whole (name : String) (value : Int) : Except Fault Int :=
    match lookup name with
    | some text => Value.intOfText text
    | none => .ok value
  return {
    maxIterations := ← whole "AUTOMATION_MAX_ITERATIONS" standard.maxIterations
    resumePoll := ← whole "AUTOMATION_RESUME_POLL_SECONDS" standard.resumePoll
    waitTimeout := ← whole "AUTOMATION_DEFAULT_WAIT_TIMEOUT" standard.waitTimeout
    rateWindow := ← whole "AUTOMATION_RATE_WINDOW_SECONDS" standard.rateWindow
    retentionDays := ← whole "AUTOMATION_EXECUTION_RETENTION_DAYS" standard.retentionDays
    logLevel := Text.upper ((lookup "AUTOMATION_LOG_LEVEL").getD standard.logLevel)
    databaseUrl := (lookup "AUTOMATION_DATABASE_URL").getD standard.databaseUrl }

def toValue (c : Config) : Value :=
  .object [
    ("max_iterations", .int c.maxIterations),
    ("resume_poll_seconds", .int c.resumePoll),
    ("default_wait_timeout", .int c.waitTimeout),
    ("rate_window_seconds", .int c.rateWindow),
    ("execution_retention_days", .int c.retentionDays),
    ("log_level", .str c.logLevel),
    ("database_url", .str c.databaseUrl)]

/-- The configuration that a record describes, with standard values for what it leaves out. -/
def ofValue (v : Value) : Config :=
  let whole (key : String) (standard : Int) : Int :=
    match v.field? key with
    | some (.int n) => n
    | _ => standard
  let text (key standard : String) : String :=
    match v.field? key with
    | some (.str s) => s
    | _ => standard
  { maxIterations := whole "max_iterations" standard.maxIterations
    resumePoll := whole "resume_poll_seconds" standard.resumePoll
    waitTimeout := whole "default_wait_timeout" standard.waitTimeout
    rateWindow := whole "rate_window_seconds" standard.rateWindow
    retentionDays := whole "execution_retention_days" standard.retentionDays
    logLevel := text "log_level" standard.logLevel
    databaseUrl := text "database_url" standard.databaseUrl }

end Config

end Flowline
