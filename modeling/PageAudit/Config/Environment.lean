import PageAudit.Config.Basic
import PageAudit.Config.Error
import PageAudit.Text.Basic
import PageAudit.Text.Utf8

/-!
# Settings from the environment

Variables override the settings of a file. A variable that is not UTF-8 counts as unset. Numbers and truth
values may have blanks around them; a value of another type is refused.
-/

namespace PageAudit

open Text Decimal

/-- Variables with their octets. -/
abbrev Environment := List (String × List Nat)

/-- The text of a variable. -/
def Environment.get? (env : Environment) (name : String) : Option String :=
  env.lookup name >>= decodeUtf8?

/-- The value of a variable that is read by `read`. -/
def Environment.parse? {α : Type} (env : Environment) (name expected : String) (read : String → Option α) :
    Except ConfigError (Option α) :=
  match env.get? name with
  | none => .ok none
  | some value =>
    match read (trim value) with
    | some a => .ok (some a)
    | none => .error (.variableUnreadable name value expected)

/-- A truth value. -/
def readBool? (s : String) : Option Bool :=
  if s == "true" then some true else if s == "false" then some false else none

/-- An unsigned size. -/
def Environment.size? (env : Environment) (name : String) : Except ConfigError (Option Nat) :=
  env.parse? name "usize" (readWord? 64)

/-- An unsigned 64-bit word. -/
def Environment.word64? (env : Environment) (name : String) : Except ConfigError (Option Nat) :=
  env.parse? name "u64" (readWord? 64)

/-- An unsigned 32-bit word. -/
def Environment.word32? (env : Environment) (name : String) : Except ConfigError (Option Nat) :=
  env.parse? name "u32" (readWord? 32)

/-- A real number. -/
def Environment.real? (env : Environment) (name : String) : Except ConfigError (Option Float) :=
  env.parse? name "f64" readFloat?

/-- A truth value. -/
def Environment.bool? (env : Environment) (name : String) : Except ConfigError (Option Bool) :=
  env.parse? name "bool" readBool?

/-- A configuration with the settings that the environment overrides. -/
def Config.override (c : Config) (env : Environment) : Except ConfigError Config := do
  let maxConcurrency ← env.size? "AUDIT_MAX_CONCURRENCY"
  let minConcurrency ← env.size? "AUDIT_MIN_CONCURRENCY"
  let watermark ← env.word64? "AUDIT_MEMORY_WATERMARK_BYTES"
  let threshold ← env.real? "AUDIT_FAILURE_RATE_THRESHOLD"
  let maxAttempts ← env.word32? "AUDIT_MAX_ATTEMPTS"
  let backoffBase ← env.word64? "AUDIT_BACKOFF_BASE_MS"
  let grace ← env.word64? "AUDIT_GRACE_PERIOD_MS"
  let verbose ← env.bool? "VERBOSE_LOGGING"
  return { c with
    pool := { c.pool with
      maxConcurrency := maxConcurrency.getD c.pool.maxConcurrency
      minConcurrency := minConcurrency.getD c.pool.minConcurrency
      memoryHighWatermarkBytes := watermark.getD c.pool.memoryHighWatermarkBytes
      failureRateThreshold := threshold.getD c.pool.failureRateThreshold }
    retry := { c.retry with
      maxAttempts := maxAttempts.getD c.retry.maxAttempts
      backoffBaseMs := backoffBase.getD c.retry.backoffBaseMs }
    browser := { c.browser with executable := env.get? "AUDIT_CHROME_PATH" <|> c.browser.executable }
    engine := { c.engine with
      manifestPath := (env.get? "AUDIT_ENGINE_MANIFEST").getD c.engine.manifestPath }
    gracePeriodMs := grace.getD c.gracePeriodMs
    planFile := (env.get? "AUDIT_PLAN_FILE").getD c.planFile
    outputRoot := (env.get? "AUDIT_OUTPUT_ROOT").getD c.outputRoot
    verboseLogging := verbose.getD c.verboseLogging
    outputLogFile := (env.get? "OUTPUT_LOG_FILE").getD c.outputLogFile }

end PageAudit
