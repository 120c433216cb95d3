import PageAudit.Config.Basic
import PageAudit.Document.Record

/-!
# Configurations in documents

A configuration is a record of records. What a document leaves out has its default.
-/

namespace PageAudit

open Document

/-- A text or null. -/
def textData (s : Option String) : Data := .ofOption .str s

/-- A number or null. -/
def natData (n : Option Nat) : Data := .ofOption .nat n

/-- An optional setting: a default where it is left out, none where it is null. -/
def settingD {α : Type} (r : Record) (name : String) (read : Data → Option α) (absent : Option α) :
    Option (Option α) :=
  r.fieldD name (Data.optional? read) absent

/-- Reads the policy of a pool. -/
def PoolPolicy.ofData? (surplus : Surplus) (d : Data) : Option PoolPolicy := do
  let base : PoolPolicy := {}
  let r ← d.record? ["max_concurrency", "min_concurrency", "initial_concurrency",
    "memory_high_watermark_bytes", "failure_rate_threshold", "window_size", "shrink_factor", "grow_step",
    "grow_headroom_ratio"] surplus
  return {
    maxConcurrency := ← r.fieldD "max_concurrency" (Data.word? 64) base.maxConcurrency
    minConcurrency := ← r.fieldD "min_concurrency" (Data.word? 64) base.minConcurrency
    initialConcurrency := ← settingD r "initial_concurrency" (Data.word? 64) base.initialConcurrency
    memoryHighWatermarkBytes :=
      ← r.fieldD "memory_high_watermark_bytes" (Data.word? 64) base.memoryHighWatermarkBytes
    failureRateThreshold := ← r.fieldD "failure_rate_threshold" Data.real? base.failureRateThreshold
    windowSize := ← r.fieldD "window_size" (Data.word? 64) base.windowSize
    shrinkFactor := ← r.fieldD "shrink_factor" Data.real? base.shrinkFactor
    growStep := ← r.fieldD "grow_step" (Data.word? 64) base.growStep
    growHeadroomRatio := ← r.fieldD "grow_headroom_ratio" Data.real? base.growHeadroomRatio }

/-- Reads a retry policy. -/
def RetryPolicy.ofData? (surplus : Surplus) (d : Data) : Option RetryPolicy := do
  let base : RetryPolicy := {}
  let r ← d.record? ["max_attempts", "backoff_base_ms", "backoff_jitter_ms"] surplus
  return {
    maxAttempts := ← r.fieldD "max_attempts" (Data.word? 32) base.maxAttempts
    backoffBaseMs := ← r.fieldD "backoff_base_ms" (Data.word? 64) base.backoffBaseMs
    backoffJitterMs := ← r.fieldD "backoff_jitter_ms" (Data.word? 64) base.backoffJitterMs }

/-- Reads how memory is watched. -/
def MemorySettings.ofData? (surplus : Surplus) (d : Data) : Option MemorySettings := do
  let base : MemorySettings := {}
  let r ← d.record? ["sample_interval_ms", "history_len"] surplus
  return {
    sampleIntervalMs := ← r.fieldD "sample_interval_ms" (Data.word? 64) base.sampleIntervalMs
    historyLen := ← r.fieldD "history_len" (Data.word? 64) base.historyLen }

/-- Reads how browsers are started. -/
def BrowserSettings.ofData? (surplus : Surplus) (d : Data) : Option BrowserSettings := do
  let base : BrowserSettings := {}
  let r ← d.record? ["executable", "headless", "extra_args", "startup_timeout_ms", "profile_root",
    "max_live_browsers"] surplus
  return {
    executable := ← settingD r "executable" Data.str? base.executable
    headless := ← r.fieldD "headless" Data.bool? base.headless
    extraArgs := ← r.fieldD "extra_args" (Data.list? Data.str?) base.extraArgs
    startupTimeoutMs := ← r.fieldD "startup_timeout_ms" (Data.word? 64) base.startupTimeoutMs
    profileRoot := ← settingD r "profile_root" Data.str? base.profileRoot
    maxLiveBrowsers := ← settingD r "max_live_browsers" (Data.word? 64) base.maxLiveBrowsers }

/-- Reads how the engine is run. -/
def EngineSettings.ofData? (surplus : Surplus) (d : Data) : Option EngineSettings := do
  let base : EngineSettings := {}
  let r ← d.record? ["manifest_path", "node_binary", "attempt_timeout_ms"] surplus
  return {
    manifestPath := ← r.fieldD "manifest_path" Data.str? base.manifestPath
    nodeBinary := ← r.fieldD "node_binary" Data.str? base.nodeBinary
    attemptTimeoutMs := ← r.fieldD "attempt_timeout_ms" (Data.word? 64) base.attemptTimeoutMs }

/-- Reads a configuration. -/
def Config.ofData? (surplus : Surplus) (d : Data) : Option Config := do
  let base : Config := {}
  let r ← d.record? ["pool", "retry", "memory", "browser", "engine", "grace_period_ms", "plan_file",
    "output_root", "state_dir", "verbose_logging", "output_log_file"] surplus
  return {
    pool := ← r.fieldD "pool" (PoolPolicy.ofData? surplus) base.pool
    retry := ← r.fieldD "retry" (RetryPolicy.ofData? surplus) base.retry
    memory := ← r.fieldD "memory" (MemorySettings.ofData? surplus) base.memory
    browser := ← r.fieldD "browser" (BrowserSettings.ofData? surplus) base.browser
    engine := ← r.fieldD "engine" (EngineSettings.ofData? surplus) base.engine
    gracePeriodMs := ← r.fieldD "grace_period_ms" (Data.word? 64) base.gracePeriodMs
    planFile := ← r.fieldD "plan_file" Data.str? base.planFile
    outputRoot := ← r.fieldD "output_root" Data.str? base.outputRoot
    stateDir := ← settingD r "state_dir" Data.str? base.stateDir
    verboseLogging := ← r.fieldD "verbose_logging" Data.bool? base.verboseLogging
    outputLogFile := ← r.fieldD "output_log_file" Data.str? base.outputLogFile }

/-- The policy of a pool in a document. -/
def PoolPolicy.data (p : PoolPolicy) : Data :=
  .map [("max_concurrency", .nat p.maxConcurrency), ("min_concurrency", .nat p.minConcurrency),
    ("initial_concurrency", natData p.initialConcurrency),
    ("memory_high_watermark_bytes", .nat p.memoryHighWatermarkBytes),
    ("failure_rate_threshold", .float p.failureRateThreshold), ("window_size", .nat p.windowSize),
    ("shrink_factor", .float p.shrinkFactor), ("grow_step", .nat p.growStep),
    ("grow_headroom_ratio", .float p.growHeadroomRatio)]

/-- A retry policy in a document. -/
def RetryPolicy.data (p : RetryPolicy) : Data :=
  .map [("max_attempts", .nat p.maxAttempts), ("backoff_base_ms", .nat p.backoffBaseMs),
    ("backoff_jitter_ms", .nat p.backoffJitterMs)]

/-- How memory is watched, in a document. -/
def MemorySettings.data (s : MemorySettings) : Data :=
  .map [("sample_interval_ms", .nat s.sampleIntervalMs), ("history_len", .nat s.historyLen)]

/-- How browsers are started, in a document. -/
def BrowserSettings.data (s : BrowserSettings) : Data :=
  .map [("executable", textData s.executable), ("headless", .bool s.headless),
    ("extra_args", .list (s.extraArgs.map .str)), ("startup_timeout_ms", .nat s.startupTimeoutMs),
    ("profile_root", textData s.profileRoot), ("max_live_browsers", natData s.maxLiveBrowsers)]

/-- How the engine is run, in a document. -/
def EngineSettings.data (s : EngineSettings) : Data :=
  .map [("manifest_path", .str s.manifestPath), ("node_binary", .str s.nodeBinary),
    ("attempt_timeout_ms", .nat s.attemptTimeoutMs)]

/-- A configuration in a document. -/
def Config.data (c : Config) : Data :=
  .map [("pool", c.pool.data), ("retry", c.retry.data), ("memory", c.memory.data),
    ("browser", c.browser.data), ("engine", c.engine.data), ("grace_period_ms", .nat c.gracePeriodMs),
    ("plan_file", .str c.planFile), ("output_root", .str c.outputRoot), ("state_dir", textData c.stateDir),
    ("verbose_logging", .bool c.verboseLogging), ("output_log_file", .str c.outputLogFile)]

end PageAudit
