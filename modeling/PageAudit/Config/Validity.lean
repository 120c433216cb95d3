import PageAudit.Config.Basic
import PageAudit.Config.Error

/-!
# Valid configurations

The conditions on a configuration, in the order in which they are reported.
-/

namespace PageAudit

/-- Refuses a setting unless a condition holds. -/
def demand (condition : Bool) (setting : String) (fault : SettingFault) : Except ConfigError Unit :=
  if condition then .ok () else .error (.invalid setting fault)

/-- A share above 0 and at most 1. -/
def isShare (x : Float) : Bool := 0.0 < x && x ≤ 1.0

/-- A share above 0 and below 1. -/
def isProperShare (x : Float) : Bool := 0.0 < x && x < 1.0

/-- The conditions on a pool. -/
def PoolPolicy.validate (p : PoolPolicy) : Except ConfigError Unit := do
  demand (1 ≤ p.minConcurrency) "pool.min_concurrency" .notAtLeastOne
  demand (p.minConcurrency ≤ p.maxConcurrency) "pool.max_concurrency"
    (.belowMinimum p.maxConcurrency p.minConcurrency)
  if let some n := p.initialConcurrency then
    demand (p.minConcurrency ≤ n && n ≤ p.maxConcurrency) "pool.initial_concurrency"
      (.outsideRange n p.minConcurrency p.maxConcurrency)
  demand (isShare p.failureRateThreshold) "pool.failure_rate_threshold"
    (.outsideUnit p.failureRateThreshold true)
  demand (1 ≤ p.windowSize) "pool.window_size" .notAtLeastOne
  demand (isProperShare p.shrinkFactor) "pool.shrink_factor" (.outsideUnit p.shrinkFactor false)
  demand (1 ≤ p.growStep) "pool.grow_step" .notAtLeastOne
  demand (isShare p.growHeadroomRatio) "pool.grow_headroom_ratio" (.outsideUnit p.growHeadroomRatio true)
  demand (0 < p.memoryHighWatermarkBytes) "pool.memory_high_watermark_bytes" .notPositive

/-- The condition on retries. -/
def RetryPolicy.validate (p : RetryPolicy) : Except ConfigError Unit :=
  demand (1 ≤ p.maxAttempts) "retry.max_attempts" .notAtLeastOne

/-- The conditions on a configuration. -/
def Config.validate (c : Config) : Except ConfigError Unit := do
  c.pool.validate
  c.retry.validate
  demand (0 < c.memory.sampleIntervalMs) "memory.sample_interval_ms" .notPositive
  demand (0 < c.memory.historyLen) "memory.history_len" .notAtLeastOne
  demand (0 < c.engine.attemptTimeoutMs) "engine.attempt_timeout_ms" .notPositive
  demand (c.browser.maxLiveBrowsers != some 0) "browser.max_live_browsers" .notAtLeastOne

end PageAudit
