import PageAudit.Concurrency.Basic
import PageAudit.Retry

/-!
# Configuration

Everything a run is told in advance. Times are in milliseconds, and every setting has a default.
-/

namespace PageAudit

/-- How the memory is watched. -/
structure MemorySettings where
  sampleIntervalMs : Nat := 2000
  /-- The number of readings that are smoothed. -/
  historyLen : Nat := 5
  deriving DecidableEq, Repr

/-- How browsers are started. -/
structure BrowserSettings where
  /-- The program; without one, the known places are searched. -/
  executable : Option String := none
  headless : Bool := true
  extraArgs : List String := []
  /-- How long a browser may take to report its endpoint. -/
  startupTimeoutMs : Nat := 15000
  /-- Where profile directories are made; without one, in the directory for temporary files. -/
  profileRoot : Option String := none
  /-- The greatest number of browsers alive; without one, the greatest concurrency. -/
  maxLiveBrowsers : Option Nat := none
  deriving DecidableEq, Repr

/-- How the audit engine is found and run. -/
structure EngineSettings where
  manifestPath : String := "engine/engine.manifest.json"
  nodeBinary : String := "node"
  attemptTimeoutMs : Nat := 120000
  deriving DecidableEq, Repr

/-- A configuration. -/
structure Config where
  pool : PoolPolicy := {}
  retry : RetryPolicy := {}
  memory : MemorySettings := {}
  browser : BrowserSettings := {}
  engine : EngineSettings := {}
  /-- How long attempts may go on after a cancellation. -/
  gracePeriodMs : Nat := 10000
  planFile : String := "audit-plan.toml"
  outputRoot : String := "audit-runs"
  /-- Where the ledger and the history are kept. -/
  stateDir : Option String := some ".audit-pool"
  verboseLogging : Bool := false
  /-- The log file of a run; an empty name for none. -/
  outputLogFile : String := "audit-run.log"

/-- The greatest number of browsers alive at once. -/
def Config.browserCapacity (c : Config) : Nat :=
  c.browser.maxLiveBrowsers.getD c.pool.maxConcurrency

end PageAudit
