import PageAudit.Config.Basic
import PageAudit.Engine.Manifest
import PageAudit.Engine.Output

/-!
# The engine as a program

The engine is a script that Node runs once for a page. It is told the page and the endpoint of a browser.
-/

namespace PageAudit

open Text Files

/-- An engine. -/
structure NodeEngine where
  nodeBinary : String
  entryPath : String
  version : String := "unknown"
  /-- The least major version of Node. -/
  minNodeMajor : Option Nat := none
  deriving DecidableEq, Repr

namespace NodeEngine

/-- The engine that a configuration names. -/
def ofSettings (settings : EngineSettings) (resolved : ResolvedEngine) : NodeEngine :=
  { nodeBinary := settings.nodeBinary, entryPath := resolved.entryPath
    version := resolved.manifest.engineVersion, minNodeMajor := resolved.manifest.minNodeMajor? }

/-- What the engine is told after the name of its entry script. -/
def arguments (url endpoint : String) : List String :=
  ["audit", "--url", url, "--browser-endpoint", endpoint, "--engine-json"]

/-- An audit can be broken off before its end. -/
def supportsEarlyTermination : Bool := true

/-- What an audit came to; a program that does not start is an error of the engine. -/
def outcome : Except String ProcessOutput → Except AuditError Metrics
  | .ok p => p.outcome
  | .error cause => .error (.engine s!"无法启动审计引擎: {cause}")

/-- The setting that names the program. -/
def binarySetting : String := "engine.node_binary"

/-- Checks the version that Node printed. -/
def checkVersion (e : NodeEngine) (version : String) : Except ConfigError String :=
  match e.minNodeMajor with
  | none => .ok version
  | some required =>
    match nodeMajor? version with
    | some major =>
      if required ≤ major then .ok version
      else .error (.invalid binarySetting (.versionTooOld version major required))
    | none => .error (.invalid binarySetting (.versionUnknown version))

/-- The version of Node, if it is new enough. -/
def verify (e : NodeEngine) : Except String ProcessOutput → Except ConfigError String
  | .error cause => .error (.invalid binarySetting (.notRunnable e.nodeBinary cause))
  | .ok p => e.checkVersion (trim (decodeUtf8Lossy p.stdout))

end NodeEngine

end PageAudit
