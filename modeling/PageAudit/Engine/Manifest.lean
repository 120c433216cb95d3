import PageAudit.Config.Environment
import PageAudit.Config.Error
import PageAudit.Document.Record
import PageAudit.Files.Tree
import PageAudit.Json.Reader

/-!
# The engine manifest

A manifest stands beside the engine and names its version, the Node version it needs and its entry script.
It is looked for at the configured path, in the cache directory, beside the program and one directory above.
-/

namespace PageAudit

open Document Files Text Decimal

/-- A manifest. -/
structure EngineManifest where
  schemaVersion : Nat
  engineVersion : String
  /-- The least version of Node, such as `20` or `20.11.0`. -/
  minNode : String
  /-- The entry script, relative to the manifest. -/
  entry : String
  defaultOutputDirName : Option String := none
  deriving DecidableEq, Repr

/-- An engine whose entry script exists. -/
structure ResolvedEngine where
  manifestPath : String
  manifest : EngineManifest
  entryPath : String
  deriving DecidableEq, Repr

/-- The characters up to the first point. -/
def beforePoint (cs : List Char) : List Char :=
  cs.takeWhile (· != '.')

/-- The major version of a text such as `v20.11.1` or `20`. -/
def nodeMajor? (version : String) : Option Nat :=
  let body := match (trim version).toList with
    | 'v' :: rest => rest
    | cs => cs
  readWord? 32 (String.ofList (beforePoint body))

/-- The least major version of Node; none if the manifest's text is no version. -/
def EngineManifest.minNodeMajor? (m : EngineManifest) : Option Nat :=
  nodeMajor? m.minNode

/-- The name of the manifest file. -/
def manifestFileName : String := "engine.manifest.json"

/-- The schema of manifests that is understood. -/
def supportedSchema : Nat := 1

/-- The directory for temporary files. -/
def temporaryDirectory (env : Environment) : String :=
  (env.get? "TMPDIR").getD "/tmp"

/-- The directory of this program among those for cached files. -/
def cacheDirectory (env : Environment) : String :=
  let base := match env.get? "XDG_CACHE_HOME", env.get? "HOME" with
    | some dir, _ => dir
    | none, some home => join home ".cache"
    | none, none => temporaryDirectory env
  join base "audit-pool"

/-- Leaves out a path that is the same as the one before it. -/
def dropRepeats : List String → List String
  | a :: b :: rest => if samePath a b then dropRepeats (a :: rest) else a :: dropRepeats (b :: rest)
  | rest => rest
termination_by paths => paths.length

/-- The paths where a manifest is looked for, in order. -/
def manifestCandidates (configured cache : String) (programDir : Option String) : List String :=
  let beside := match programDir with
    | none => []
    | some dir =>
      join dir manifestFileName :: ((parent? dir).map fun above => join above manifestFileName).toList
  dropRepeats (configured :: join (join cache "engine") manifestFileName :: beside)

/-- The first candidate that is a file. -/
def locateManifest (files : Tree) (candidates : List String) : Except ConfigError String :=
  match candidates.find? files.isFile with
  | some path => .ok path
  | none => .error (.manifestNotFound candidates)

/-- Reads a manifest. -/
def EngineManifest.ofData? (d : Data) : Option EngineManifest := do
  let r ← d.record? ["schemaVersion", "engineVersion", "minNode", "entry", "defaultOutputDirName"] .refused
  return {
    schemaVersion := ← r.field? "schemaVersion" (Data.word? 32)
    engineVersion := ← r.field? "engineVersion" Data.str?
    minNode := ← r.field? "minNode" Data.str?
    entry := ← r.field? "entry" Data.str?
    defaultOutputDirName := ← r.fieldD "defaultOutputDirName" (Data.optional? Data.str?) none }

/-- The manifest of a text, which has to be one that is understood. -/
def parseManifest (s : String) : Except ManifestFault EngineManifest :=
  match Json.read? s >>= EngineManifest.ofData? with
  | none => .error .malformed
  | some m =>
    if m.schemaVersion != supportedSchema then .error (.unsupportedSchema m.schemaVersion)
    else if isBlankText m.entry then .error .emptyEntry
    else .ok m

/-- Reads the manifest at a path and finds its entry script. -/
def resolveEngine (files : Tree) (manifestPath : String) : Except ConfigError ResolvedEngine :=
  match files.read manifestPath with
  | .error fault => .error (.readFailed manifestPath fault.message)
  | .ok s =>
    match parseManifest s with
    | .error fault => .error (.manifestInvalid manifestPath fault)
    | .ok manifest =>
      let entryPath := join ((parent? manifestPath).getD ".") manifest.entry
      if files.pathExists entryPath then .ok { manifestPath, manifest, entryPath }
      else .error (.manifestInvalid manifestPath (.missingEntry entryPath))

/-- Looks for a manifest and reads the one that is found. -/
def findEngine (files : Tree) (env : Environment) (programDir : Option String) (configured : String) :
    Except ConfigError ResolvedEngine := do
  let path ← locateManifest files (manifestCandidates configured (cacheDirectory env) programDir)
  resolveEngine files path

end PageAudit
