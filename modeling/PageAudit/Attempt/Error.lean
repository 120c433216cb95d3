import PageAudit.Document.Data

/-!
# What goes wrong in an attempt

The causes for which an attempt fails, each with its kind and its sentence. Retries and the pool decide by
the kind alone.
-/

namespace PageAudit

open Document

/-- What a failure is about. -/
inductive ErrorKind where
  /-- Network, time, ports, failed starts: tried again. -/
  | transient
  /-- A page or a job that can never succeed: final at once. -/
  | fatal
  /-- Memory or browsers have run out: the pool shrinks and the job is tried again. -/
  | resource
  /-- A browser could not be ended: only noted. -/
  | supervisor
  | cancellation
  deriving DecidableEq, Repr

/-- The name of a kind. -/
def ErrorKind.name : ErrorKind → String
  | .transient => "transient"
  | .fatal => "fatal"
  | .resource => "resource"
  | .supervisor => "supervisor"
  | .cancellation => "cancellation"

/-- All kinds. -/
def ErrorKind.all : List ErrorKind :=
  [.transient, .fatal, .resource, .supervisor, .cancellation]

/-- Why no browser could be started. -/
inductive LaunchError where
  | spawnFailed (executable cause : String)
  | portInUse (detail : String)
  | startupTimeout (limit : Nat)
  /-- The browser ended before it reported an endpoint. -/
  | endpointNotReported (stderrTail : String)
  /-- The endpoint does not answer. -/
  | probeFailed (endpoint cause : String)
  /-- As many browsers as allowed are alive. -/
  | capacityExhausted (live limit : Nat)
  /-- The job already has a browser. -/
  | handleAlreadyHeld (jobId : String)
  deriving DecidableEq, Repr

/-- The kind of a failed start. -/
def LaunchError.kind : LaunchError → ErrorKind
  | .capacityExhausted .. => .resource
  | .handleAlreadyHeld _ => .fatal
  | _ => .transient

/-- The sentence for a failed start. -/
def LaunchError.message : LaunchError → String
  | .spawnFailed executable cause => s!"无法启动浏览器 {executable}: {cause}"
  | .portInUse detail => s!"调试端口已被占用: {detail}"
  | .startupTimeout limit => s!"等待浏览器调试地址超时 ({limit}ms)"
  | .endpointNotReported tail => s!"浏览器进程提前退出，未输出调试地址: {tail}"
  | .probeFailed endpoint cause => s!"调试地址 {endpoint} 探测失败: {cause}"
  | .capacityExhausted live limit => s!"浏览器容量已耗尽 (存活 {live} / 上限 {limit})"
  | .handleAlreadyHeld jobId => s!"任务 {jobId} 已持有浏览器句柄"

/-- The name of a cause. -/
def LaunchError.name : LaunchError → String
  | .spawnFailed .. => "SpawnFailed"
  | .portInUse _ => "PortInUse"
  | .startupTimeout _ => "StartupTimeout"
  | .endpointNotReported _ => "EndpointNotReported"
  | .probeFailed .. => "ProbeFailed"
  | .capacityExhausted .. => "CapacityExhausted"
  | .handleAlreadyHeld _ => "HandleAlreadyHeld"

/-- Why the audit of a page failed. -/
inductive AuditError where
  | network (detail : String)
  | timeout (limit : Nat)
  | resourceExhausted (detail : String)
  | invalidUrl (detail : String)
  | invalidConfig (detail : String)
  /-- Any other failure of the engine. -/
  | engine (detail : String)
  | interrupted
  deriving DecidableEq, Repr

/-- The kind of a failed audit. -/
def AuditError.kind : AuditError → ErrorKind
  | .network _ | .timeout _ | .engine _ => .transient
  | .resourceExhausted _ => .resource
  | .invalidUrl _ | .invalidConfig _ => .fatal
  | .interrupted => .cancellation

/-- The sentence for a failed audit. -/
def AuditError.message : AuditError → String
  | .network detail => s!"网络错误: {detail}"
  | .timeout limit => s!"审计超时 ({limit}ms)"
  | .resourceExhausted detail => s!"资源耗尽: {detail}"
  | .invalidUrl detail => s!"非法 URL: {detail}"
  | .invalidConfig detail => s!"非法任务配置: {detail}"
  | .engine detail => s!"引擎错误: {detail}"
  | .interrupted => "审计被中断"

/-- The name of a cause. -/
def AuditError.name : AuditError → String
  | .network _ => "Network"
  | .timeout _ => "Timeout"
  | .resourceExhausted _ => "ResourceExhausted"
  | .invalidUrl _ => "InvalidUrl"
  | .invalidConfig _ => "InvalidConfig"
  | .engine _ => "Engine"
  | .interrupted => "Interrupted"

/-- Why an attempt failed: no browser, or no result. -/
inductive AttemptError where
  | launch (e : LaunchError)
  | audit (e : AuditError)
  deriving DecidableEq, Repr

/-- The kind of a failed attempt is that of its cause. -/
def AttemptError.kind : AttemptError → ErrorKind
  | .launch e => e.kind
  | .audit e => e.kind

/-- The sentence for a failed attempt is that of its cause. -/
def AttemptError.message : AttemptError → String
  | .launch e => e.message
  | .audit e => e.message

/-- The name of a cause. -/
def AttemptError.name : AttemptError → String
  | .launch e => e.name
  | .audit e => e.name

/-- A failure in a document. -/
def AttemptError.data (e : AttemptError) : Data :=
  .map [("error", .str e.name), ("message", .str e.message), ("kind", .str e.kind.name)]

/-- A browser process that could not be ended. -/
structure KillError where
  pid : Nat
  cause : String
  deriving DecidableEq, Repr

/-- A browser that lives on is the supervisor's matter. -/
def KillError.kind (_ : KillError) : ErrorKind := .supervisor

/-- The sentence for a failed kill. -/
def KillError.message (e : KillError) : String :=
  s!"无法终止浏览器进程 {e.pid}: {e.cause}"

end PageAudit
