import PageAudit.Attempt.Error
import PageAudit.Config.Error
import PageAudit.Plan

/-!
# Faults of a run

Everything for which a run can fail as a whole.
-/

namespace PageAudit

/-- Why a run cannot go on. -/
inductive RunError where
  /-- The run was started before and is in the given state. -/
  | alreadyStarted (state : String)
  | poolFailed (cause : String)
  deriving DecidableEq, Repr

/-- The sentence for a run that cannot go on. -/
def RunError.message : RunError → String
  | .alreadyStarted state => s!"运行已开始，当前状态: {state}"
  | .poolFailed cause => s!"工作池控制任务异常退出: {cause}"

/-- Any fault, by the part it comes from. -/
inductive AppError where
  | config (e : ConfigError)
  | plan (e : PlanError)
  | launch (e : LaunchError)
  | audit (e : AuditError)
  | supervisor (e : KillError)
  | run (e : RunError)
  | io (cause : String)

/-- The sentence for a fault, with the part it comes from at its front. -/
def AppError.message : AppError → String
  | .config e => s!"配置错误: {e.message}"
  | .plan e => s!"任务计划错误: {e.message}"
  | .launch e => s!"浏览器启动错误: {e.message}"
  | .audit e => s!"审计引擎错误: {e.message}"
  | .supervisor e => s!"进程监管错误: {e.message}"
  | .run e => s!"运行错误: {e.message}"
  | .io cause => s!"IO错误: {cause}"

/-- The kind of a fault, for those that can befall an attempt. -/
def AppError.kind? : AppError → Option ErrorKind
  | .launch e => some e.kind
  | .audit e => some e.kind
  | .supervisor e => some e.kind
  | .config _ | .plan _ | .run _ | .io _ => none

end PageAudit
