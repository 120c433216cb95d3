import PageAudit.Run.Error

/-!
# Faults of the command

Everything for which the command ends early, with the sentence that it leaves behind.
-/

namespace PageAudit

/-- Why the command ends early. -/
inductive CommandError where
  | configNotLoaded (cause : ConfigError)
  | logFileNotCreated (path : String)
  | plan (e : PlanFileError)
  /-- The browser, the engine or Node cannot be used. -/
  | unusable (e : ConfigError)
  | run (e : AppError)
  | outputNotCreated (directory : String)
  | resultsNotWritten (path : String)

/-- The sentence for a fault. -/
def CommandError.message : CommandError → String
  | .configNotLoaded _ => "加载配置失败"
  | .logFileNotCreated path => s!"无法创建日志文件: {path}"
  | .plan e => e.message
  | .unusable e => e.message
  | .run e => e.message
  | .outputNotCreated directory => s!"无法创建输出目录: {directory}"
  | .resultsNotWritten path => s!"无法写入运行结果: {path}"

/-- What the command leaves behind on its error stream. -/
def CommandError.notice (e : CommandError) : String := s!"Error: {e.message}"

end PageAudit
