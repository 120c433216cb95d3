import PageAudit.Config.Basic
import PageAudit.Decimal.Layout
import PageAudit.Log.Line
import PageAudit.Run.Report

/-!
# The log of a run

The header of the log file, and the lines at the start and at the end of a run.
-/

namespace PageAudit

open Decimal

/-- The text that a log file starts with. -/
def logHeader (time : String) : String :=
  logRule ++ "\n审计运行日志 - " ++ time ++ "\n" ++ logRule ++ "\n\n"

/-- A gibibyte. -/
def gibibyte : Float := 1073741824.0

/-- The lines at the start; none when the bounds of the pool exclude each other. -/
def startupLines? (c : Config) : Option (List LogLine) :=
  c.pool.starting?.map fun starting =>
    let watermark := fixed 1 (ofWord c.pool.memoryHighWatermarkBytes / gibibyte)
    [ logRule,
      "🚀 程序启动 - 自适应审计模式",
      s!"📊 并发范围: {c.pool.minConcurrency}-{c.pool.maxConcurrency} (初始 {starting})",
      s!"🧠 内存水位线: {watermark} GiB",
      s!"↻ 最多执行 {c.retry.maxAttempts} 次，退避基数 {c.retry.backoffBaseMs}ms",
      logRule ].map fun text => ⟨.info, text⟩

/-- The lines at the end. -/
def finalLines (r : RunReport) (time logFile : String) : List LogLine :=
  let p := r.pool
  let reason := match r.cancelReason with
    | some text => [s!"取消原因: {text}"]
    | none => []
  let saved := if logFile.isEmpty then [] else [s!"\n日志已保存至: {logFile}"]
  ([ "\n" ++ logRule,
      s!"📊 运行 {r.runId} 统计 ({r.state.name})",
      s!"完成时间: {time}",
      logRule,
      s!"✅ 成功: {r.succeeded}/{r.results.length}",
      s!"❌ 失败: {r.failed}",
      s!"⏹ 取消: {r.cancelled}",
      s!"↻ 重试: {r.summary.retries}",
      s!"⚙️ 并发: 最终 {p.finalConcurrency} (范围 {p.minObservedConcurrency}-{p.maxObservedConcurrency}，收缩 {p.shrinkEvents} 次，增长 {p.growEvents} 次)" ]
    ++ reason ++ [logRule] ++ saved).map fun text => ⟨.info, text⟩

end PageAudit
