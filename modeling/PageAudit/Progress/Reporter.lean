import PageAudit.Calendar.Stamp
import PageAudit.Files.Slot
import PageAudit.Log.Line
import PageAudit.Progress.Summary

/-!
# Reporting progress

A reporter takes events in order. It counts them, writes a line for each to the log, adds a line to the log
file for each that ends a job, and hands them on to subscribers.
-/

namespace PageAudit

open Calendar Files

/-- The line of the log file for the end of a job. -/
def ProgressEvent.outcomeText? : ProgressEvent → Option String
  | .succeeded jobId attempts durationMs =>
    some s!"任务 {jobId} | 成功 | 执行 {attempts} 次 | 耗时 {durationMs}ms"
  | .failedPermanent jobId attempts kind _ message =>
    some s!"任务 {jobId} | 失败 ({kind.name}) | 执行 {attempts} 次 | {message}"
  | .cancelled jobId attempts => some s!"任务 {jobId} | 已取消 | 执行 {attempts} 次"
  | _ => none

/-- The line of the log for an event; `s` counts the event already. -/
def ProgressEvent.line (s : RunSummary) : ProgressEvent → LogLine
  | .queued jobId url => ⟨.debug, s!"[任务 {jobId}] 📋 已排队: {url}"⟩
  | .started jobId attempt slotId => ⟨.info, s!"[任务 {jobId}] 🚀 第 {attempt} 次执行 (槽位 #{slotId})"⟩
  | .retried jobId attempt delayMs _ error =>
    ⟨.warn, s!"[任务 {jobId}] ↻ 第 {attempt} 次执行失败，{delayMs}ms 后重试: {error}"⟩
  | .succeeded jobId attempts durationMs =>
    ⟨.info, s!"[任务 {jobId}] ✅ 审计完成 (执行 {attempts} 次, 耗时 {durationMs}ms) [{s.finished}/{s.queued}]"⟩
  | .failedPermanent jobId attempts kind _ message =>
    ⟨.error, s!"[任务 {jobId}] ❌ 最终失败 ({kind.name}, 执行 {attempts} 次): {message} [{s.finished}/{s.queued}]"⟩
  | .cancelled jobId attempts => ⟨.warn, s!"[任务 {jobId}] ⏹ 已取消 (执行 {attempts} 次) [{s.finished}/{s.queued}]"⟩
  | .concurrencyChanged before after reason =>
    let marker := if after < before then "📉" else "📈"
    ⟨.info, s!"{marker} 并发调整 {before} → {after} ({reason})"⟩

/-- The line for a failure to write the log file. -/
def logFileFailedLine (path : String) (fault : FileFault) : LogLine :=
  ⟨.warn, s!"⚠️ 写入运行日志失败 ({path}): {fault.message}"⟩

/-- A reporter: its account, its lines, the log file if there is one, and the events handed on. -/
structure Reporter where
  summary : RunSummary := {}
  lines : List LogLine := []
  logFile : Option (String × Slot) := none
  events : List ProgressEvent := []

namespace Reporter

/-- Adds the outcome of an event to the log file; `time` stands at its front. -/
def appendOutcome (r : Reporter) (time : String) (e : ProgressEvent) : Reporter :=
  match r.logFile, e.outcomeText? with
  | some (path, slot), some text =>
    match slot.append (time ++ " | " ++ text ++ "\n") with
    | .ok slot => { r with logFile := some (path, slot) }
    | .error fault => { r with lines := r.lines ++ [logFileFailedLine path fault] }
  | _, _ => r

/-- Takes an event. -/
def take (r : Reporter) (time : String) (e : ProgressEvent) : Reporter :=
  let summary := r.summary.add e
  let r := { r with summary, lines := r.lines ++ [e.line summary] }
  let r := r.appendOutcome time e
  { r with events := r.events ++ [e] }

/-- Takes events in order, each at a time of its own. -/
def takeTimed (r : Reporter) (events : List (Stamp × ProgressEvent)) : Reporter :=
  events.foldl (fun r x => r.take x.1.plain x.2) r

/-- Takes events in order. -/
def takeAll (r : Reporter) (time : String) (events : List ProgressEvent) : Reporter :=
  events.foldl (fun r e => r.take time e) r

end Reporter

/-- What a subscriber gets that reads at the end: a channel keeps the last events, as many as its capacity
rounded up to a power of two. The number tells how many were lost. -/
def received {α : Type} (capacity : Nat) (events : List α) : Nat × List α :=
  let lost := events.length - capacity.nextPowerOfTwo
  (lost, events.drop lost)

end PageAudit
