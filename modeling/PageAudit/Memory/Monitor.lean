import PageAudit.Decimal.Layout
import PageAudit.Decimal.Numeral
import PageAudit.Log.Line
import PageAudit.Memory.Pressure
import PageAudit.Text.Basic

/-!
# Watching the memory

A monitor reads the memory at its start and then at fixed intervals, and publishes the smoothed pressure. A
failed reading leaves the published pressure as it is. The system gives its memory line by line, each with a name
and a number of kibibytes; what is not available counts as used.
-/

namespace PageAudit

open Decimal Text

/-- Why a reading failed. -/
abbrev ProbeError := String

/-- The octets that a line of the account names. -/
def meminfoOctets? (name : String) (account : String) : Option Nat :=
  (account.splitOn "\n").findSome? fun line =>
    (afterFront? (name ++ ":") line).bind fun rest =>
      (readWord? 64 (String.ofList ((rest.toList.dropWhile (· == ' ')).takeWhile Char.isDigit))).map (· * 1024)

/-- The reading that an account gives. -/
def MemoryReading.ofMeminfo (account : String) : Except ProbeError MemoryReading :=
  match meminfoOctets? "MemTotal" account, meminfoOctets? "MemAvailable" account with
  | some total, some available =>
    if total == 0 then .error "无法读取系统内存总量" else .ok ⟨total - available, available⟩
  | _, _ => .error "无法读取系统内存总量"

/-- A mebibyte. -/
def mebibyte : Nat := 1024 * 1024

/-- A monitor: its readings, the pressure it has published and its lines. -/
structure MemoryMonitor where
  history : MemoryHistory
  published : MemoryPressure := {}

/-- The trend as it stands in a line. -/
def MemoryTrend.title : MemoryTrend → String
  | .rising => "Rising"
  | .falling => "Falling"
  | .stable => "Stable"

namespace MemoryMonitor

/-- The line for a reading and the pressure after it. -/
def sampleLine (r : MemoryReading) (p : MemoryPressure) : LogLine :=
  let level := fixed 0 (p.level * 100.0)
  ⟨.debug, s!"内存采样: 当前 {r.used / mebibyte} MiB, 平滑 {p.used / mebibyte} MiB, 水位 {level}%, 趋势 {p.trend.title}"⟩

/-- The first reading, which is published without a line. -/
def start (watermark capacity : Nat) (first : Except ProbeError MemoryReading) : MemoryMonitor × List LogLine :=
  let history := MemoryHistory.empty watermark capacity
  match first with
  | .ok r =>
    let history := history.push r
    ({ history, published := history.pressure }, [])
  | .error e => ({ history, published := history.pressure }, [⟨.warn, s!"⚠️ 首次内存采样失败: {e}"⟩])

/-- A later reading. -/
def sample (m : MemoryMonitor) : Except ProbeError MemoryReading → MemoryMonitor × List LogLine
  | .ok r =>
    let history := m.history.push r
    let p := history.pressure
    ({ history, published := p }, [sampleLine r p])
  | .error e => (m, [⟨.warn, s!"⚠️ 内存采样失败: {e}"⟩])

/-- The line for the end of a monitor. -/
def stoppedLine : LogLine := ⟨.debug, "内存监控已停止"⟩

/-- Takes `n` readings. -/
def sampleTimes (readings : Nat → Except ProbeError MemoryReading) :
    Nat → Nat → MemoryMonitor → MemoryMonitor × List LogLine
  | _, 0, m => (m, [])
  | first, n + 1, m =>
    let (m, lines) := m.sample (readings first)
    let (m, more) := sampleTimes readings (first + 1) n m
    (m, lines ++ more)

end MemoryMonitor

end PageAudit
