import PageAudit.Decimal.Layout

/-!
# Faults of a configuration

Why a configuration, the engine or the browser it names cannot be used.
-/

namespace PageAudit

open Decimal

/-- What is wrong with the value of a setting. -/
inductive SettingFault where
  | notAtLeastOne
  | notPositive
  /-- A greatest concurrency below the least. -/
  | belowMinimum (value minimum : Nat)
  | outsideRange (value low high : Nat)
  /-- A share that is not above 0 and below 1, or at most 1 if `inclusive`. -/
  | outsideUnit (value : Float) (inclusive : Bool)
  /-- A program that could not be run. -/
  | notRunnable (program cause : String)
  | versionTooOld (version : String) (major required : Nat)
  | versionUnknown (version : String)

/-- The reason in words. -/
def SettingFault.message : SettingFault → String
  | .notAtLeastOne => "必须 >= 1"
  | .notPositive => "必须 > 0"
  | .belowMinimum value minimum => s!"{value} 小于 min_concurrency {minimum}"
  | .outsideRange value low high => s!"{value} 不在 [{low}, {high}] 范围内"
  | .outsideUnit value inclusive =>
    Layout.message.write value ++ " 不在 (0, 1" ++ (if inclusive then "]" else ")") ++ " 范围内"
  | .notRunnable program cause => s!"无法运行 {program}: {cause}"
  | .versionTooOld version major required => s!"Node {version} (主版本 {major}) 低于要求的 {required}"
  | .versionUnknown version => s!"无法识别的 Node 版本: {version}"

/-- What is wrong with an engine manifest. -/
inductive ManifestFault where
  | malformed
  | unsupportedSchema (version : Nat)
  | emptyEntry
  | missingEntry (path : String)
  deriving DecidableEq, Repr

/-- The reason in words. -/
def ManifestFault.message : ManifestFault → String
  | .malformed => "invalid JSON"
  | .unsupportedSchema version => s!"不支持的 schemaVersion: {version}"
  | .emptyEntry => "entry 为空"
  | .missingEntry path => s!"入口文件不存在: {path}"

/-- Why there is no usable configuration. -/
inductive ConfigError where
  | invalid (setting : String) (fault : SettingFault)
  /-- A variable whose value is not of the expected type. -/
  | variableUnreadable (name value expected : String)
  | readFailed (path cause : String)
  | parseFailed (path cause : String)
  | browserNotFound (searched : List String)
  | manifestInvalid (path : String) (fault : ManifestFault)
  | manifestNotFound (searched : List String)

/-- The sentence for a fault. -/
def ConfigError.message : ConfigError → String
  | .invalid setting fault => s!"配置项 {setting} 非法: {fault.message}"
  | .variableUnreadable name value expected => s!"环境变量 {name} 解析失败: 值 '{value}' 无法转换为 {expected}"
  | .readFailed path cause => s!"读取配置文件失败 ({path}): {cause}"
  | .parseFailed path cause => s!"解析配置文件失败 ({path}): {cause}"
  | .browserNotFound searched => "未找到可用的浏览器 (已搜索: " ++ ", ".intercalate searched ++ ")"
  | .manifestInvalid path fault => s!"引擎清单非法 ({path}): {fault.message}"
  | .manifestNotFound searched => "未找到引擎清单 (已搜索: " ++ ", ".intercalate searched ++ ")"

end PageAudit
