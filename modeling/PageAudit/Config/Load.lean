import PageAudit.Config.Document
import PageAudit.Config.Environment
import PageAudit.Config.Validity
import PageAudit.Files.Tree
import PageAudit.Toml.Table

/-!
# Loading a configuration

Defaults, then a file, then the environment; the outcome has to be valid.
-/

namespace PageAudit

open Document Files

/-- Reads the text of a configuration file. -/
def Config.read? (s : String) : Option Config :=
  Toml.read? s >>= Config.ofData? .ignored

/-- Reads a configuration file. -/
def Config.ofFile (files : Tree) (path : String) : Except ConfigError Config :=
  match files.read path with
  | .error fault => .error (.readFailed path fault.message)
  | .ok s =>
    match Config.read? s with
    | some c => .ok c
    | none => .error (.parseFailed path "invalid TOML")

/-- The file that is read when no variable names one. -/
def Config.defaultFile : String := "audit.toml"

/-- The configuration of a run. The file may be missing. -/
def Config.load (files : Tree) (env : Environment) : Except ConfigError Config := do
  let path := (env.get? "AUDIT_CONFIG").getD Config.defaultFile
  let base ← if files.pathExists path then Config.ofFile files path else pure {}
  let c ← base.override env
  c.validate
  return c

end PageAudit
