import PageAudit.Config.Basic
import PageAudit.Config.Error
import PageAudit.Files.Tree

/-!
# Finding a browser

The configured program is taken if it exists or if it is a bare name, which the system looks up. Without one,
the first of the known places is taken where a program stands.
-/

namespace PageAudit

open Files

/-- The places where a browser may be installed. -/
def browserCandidates : List String :=
  ["/usr/bin/google-chrome", "/usr/bin/google-chrome-stable", "/usr/bin/microsoft-edge", "/usr/bin/brave-browser",
    "/usr/bin/chromium", "/usr/bin/chromium-browser", "/snap/bin/chromium"]

/-- A relative path of one component. -/
def isBareName (path : String) : Bool :=
  match components path with
  | (false, [_]) => true
  | _ => false

/-- The browser to start. -/
def resolveExecutable (files : Tree) : Option String → Except ConfigError String
  | some path =>
    if isBareName path || files.pathExists path then .ok path else .error (.browserNotFound [path])
  | none =>
    match browserCandidates.find? files.pathExists with
    | some path => .ok path
    | none => .error (.browserNotFound browserCandidates)

end PageAudit
