import PageAudit.Config.Basic
import PageAudit.Files.Path
import PageAudit.Text.Basic

/-!
# Profile directories

Every browser gets a profile directory of its own. The name carries a mark by which a browser of an earlier
run is known, the run, the job and the attempt. A process number may have been given to another program since: a
process is ended only if its command line carries the mark.
-/

namespace PageAudit

open Files Text

/-- For which attempt a browser is started. -/
structure LaunchOptions where
  jobId : String
  attempt : Nat
  runId : String
  deriving DecidableEq, Repr

/-- The mark at the front of the name of a profile directory. -/
def profileMark : String := "audit-pool-profile"

/-- A character as it stands in the name of a directory: ASCII letters, digits and `-`, anything else as `_`. -/
def profileChar (c : Char) : Char :=
  if c.isAlphanum || c == '-' then c else '_'

/-- The name of the profile directory of an attempt. -/
def LaunchOptions.profileName (o : LaunchOptions) : String :=
  let job := String.ofList (o.jobId.toList.map profileChar)
  s!"{profileMark}-{o.runId}-{job}-{o.attempt}"

/-- The profile directory of an attempt below a root. -/
def LaunchOptions.profileDirectory (o : LaunchOptions) (root : String) : String :=
  join root o.profileName

/-- The front of the argument that names the profile directory. -/
def profileFlag : String := "--user-data-dir="

/-- The arguments of a browser. -/
def launchArguments (settings : BrowserSettings) (profile : String) : List String :=
  ["--remote-debugging-port=0", profileFlag ++ profile, "--no-first-run", "--no-default-browser-check",
    "--disable-gpu", "--disable-dev-shm-usage", "--disable-extensions"]
    ++ (if settings.headless then ["--headless=new"] else [])
    ++ settings.extraArgs ++ ["about:blank"]

/-- What is done about a process that was not started by this run. -/
inductive OrphanAction where
  /-- There is no such process, or it is another program. -/
  | leave
  /-- The process is ended and its profile directory removed. -/
  | terminate (profile : Option String)
  deriving DecidableEq, Repr

/-- Decides by the command line of a process. -/
def orphanAction : Option (List String) → OrphanAction
  | none => .leave
  | some args =>
    if args.any (containsText profileMark) then .terminate (args.findSome? (afterFront? profileFlag))
    else .leave

end PageAudit
