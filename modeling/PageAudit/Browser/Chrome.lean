import PageAudit.Browser.Executable
import PageAudit.Browser.Profile
import PageAudit.Browser.Startup
import PageAudit.Engine.Manifest

/-!
# Starting and ending a browser

A start makes the profile directory, runs the program, waits for the endpoint and tries it. A start that fails
leaves no profile directory behind, nor does a browser that is ended.
-/

namespace PageAudit

open Files

/-- An installed browser. -/
structure Chrome where
  executable : String
  settings : BrowserSettings
  /-- Where profile directories are made. -/
  profileRoot : String
  deriving DecidableEq, Repr

namespace Chrome

/-- The browser that the settings name. -/
def find (files : Tree) (env : Environment) (settings : BrowserSettings) : Except ConfigError Chrome := do
  let executable ← resolveExecutable files settings.executable
  return { executable, settings, profileRoot := settings.profileRoot.getD (temporaryDirectory env) }

/-- The profile directory of an attempt. -/
def profileDirectory (c : Chrome) (o : LaunchOptions) : String :=
  o.profileDirectory c.profileRoot

/-- The arguments of the browser of an attempt. -/
def arguments (c : Chrome) (o : LaunchOptions) : List String :=
  launchArguments c.settings (c.profileDirectory o)

/-- Starts a browser in a tree of files. `run` is what comes of running the program, `probe` the reason why an
endpoint does not answer. -/
def launch (c : Chrome) (files : Tree) (run : Except String ErrorStream) (probe : String → Option String)
    (o : LaunchOptions) : Except LaunchError String × Tree :=
  let place := files.placeOf (c.profileDirectory o)
  match files.makeDirectories place with
  | .error fault => (.error (.spawnFailed c.executable fault.message), files)
  | .ok made =>
    match run with
    | .error cause => (.error (.spawnFailed c.executable cause), made.remove place)
    | .ok stream =>
      match stream.endpoint c.settings.startupTimeoutMs with
      | .error e => (.error e, made.remove place)
      | .ok endpoint =>
        match probe endpoint with
        | some cause => (.error (.probeFailed endpoint cause), made.remove place)
        | none => (.ok endpoint, made)

/-- Ends a browser of this run; `ended` is what comes of ending the process. The profile directory goes with it. -/
def kill (c : Chrome) (files : Tree) (ended : Except String Unit) (o : LaunchOptions) : Except String Unit × Tree :=
  match ended with
  | .error cause => (.error cause, files)
  | .ok () => (.ok (), files.removeDirectory (c.profileDirectory o))

end Chrome

end PageAudit
