import PageAudit.Command.Session
import Std.Time.DateTime.Timestamp

/-!
# The command line

The command works in the directory in which it is started: it reads the files there, carries out the session on
them, prints its lines and writes back what has changed. The programs that it runs are scripts in that directory.
-/

namespace PageAudit.CommandLine

open Files

/-- The absolute path of a place. -/
def pathOfPlace (place : Place) : String :=
  "/" ++ "/".intercalate place

/-- Reads the entries of a directory into a tree. -/
partial def readEntries (t : Tree) (entries : Array IO.FS.DirEntry) : IO Tree :=
  entries.foldlM (fun t e => do
    let path := e.path.toString
    if ← e.path.isDir then readEntries (t.addPath path none) (← e.path.readDir)
    else
      let octets ← IO.FS.readBinFile e.path
      return t.addPath path (some (octets.toList.map UInt8.toNat))) t

/-- Reads the directory in which the command is started. -/
def readDirectory : IO Tree := do
  let here ← IO.currentDir
  readEntries (.ofDirectory here.toString) (← here.readDir)

/-- Writes a file or makes a directory. -/
def writeNode (place : Place) (node : Node) : IO Unit :=
  match node.content with
  | .directory => IO.FS.createDirAll (pathOfPlace place)
  | .text s => IO.FS.writeFile (pathOfPlace place) s
  | .absent | .binary _ => pure ()

/-- Writes what has changed in a tree, directories before what is in them. -/
def writeChanges (before after : Tree) : IO Unit := do
  let changed := after.nodes.filter fun (place, node) => before.at? place != some node
  for (place, node) in changed.mergeSort fun a b => a.1.length ≤ b.1.length do
    writeNode place node

/-- Reads the variables that the command looks at. -/
def readEnvironment : IO Environment :=
  Surroundings.variables.filterMapM fun name => do
    return (← IO.getEnv name).map fun value => (name, utf8Octets value)

/-- Looks at what the command finds. No endpoint answers. -/
def surroundings : IO Surroundings := do
  let seed ← IO.rand 0 4294967295
  let account ← (IO.FS.readFile "/proc/meminfo").toBaseIO
  return {
    env := ← readEnvironment
    programDir := parent? (← IO.appPath).toString
    now := (← Std.Time.Timestamp.now).toMillisecondsSinceUnixEpoch.val.toNat
    draws := fun index attempt => (stdNext (mkStdGen (seed + 65537 * index + attempt))).1
    memory := fun _ => MemoryReading.ofMeminfo (account.toOption.getD "")
    probe := fun _ => some "connection refused" }

/-- A line of the log as it is printed. -/
def printedLine (l : LogLine) : String :=
  l.level.name.toUpper ++ " " ++ l.text

end PageAudit.CommandLine

open PageAudit PageAudit.CommandLine in
/-- Carries out the command and gives its exit code. -/
def main : IO UInt32 := do
  let before ← readDirectory
  let (outcome, after) := (← surroundings).carryOut before
  for l in after.lines do
    if l.level != .debug then IO.println (printedLine l)
  writeChanges before after.files
  match outcome with
  | .ok _ => return 0
  | .error e =>
    IO.eprintln e.notice
    return 1
