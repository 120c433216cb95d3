import PageAudit.Files.Path
import PageAudit.Files.Slot

/-!
# File trees

A tree of directories and files with a working directory. Paths are followed segment by segment: each
segment but the last has to be a directory.
-/

namespace PageAudit.Files

/-- A place in a tree: the names from the root down. -/
abbrev Place := List String

/-- A file or directory. -/
structure Node where
  content : Content
  /-- The file can be run as a program. -/
  executable : Bool := false
  deriving DecidableEq, Repr

/-- A file of the given octets. One that begins with `#!` is a program. -/
def Node.ofOctets (octets : List Nat) : Node :=
  { content := .ofOctets octets, executable := (utf8Octets "#!").isPrefixOf octets }

/-- A tree. The root is a directory without an entry. -/
structure Tree where
  nodes : List (Place × Node)
  /-- The working directory. -/
  here : Place
  deriving DecidableEq, Repr

namespace Tree

/-- What stands at a place. -/
def at? (t : Tree) (place : Place) : Option Node :=
  if place.isEmpty then some ⟨.directory, false⟩ else t.nodes.lookup place

/-- A place holds a directory. -/
def isDirectoryAt (t : Tree) (place : Place) : Bool :=
  (t.at? place).any fun n => n.content == .directory

/-- Follows one segment. -/
def follow (t : Tree) (place : Place) (segment : String) : Except FileFault Place :=
  match t.at? place with
  | none => .error .notFound
  | some node =>
    if node.content != .directory then .error .notDirectory
    else if segment == "" || segment == "." then .ok place
    else if segment == ".." then .ok place.dropLast
    else .ok (place ++ [segment])

/-- The place a path leads to, whether or not something stands there. -/
def locate (t : Tree) (path : String) : Except FileFault Place :=
  if path.isEmpty || path.toList.contains '\x00' then .error .notFound
  else (segments path).foldlM t.follow (if isAbsolute path then [] else t.here)

/-- What stands at a path. -/
def node? (t : Tree) (path : String) : Option Node :=
  match t.locate path with
  | .ok place => t.at? place
  | .error _ => none

/-- Something stands at a path. -/
def pathExists (t : Tree) (path : String) : Bool :=
  (t.node? path).isSome

/-- A file stands at a path. -/
def isFile (t : Tree) (path : String) : Bool :=
  (t.node? path).any fun n => n.content != .directory

/-- The text of a file. -/
def read (t : Tree) (path : String) : Except FileFault String := do
  let place ← t.locate path
  match t.at? place with
  | some node => node.content.read
  | none => .error .notFound

/-- Puts a node at a place, without looking at its parents. -/
def set (t : Tree) (place : Place) (node : Node) : Tree :=
  { t with nodes := (place, node) :: t.nodes.filter (·.1 != place) }

/-- Creates the directories of a place that do not exist. A file in the way is a fault. -/
def makeDirectories (t : Tree) (place : Place) : Except FileFault Tree :=
  ((List.range place.length).map fun n => place.take (n + 1)).foldlM
    (fun t p =>
      match t.at? p with
      | none => .ok (t.set p ⟨.directory, false⟩)
      | some node => if node.content == .directory then .ok t else .error .notDirectory) t

/-- The place of a path whose directories need not exist yet. -/
def placeOf (t : Tree) (path : String) : Place :=
  (segments path).foldl
    (fun place s => if s == "" || s == "." then place else if s == ".." then place.dropLast else place ++ [s])
    (if isAbsolute path then [] else t.here)

/-- A place as a slot: it can be written when its directory exists. -/
def slot (t : Tree) (place : Place) : Slot :=
  { content := ((t.at? place).map (·.content)).getD .absent
    writable := t.isDirectoryAt place.dropLast }

/-- Puts the content of a slot back. -/
def setSlot (t : Tree) (place : Place) (slot : Slot) : Tree :=
  if slot.content == .absent then t
  else t.set place ⟨slot.content, ((t.at? place).map (·.executable)).getD false⟩

/-- Replaces a file by a text. -/
def write (t : Tree) (path s : String) : Except FileFault Tree := do
  let place ← t.locate path
  if !t.isDirectoryAt place.dropLast then .error .notFound
  else return t.setSlot place (← (t.slot place).write s)

/-- Takes away a place with all that is below it. -/
def remove (t : Tree) (place : Place) : Tree :=
  { t with nodes := t.nodes.filter fun (p, _) => !place.isPrefixOf p }

/-- Takes away a directory with all that is below it; anything else stays. -/
def removeDirectory (t : Tree) (path : String) : Tree :=
  match t.locate path with
  | .ok place => if t.isDirectoryAt place && !place.isEmpty then t.remove place else t
  | .error _ => t

/-- The names in a directory, sorted. -/
def names (t : Tree) (place : Place) : List String :=
  let children := t.nodes.filterMap fun (p, _) =>
    if p.length == place.length + 1 && place.isPrefixOf p then p.getLast? else none
  children.mergeSort (fun a b => !(b < a))

/-- Adds a file with its directories. -/
def addFile (t : Tree) (place : Place) (node : Node) : Tree :=
  let t := match t.makeDirectories place.dropLast with
    | .ok t => t
    | .error _ => t
  t.set place node

/-- A tree with an empty working directory. -/
def ofDirectory (path : String) : Tree :=
  let place := (segments path).filter (· != "")
  (makeDirectories { nodes := [], here := place } place).toOption.getD { nodes := [], here := [] }

/-- Adds a file with its directories; without octets, a directory. -/
def addPath (t : Tree) (path : String) : Option (List Nat) → Tree
  | some octets => t.addFile (t.placeOf path) (.ofOctets octets)
  | none => (t.makeDirectories (t.placeOf path)).toOption.getD t

end Tree

end PageAudit.Files
