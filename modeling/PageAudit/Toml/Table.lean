import PageAudit.Toml.Reader

/-!
# TOML tables

Lines build a tree of tables. A table is opened once: by its heading, or piece by piece through dotted keys
of one table. A table that headings only pass through can still be opened.
-/

namespace PageAudit.Toml

open PageAudit.Document

/-- How a table came about. -/
inductive Origin where
  /-- By its own heading. -/
  | opened
  /-- On the way of a heading. -/
  | passed
  /-- On the way of a dotted key. -/
  | dotted
  deriving DecidableEq, Repr

/-- A name's content. -/
inductive Node where
  | value (d : Data)
  | table (origin : Origin) (entries : List (String × Node))
  /-- Tables in a list, the last one first. -/
  | tables (tables : List (List (String × Node)))

/-- The entries of a table. -/
abbrev Entries := List (String × Node)

/-- Puts a node under a name, in the place the name already has. -/
def Entries.set (name : String) (node : Node) : Entries → Entries
  | [] => [(name, node)]
  | (k, v) :: rest => if k == name then (k, node) :: rest else (k, v) :: Entries.set name node rest

/-- Changes the table at the end of a path. Tables missing on the way are made with the given origin. Through
dotted keys only tables without a heading of their own are reached; a list of tables stands for its last. -/
def descend (origin : Origin) (change : Option Origin → Entries → Option Entries) :
    List String → Option Origin → Entries → Option Entries
  | [], reached, es => change reached es
  | name :: path, _, es =>
    match es.lookup name with
    | none => (descend origin change path (some origin) []).map fun inner =>
        Entries.set name (.table origin inner) es
    | some (.table o inner) =>
      if origin == .dotted && o == .opened then none
      else (descend origin change path (some o) inner).map fun inner => Entries.set name (.table o inner) es
    | some (.tables (last :: before)) =>
      (descend origin change path (some .opened) last).map fun last =>
        Entries.set name (.tables (last :: before)) es
    | some _ => none

/-- Adds a value under a new name. The table a dotted key ends in must have been made by dotted keys. -/
def addValue (name : String) (d : Data) (reached : Option Origin) (es : Entries) : Option Entries :=
  if reached.isSome && reached != some .dotted then none
  else if (es.lookup name).isSome then none
  else some (Entries.set name (.value d) es)

/-- Opens the table of a heading. -/
def openTable (name : String) (_ : Option Origin) (es : Entries) : Option Entries :=
  match es.lookup name with
  | none => some (Entries.set name (.table .opened []) es)
  | some (.table .passed inner) => some (Entries.set name (.table .opened inner) es)
  | some _ => none

/-- Adds a table to a list of tables. -/
def openItem (name : String) (_ : Option Origin) (es : Entries) : Option Entries :=
  match es.lookup name with
  | none => some (Entries.set name (.tables [[]]) es)
  | some (.tables ts) => some (Entries.set name (.tables ([] :: ts)) es)
  | some _ => none

/-- A tree under construction, with the path of the table that entries go to. -/
structure Building where
  root : Entries
  current : List String

/-- The path up to the last part, and the last part. -/
def splitLast (path : List String) : Option (List String × String) :=
  path.getLast?.map fun last => (path.dropLast, last)

/-- Follows the current heading to its table, then a dotted key within it. -/
def addEntry (b : Building) (e : Entry) : Option Entries :=
  splitLast e.path >>= fun (path, name) =>
    descend .passed (fun _ es => descend .dotted (addValue name e.value) path none es) b.current none b.root

/-- One line. -/
def Building.step (b : Building) : Line → Option Building
  | .heading path => do
    let (front, name) ← splitLast path
    return ⟨← descend .passed (openTable name) front none b.root, path⟩
  | .itemHeading path => do
    let (front, name) ← splitLast path
    return ⟨← descend .passed (openItem name) front none b.root, path⟩
  | .entry e => (addEntry b e).map fun root => { b with root }

mutual
/-- The value of a node. -/
def Node.data : Node → Data
  | .value d => d
  | .table _ es => .map (entriesData es)
  | .tables ts => .list (tablesData ts).reverse

/-- The values of entries. -/
def entriesData : List (String × Node) → List (String × Data)
  | [] => []
  | (k, v) :: rest => (k, v.data) :: entriesData rest

/-- The values of tables. -/
def tablesData : List (List (String × Node)) → List Data
  | [] => []
  | t :: rest => .map (entriesData t) :: tablesData rest
end

/-- Reads a text as a TOML document. -/
def read? (s : String) : Option Data := do
  let lines ← lines? s
  let b ← lines.foldlM Building.step ⟨[], []⟩
  return .map (entriesData b.root)

end PageAudit.Toml
