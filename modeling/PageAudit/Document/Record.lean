import PageAudit.Document.Data
import PageAudit.Decimal.Numeral

/-!
# Records in documents

A record is written as a map from field names or as a list of its fields in order. Unknown names are passed
over, a field given twice is refused. Reading fails as a whole; `none` stands for any fault.
-/

namespace PageAudit.Document

open PageAudit.Decimal

/-- What the notation does with a list that is longer than its record. -/
inductive Surplus where
  | refused
  | ignored
  deriving DecidableEq, Repr

/-- The fields of a record as they are given: by name, or the first ones in order. -/
inductive Record where
  | byName (entries : List (String × Data))
  | byOrder (names : List String) (items : List Data)

/-- A value as a record with the fields `names`. -/
def Data.record? (names : List String) (surplus : Surplus) : Data → Option Record
  | .map entries =>
    let given := (entries.map Prod.fst).filter names.contains
    if given.eraseDups.length == given.length then some (.byName entries) else none
  | .list items =>
    if surplus == .refused && names.length < items.length then none else some (.byOrder names items)
  | _ => none

/-- The value given for a field. -/
def Record.find? (r : Record) (name : String) : Option Data :=
  match r with
  | .byName entries => entries.lookup name
  | .byOrder names items => (names.zip items).lookup name

/-- A field that has to be given. -/
def Record.field? {α : Type} (r : Record) (name : String) (read : Data → Option α) : Option α :=
  r.find? name >>= read

/-- A field with a default for when it is not given. -/
def Record.fieldD {α : Type} (r : Record) (name : String) (read : Data → Option α) (absent : α) : Option α :=
  match r.find? name with
  | some d => read d
  | none => some absent

/-- Null as none, any other value as read. -/
def Data.optional? {α : Type} (read : Data → Option α) : Data → Option (Option α)
  | .null => some none
  | d => (read d).map some

/-- An optional field: a map may leave it out, a list may not. -/
def Record.optional? {α : Type} (r : Record) (name : String) (read : Data → Option α) : Option (Option α) :=
  match r.find? name, r with
  | some d, _ => d.optional? read
  | none, .byName _ => some none
  | none, .byOrder .. => none

/-- A text. -/
def Data.str? : Data → Option String
  | .str s => some s
  | _ => none

/-- A truth value. -/
def Data.bool? : Data → Option Bool
  | .bool b => some b
  | _ => none

/-- An unsigned word with `bits` bits. -/
def Data.word? (bits : Nat) : Data → Option Nat
  | .int i => if 0 ≤ i && i ≤ wordMax bits then some i.toNat else none
  | _ => none

/-- A real number. Whole numbers of 64 bits are real too. -/
def Data.real? : Data → Option Float
  | .float x => some x
  | .int i =>
    if 0 ≤ i && i ≤ wordMax 64 then some (ofWord i.toNat)
    else if -Int.ofNat (Nat.pow 2 63) ≤ i && i < 0 then some (-ofWord i.natAbs)
    else none
  | _ => none

/-- The items of a list, each read. -/
def Data.list? {α : Type} (read : Data → Option α) : Data → Option (List α)
  | .list items => items.mapM read
  | _ => none

/-- One of several names: the name, or a map from it alone to null. -/
def Data.choice? {α : Type} (choices : List (String × α)) : Data → Option α
  | .str s => choices.lookup s
  | .map [(s, .null)] => choices.lookup s
  | _ => none

/-- Inserts into entries sorted by key; a later value replaces an earlier one of the same key. -/
def insertSorted {α : Type} (key : String) (value : α) : List (String × α) → List (String × α)
  | [] => [(key, value)]
  | (k, v) :: rest =>
    if key < k then (key, value) :: (k, v) :: rest
    else if key == k then (key, value) :: rest
    else (k, v) :: insertSorted key value rest

/-- The entries of a map, each read, sorted by key with the last value of every key. -/
def Data.sortedMap? {α : Type} (read : Data → Option α) : Data → Option (List (String × α))
  | .map entries =>
    entries.foldlM (fun sorted (k, d) => (read d).map fun v => insertSorted k v sorted) []
  | _ => none

/-- The deepest nesting of a value that is read before its shape is known. -/
def depthLimit : Nat := 127

/-- A value whose shape depends on the name under `tag`: that name and the other fields, which have to be
readable in full. In a list the tag comes first. -/
def Data.tagged? (tag : String) (outer : Nat) (d : Data) : Option (Data × Data) :=
  if depthLimit < outer + d.depth || !d.readable then none
  else
    match d with
    | .map entries =>
      match (entries.filter (·.1 == tag)).map Prod.snd with
      | [name] => some (name, .map (entries.filter (·.1 != tag)))
      | _ => none
    | .list (name :: rest) => some (name, .list rest)
    | _ => none

end PageAudit.Document
