/-!
# Document values

The values a structured document holds, whatever notation it is written in. A map keeps its entries in the
order of the document, repeated keys included.
-/

namespace PageAudit.Document

/-- A value of a document. -/
inductive Data where
  | null
  | bool (b : Bool)
  | int (i : Int)
  | float (x : Float)
  | str (s : String)
  | list (items : List Data)
  | map (entries : List (String × Data))
  /-- Well-formed text without a value: a number beyond the greatest double, or half a surrogate pair. It may
  stand where nobody reads it. -/
  | unreadable

mutual
/-- How deeply lists and maps are nested. -/
def Data.depth : Data → Nat
  | .list items => depthItems items + 1
  | .map entries => depthEntries entries + 1
  | _ => 0

/-- The greatest depth of some items. -/
def depthItems : List Data → Nat
  | [] => 0
  | d :: ds => max d.depth (depthItems ds)

/-- The greatest depth of the values of some entries. -/
def depthEntries : List (String × Data) → Nat
  | [] => 0
  | (_, d) :: es => max d.depth (depthEntries es)
end

mutual
/-- A value that can be read in full. -/
def Data.readable : Data → Bool
  | .list items => readableItems items
  | .map entries => readableEntries entries
  | .unreadable => false
  | _ => true

/-- Items that can be read in full. -/
def readableItems : List Data → Bool
  | [] => true
  | d :: ds => d.readable && readableItems ds

/-- Entries that can be read in full. -/
def readableEntries : List (String × Data) → Bool
  | [] => true
  | (_, d) :: es => d.readable && readableEntries es
end

/-- A natural number as a value. -/
def Data.nat (n : Nat) : Data := .int n

/-- A value, or null for none. -/
def Data.ofOption {α : Type} (f : α → Data) : Option α → Data
  | some a => f a
  | none => .null

end PageAudit.Document
