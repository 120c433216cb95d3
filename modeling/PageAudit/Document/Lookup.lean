import PageAudit.Document.Record

/-!
# Looking values up

Lenient reading: what is missing or of another kind counts as absent, and an absent value as empty.
-/

namespace PageAudit.Document.Lookup

/-- The value of an entry. -/
def get? (d : Data) (key : String) : Option Data :=
  match d with
  | .map es => es.lookup key
  | _ => none

/-- The value of an entry that is a map, empty if it is absent. -/
def part (d : Data) (key : String) : Data := (get? d key).getD (.map [])

/-- An entry is there and not null. -/
def isSet (d : Data) (key : String) : Bool :=
  match get? d key with
  | some .null | none => false
  | some _ => true

/-- A text, if there is one. -/
def text? (d : Data) (key : String) : Option String := (get? d key) >>= Data.str?

/-- A text, or the given one. -/
def textD (d : Data) (key absent : String) : String := (text? d key).getD absent

/-- A text, empty if it is absent. -/
def text (d : Data) (key : String) : String := textD d key ""

/-- A number, if there is one. -/
def num? (d : Data) (key : String) : Option Nat := (get? d key) >>= Data.word? 64

/-- A number, or the given one. -/
def numD (d : Data) (key : String) (absent : Nat) : Nat := (num? d key).getD absent

/-- A number, 0 if it is absent. -/
def num (d : Data) (key : String) : Nat := numD d key 0

/-- A truth value, false if it is absent. -/
def flag (d : Data) (key : String) : Bool := ((get? d key) >>= Data.bool?).getD false

/-- A double, 0 if it is absent. -/
def real (d : Data) (key : String) : Float := ((get? d key) >>= Data.real?).getD 0.0

/-- The items of a list. -/
def items : Data → List Data
  | .list ds => ds
  | _ => []

/-- The entries of a map. -/
def entries : Data → List (String × Data)
  | .map es => es
  | _ => []

/-- The items of a list, none if it is absent. -/
def list (d : Data) (key : String) : List Data := ((get? d key).map items).getD []

/-- The texts of a list. -/
def texts (d : Data) (key : String) : List String := (list d key).filterMap Data.str?

/-- The numbers of a list. -/
def nums (d : Data) (key : String) : List Nat := (list d key).filterMap (Data.word? 64)

end PageAudit.Document.Lookup
