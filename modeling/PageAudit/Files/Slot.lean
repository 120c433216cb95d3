import PageAudit.Text.Utf8

/-!
# A place for a file

What stands at one path, and what reading and writing it does.
-/

namespace PageAudit.Files

open Text

/-- What stands at a path. -/
inductive Content where
  | absent
  | text (s : String)
  /-- A file that is not UTF-8. -/
  | binary (octets : List Nat)
  | directory
  deriving DecidableEq, Repr

/-- Why a file cannot be read or written. -/
inductive FileFault where
  | notFound
  | notDirectory
  | isDirectory
  | denied
  | notText
  deriving DecidableEq, Repr

/-- The system's sentence for a fault. -/
def FileFault.message : FileFault → String
  | .notFound => "No such file or directory (os error 2)"
  | .notDirectory => "Not a directory (os error 20)"
  | .isDirectory => "Is a directory (os error 21)"
  | .denied => "Permission denied (os error 13)"
  | .notText => "stream did not contain valid UTF-8"

/-- A path with what stands there. -/
structure Slot where
  content : Content := .absent
  /-- The place may be written. -/
  writable : Bool := true
  deriving DecidableEq, Repr

/-- The content of a file with the given octets. -/
def Content.ofOctets (octets : List Nat) : Content :=
  match decodeUtf8? octets with
  | some s => .text s
  | none => .binary octets

/-- A text as octets. -/
def utf8Octets (s : String) : List Nat :=
  s.toUTF8.toList.map UInt8.toNat

/-- The text of a file. -/
def Content.read : Content → Except FileFault String
  | .absent => .error .notFound
  | .text s => .ok s
  | .binary _ => .error .notText
  | .directory => .error .isDirectory

/-- The text of a file as far as it can be shown; none if there is no file. -/
def Content.shown? : Content → Option String
  | .text s => some s
  | .binary octets => some (decodeUtf8Lossy octets)
  | .absent | .directory => none

namespace Slot

/-- Replaces the file by a text. -/
def write (slot : Slot) (s : String) : Except FileFault Slot :=
  if slot.content == .directory then .error .isDirectory
  else if slot.writable then .ok { slot with content := .text s }
  else .error .denied

/-- Adds a text at the end, in a new file if there is none. -/
def append (slot : Slot) (s : String) : Except FileFault Slot :=
  if !slot.writable then .error (if slot.content == .directory then .isDirectory else .denied)
  else
    match slot.content with
    | .absent => .ok { slot with content := .text s }
    | .text old => .ok { slot with content := .text (old ++ s) }
    | .binary octets => .ok { slot with content := .ofOctets (octets ++ utf8Octets s) }
    | .directory => .error .isDirectory

end Slot

end PageAudit.Files
