import PageAudit.Attempt.Error
import PageAudit.Text.Basic
import PageAudit.Text.Lines

/-!
# The start of a browser

A browser reports its endpoint in a line of its error stream. A stream that ends before is a failed start, and
so is a stream that stays silent until the time limit.
-/

namespace PageAudit

open Text

/-- What a browser writes on its error stream until the time limit. -/
structure ErrorStream where
  octets : List Nat
  /-- The stream has ended; otherwise the browser still runs. -/
  ended : Bool
  deriving Repr

/-- The octets up to the last line feed. -/
def completeLines (octets : List Nat) : List Nat :=
  (octets.reverse.dropWhile (· != 0x0A)).reverse

/-- The lines that can be read. Of a stream that goes on, the last line is not there yet. -/
def ErrorStream.reading (s : ErrorStream) : LineReading :=
  readLines (if s.ended then s.octets else completeLines s.octets)

/-- The beginning of an endpoint. -/
def endpointScheme : String := "ws://"

/-- The words before an endpoint. -/
def endpointMark : String := "DevTools listening on "

/-- The endpoint that a line reports: an address without blanks. -/
def endpointOfLine? (line : String) : Option String :=
  let named (rest : List Char) : Bool := (rest.head?).any fun c => !isBlank c
  (afterMark? (endpointMark ++ endpointScheme).toList named line.toList).map fun rest =>
    endpointScheme ++ String.ofList (rest.takeWhile fun c => !isBlank c)

/-- The number of lines that are kept of a failed start. -/
def startupTailLines : Nat := 8

/-- The lines that are kept of a failed start. The fault that ended the reading is one more line. -/
def startupTail (r : LineReading) : String :=
  let kept := lastEntries startupTailLines r.lines
  " | ".intercalate (kept ++ (r.fault.map Utf8Fault.message).toList)

/-- The cause of a start that ended without an endpoint. -/
def startupFailure (tail : String) : LaunchError :=
  if containsText "Address already in use" tail || containsText "bind() failed" tail then .portInUse tail
  else .endpointNotReported tail

/-- The endpoint that is reported within a time limit. -/
def ErrorStream.endpoint (s : ErrorStream) (limit : Nat) : Except LaunchError String :=
  match s.reading.lines.findSome? endpointOfLine? with
  | some endpoint => .ok endpoint
  | none =>
    if s.ended || s.reading.fault.isSome then .error (startupFailure (startupTail s.reading))
    else .error (.startupTimeout limit)

end PageAudit
