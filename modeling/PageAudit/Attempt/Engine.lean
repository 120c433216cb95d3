import PageAudit.Job.Result

/-!
# Engines

What audits a page with the help of a browser. An engine is given by what it will do: how long every audit
takes and how it ends. Times are in milliseconds.
-/

namespace PageAudit

/-- How an audit ends. -/
inductive AuditEnding where
  | scored (metrics : Metrics)
  | failed (e : AuditError)
  /-- The engine breaks down. -/
  | broken (message : String)

/-- An audit: how long it takes and how it ends. -/
structure Audit where
  delay : Nat := 0
  ending : AuditEnding

/-- The behaviour of an engine. -/
structure Engine where
  /-- The audit of a page after a number of earlier audits of it. -/
  audit : String → Nat → Audit
  /-- An audit can be broken off before its end. -/
  supportsEarlyTermination : Bool := false

/-- An audit that an engine was asked for. -/
structure AuditCall where
  time : Nat
  url : String
  endpoint : String
  deriving DecidableEq, Repr

/-- A call in a document. -/
def AuditCall.data (c : AuditCall) : Document.Data :=
  .list [.nat c.time, .str c.url, .str c.endpoint]

end PageAudit
