import PageAudit.Attempt.Error
import PageAudit.Document.Lookup
import PageAudit.Retry

/-!
# Progress events

What a run tells about its jobs and its concurrency while it goes on.
-/

namespace PageAudit

open Document Document.Lookup

/-- An event of a run. -/
inductive ProgressEvent where
  | queued (jobId url : String)
  | started (jobId : String) (attempt slotId : Nat)
  | retried (jobId : String) (attempt delayMs : Nat) (classification : Classification) (error : String)
  | succeeded (jobId : String) (attempts durationMs : Nat)
  | failedPermanent (jobId : String) (attempts : Nat) (kind : ErrorKind) (reason : FinalizeReason)
      (message : String)
  | cancelled (jobId : String) (attempts : Nat)
  | concurrencyChanged (before after : Nat) (reason : String)
  deriving DecidableEq, Repr

namespace ProgressEvent

/-- The job that an event is about. -/
def jobId? : ProgressEvent → Option String
  | .queued jobId _ | .started jobId .. | .retried jobId .. | .succeeded jobId .. | .failedPermanent jobId ..
  | .cancelled jobId _ => some jobId
  | .concurrencyChanged .. => none

/-- An event that ends a job. -/
def isTerminal : ProgressEvent → Bool
  | .succeeded .. | .failedPermanent .. | .cancelled .. => true
  | _ => false

/-- An event in a document: a map that names its case first. -/
def data : ProgressEvent → Data
  | .queued jobId url => .map [("type", .str "queued"), ("job_id", .str jobId), ("url", .str url)]
  | .started jobId attempt slotId =>
    .map [("type", .str "started"), ("job_id", .str jobId), ("attempt", .nat attempt), ("slot_id", .nat slotId)]
  | .retried jobId attempt delayMs classification error =>
    .map [("type", .str "retried"), ("job_id", .str jobId), ("attempt", .nat attempt),
      ("delay_ms", .nat delayMs), ("classification", .str classification.name), ("error", .str error)]
  | .succeeded jobId attempts durationMs =>
    .map [("type", .str "succeeded"), ("job_id", .str jobId), ("attempts", .nat attempts),
      ("duration_ms", .nat durationMs)]
  | .failedPermanent jobId attempts kind reason message =>
    .map [("type", .str "failed_permanent"), ("job_id", .str jobId), ("attempts", .nat attempts),
      ("error_kind", .str kind.name), ("reason", .str reason.name), ("message", .str message)]
  | .cancelled jobId attempts =>
    .map [("type", .str "cancelled"), ("job_id", .str jobId), ("attempts", .nat attempts)]
  | .concurrencyChanged before after reason =>
    .map [("type", .str "concurrency_changed"), ("from", .nat before), ("to", .nat after), ("reason", .str reason)]

/-- Reads an event. -/
def ofData? (d : Data) : Option ProgressEvent :=
  let id := text d "job_id"
  match text d "type" with
  | "queued" => some (.queued id (text d "url"))
  | "started" => some (.started id (num d "attempt") (num d "slot_id"))
  | "retried" => do
    let classification ← Classification.all.find? fun c => c.name == text d "classification"
    return .retried id (num d "attempt") (num d "delay_ms") classification (text d "error")
  | "succeeded" => some (.succeeded id (num d "attempts") (num d "duration_ms"))
  | "failed_permanent" => do
    let kind ← ErrorKind.all.find? fun k => k.name == text d "error_kind"
    let reason ← FinalizeReason.all.find? fun r => r.name == text d "reason"
    return .failedPermanent id (num d "attempts") kind reason (text d "message")
  | "cancelled" => some (.cancelled id (num d "attempts"))
  | "concurrency_changed" => some (.concurrencyChanged (num d "from") (num d "to") (text d "reason"))
  | _ => none

end ProgressEvent

end PageAudit
