import PageAudit.Attempt.Error
import PageAudit.Decimal.Numeral
import PageAudit.Document.Data
import PageAudit.Job.Basic

/-!
# Retries

What follows a failed attempt. A fatal failure is final at once, any other until the attempts are used up.
The delay before the next attempt doubles with every attempt, up to a limit, and has a random part.
-/

namespace PageAudit

open Decimal

/-- Whether a failure may be tried again. -/
inductive Classification where
  | transient
  | fatal
  deriving DecidableEq, Repr

/-- The name of a classification. -/
def Classification.name : Classification → String
  | .transient => "transient"
  | .fatal => "fatal"

/-- Both classifications. -/
def Classification.all : List Classification := [.transient, .fatal]

/-- Only fatal errors are not tried again; exhausted resources are. -/
def AttemptError.classify (e : AttemptError) : Classification :=
  match e.kind with
  | .fatal => .fatal
  | .transient | .resource | .supervisor | .cancellation => .transient

/-- How often an attempt is repeated and how long it waits, in milliseconds. -/
structure RetryPolicy where
  maxAttempts : Nat := 3
  backoffBaseMs : Nat := 1000
  /-- The greatest random addition to a delay. -/
  backoffJitterMs : Nat := 250
  /-- Which failures may be tried again; it is no part of a document. -/
  classifier : AttemptError → Classification := AttemptError.classify

/-- Why a job failed for good. -/
inductive FinalizeReason where
  | fatal
  | retriesExhausted
  deriving DecidableEq, Repr

/-- The name of a reason. -/
def FinalizeReason.name : FinalizeReason → String
  | .fatal => "fatal"
  | .retriesExhausted => "retries_exhausted"

/-- Both reasons. -/
def FinalizeReason.all : List FinalizeReason := [.fatal, .retriesExhausted]

/-- What follows a failed attempt. -/
inductive RetryDecision where
  | requeue (delayMs : Nat) (classification : Classification)
  | finalize (reason : FinalizeReason)
  deriving DecidableEq, Repr

/-- The greatest number of doublings. -/
def maxDoublings : Nat := 20

/-- A delay as it is told: the lowest 64 bits of it. -/
def delayWord (delayMs : Nat) : Nat :=
  delayMs % (wordMax 64 + 1)

namespace RetryPolicy

/-- The delay after attempt `attempt` without its random part; it stays within a 64-bit word. -/
def baseDelay (p : RetryPolicy) (attempt : Nat) : Nat :=
  min (p.backoffBaseMs * Nat.pow 2 (min (attempt - 1) maxDoublings)) (wordMax 64)

/-- The delay after attempt `attempt`; `draw` is any random number. -/
def delay (p : RetryPolicy) (attempt draw : Nat) : Nat :=
  p.baseDelay attempt + draw % (p.backoffJitterMs + 1)

/-- Decides about a job whose last attempt failed. -/
def decide (p : RetryPolicy) (attempt draw : Nat) (e : AttemptError) : RetryDecision :=
  match p.classifier e with
  | .fatal => .finalize .fatal
  | .transient =>
    if p.maxAttempts ≤ attempt then .finalize .retriesExhausted
    else .requeue (p.delay attempt draw) .transient

end RetryPolicy

end PageAudit
