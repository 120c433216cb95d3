import PageAudit.Document.Record
import PageAudit.Files.Tree
import PageAudit.Job.Basic
import PageAudit.Log.Line
import PageAudit.Text.Basic
import PageAudit.Toml.Table

/-!
# Plans

A plan lists the pages to audit. Every entry becomes a job with an identifier of its own; the first entry
that cannot is reported. A run accepts a list of jobs when they are fresh, distinct and in their places.
-/

namespace PageAudit

open Document Files Text

/-- An entry of a plan. -/
structure PlanEntry where
  /-- The identifier; a blank one counts as none. -/
  id : Option String := none
  url : String
  deriving DecidableEq, Repr

/-- What is wrong with one job of a plan. -/
inductive EntryFault where
  | emptyUrl
  | wrongPlace (planIndex : Nat)
  | wrongState (state : JobState)
  deriving DecidableEq, Repr

/-- The reason in words. -/
def EntryFault.message : EntryFault → String
  | .emptyUrl => "url 为空"
  | .wrongPlace planIndex => s!"计划序号 {planIndex} 与位置不一致"
  | .wrongState state => s!"任务状态为 {state.name}，只能提交排队中的任务"

/-- Why a plan is refused. Jobs are numbered from 1. -/
inductive PlanError where
  | duplicateJobId (jobId : String)
  | invalidEntry (number : Nat) (fault : EntryFault)
  deriving DecidableEq, Repr

/-- The sentence for a refused plan. -/
def PlanError.message : PlanError → String
  | .duplicateJobId jobId => s!"任务 ID 重复: {jobId}"
  | .invalidEntry number fault => s!"第 {number} 个任务非法: {fault.message}"

/-- The identifier of the entry at a position: its own, or its number. -/
def PlanEntry.jobId (e : PlanEntry) (index : Nat) : String :=
  match e.id with
  | some id => if isBlankText id then s!"job-{index + 1}" else id
  | none => s!"job-{index + 1}"

/-- The jobs of the entries from position `index` on; `seen` are the identifiers before it. -/
def jobsFrom (seen : List String) (index : Nat) : List PlanEntry → Except PlanError (List Job)
  | [] => .ok []
  | e :: rest => do
    let url := trim e.url
    let id := e.jobId index
    if url.isEmpty then .error (.invalidEntry (index + 1) .emptyUrl)
    else if seen.contains id then .error (.duplicateJobId id)
    else
      let jobs ← jobsFrom (id :: seen) (index + 1) rest
      return { id, url, planIndex := index } :: jobs

/-- The jobs of a plan. -/
def jobsOfPlan (entries : List PlanEntry) : Except PlanError (List Job) :=
  jobsFrom [] 0 entries

/-- Looks at the jobs from position `index` on. -/
def validateFrom (seen : List String) (index : Nat) : List Job → Except PlanError Unit
  | [] => .ok ()
  | j :: rest =>
    if seen.contains j.id then .error (.duplicateJobId j.id)
    else if j.planIndex != index then .error (.invalidEntry (index + 1) (.wrongPlace j.planIndex))
    else if j.state != .queued then .error (.invalidEntry (index + 1) (.wrongState j.state))
    else validateFrom (j.id :: seen) (index + 1) rest

/-- Refuses jobs that are not distinct, fresh and in their places. -/
def validatePlan (jobs : List Job) : Except PlanError Unit :=
  validateFrom [] 0 jobs

/-- Reads an entry. -/
def PlanEntry.ofData? (d : Data) : Option PlanEntry := do
  let r ← d.record? ["id", "url"] .ignored
  return { id := ← r.optional? "id" Data.str?, url := ← r.field? "url" Data.str? }

/-- Reads the text of a plan. -/
def readPlan? (s : String) : Option (List PlanEntry) := do
  let r ← (← Toml.read? s).record? ["jobs"] .ignored
  r.fieldD "jobs" (Data.list? PlanEntry.ofData?) []

/-- Why a plan file gives no jobs. -/
inductive PlanFileError where
  | unreadable (path : String)
  | malformed (path : String)
  | refused (e : PlanError)
  deriving DecidableEq, Repr

/-- The sentence for a plan file that gives no jobs. -/
def PlanFileError.message : PlanFileError → String
  | .unreadable path => s!"无法读取任务计划: {path}"
  | .malformed path => s!"无法解析任务计划: {path}"
  | .refused e => e.message

/-- The jobs of a plan file. -/
def loadPlan (files : Tree) (path : String) : Except PlanFileError (List Job) :=
  match files.read path with
  | .error _ => .error (.unreadable path)
  | .ok s =>
    match readPlan? s with
    | none => .error (.malformed path)
    | some entries =>
      match jobsOfPlan entries with
      | .ok jobs => .ok jobs
      | .error e => .error (.refused e)

/-- The line for a plan that was loaded. -/
def planLoadedLine (path : String) (jobs : List Job) : LogLine :=
  ⟨.info, s!"✓ 已加载任务计划 {path}，共 {jobs.length} 个任务"⟩

end PageAudit
