import ConfigBackup.GuardedRuns
import ConfigBackup.Repository

/-!
The life of backup runs. Executions of the pipeline, cancellations and the
reconciler of stale runs take their transactions in any order. An execution
that `mark_running` rejected, or that could not read its context, still holds
an exception, and the handler of the pipeline writes a failure for it.
-/

namespace ConfigBackup.RunLifecycle

open Calendar GuardedRuns Models Repository Tables

/-- Where an execution stands between its transactions. -/
inductive Phase
  | collecting
  | failing (failure : RunFailure)
  | rejected
  | unreadable
deriving DecidableEq, Repr

/-- `mark_running` returned for this execution. -/
def Phase.passed : Phase → Bool
  | .collecting | .failing _ => true
  | .rejected | .unreadable => false

structure Execution where
  pk : ℕ
  run : ℕ
  phase : Phase
deriving DecidableEq, Repr

structure State where
  db : Database
  executions : Table Execution Execution.pk
  candidates : List ℕ

/-- What a cancellation finds out about the run's Core Job. -/
inductive JobEvidence
  | absent | removable | running | undeletable
deriving DecidableEq, Repr

inductive Label
  | enqueue (targetId : ℕ) (queuedAt : Instant) (jobId : Option ℕ)
  | cancel (runId : ℕ) (job : JobEvidence) (now : Instant)
  | start (runId : ℕ) (contextReadable : Bool) (startedAt : Instant)
  | raise (executionId : ℕ) (expected : Option (String × String))
  | commitUnchanged (executionId : ℕ) (latest : Option ConfigRevision) (rawChanged : Bool)
      (finishedAt : Instant)
  | commitRevision (executionId : ℕ) (previous : Option ConfigRevision) (commit : RevisionCommit)
  | markFailed (executionId : ℕ) (finishedAt : Instant)
  | die (executionId : ℕ)
  | reconcileQuery (now : Instant) (staleAfterMinutes : ℕ)
  | reconcileSkip (runId : ℕ)
  | reconcileMark (runId : ℕ) (now : Instant)

def newRun (targetId : ℕ) (queuedAt : Instant) (jobId : Option ℕ) (pk : ℕ) : BackupRun where
  pk := pk
  target := targetId
  queuedAt := queuedAt
  startedAt := none
  finishedAt := none
  status := .queued
  errorCode := ""
  errorMessage := ""
  revision := none
  changed := false
  rawChanged := false
  jobId := jobId

@[simp] theorem newRun_pk (targetId : ℕ) (queuedAt : Instant) (jobId : Option ℕ) (pk : ℕ) :
    (newRun targetId queuedAt jobId pk).pk = pk := rfl

/-- The unique constraint refuses a second active run of the target. -/
def enqueueBackupRun (db : Database) (targetId : ℕ) (queuedAt : Instant) (jobId : Option ℕ) :
    Option Database :=
  if db.hasActiveRun targetId then none
  else some { db with runs := db.runs.insert (newRun targetId queuedAt jobId) (newRun_pk _ _ _) }

def cancelQueuedBackupRun (db : Database) (runId : ℕ) (job : JobEvidence) (now : Instant) :
    Option Database := do
  let run ← db.runs.get? runId
  if run.status ≠ .queued then none
  else if job = .running ∨ job = .undeletable then none
  else some (saveRun db runId (fun r =>
    { r with
      status := .skipped, finishedAt := some now, errorCode := "CANCELLED"
      errorMessage := "Queued backup was cancelled before execution." }) (fun _ => rfl))

/-- `stuck_run_query`. -/
def stuckRun (now : Instant) (timeoutMinutes : ℕ) (run : BackupRun) : Bool :=
  let cutoff := now - minutes timeoutMinutes
  (run.status == .queued && decide (run.queuedAt ≤ cutoff)) ||
    (run.status == .running &&
      (match run.startedAt with
        | some startedAt => decide (startedAt ≤ cutoff)
        | none => decide (run.queuedAt ≤ cutoff)))

def internalError : RunFailure :=
  ⟨.errored, "INTERNAL_ERROR", "Unexpected internal backup error."⟩

def staleRun : RunFailure :=
  ⟨.errored, "STALE_RUN", "Backup job ended without completing its run record."⟩

/-- An expected error carries its code and message, any other one is internal. -/
def raisedFailure : Option (String × String) → RunFailure
  | some (errorCode, errorMessage) => ⟨.failed, errorCode, errorMessage⟩
  | none => internalError

/-- The failure that the pipeline's exception handler records. -/
def Phase.failure : Phase → Option RunFailure
  | .collecting => none
  | .failing failure => some failure
  | .rejected | .unreadable => some internalError

def addExecution (s : State) (db : Database) (runId : ℕ) (phase : Phase) : State :=
  { s with
    db := db, executions := s.executions.insert (fun pk => ⟨pk, runId, phase⟩) (fun _ => rfl) }

def endExecution (s : State) (db : Database) (executionId : ℕ) : State :=
  { s with db := db, executions := s.executions.filter (fun e => e.pk != executionId) }

def step (scheduler : Scheduler) (s : State) : Label → Option State
  | .enqueue targetId queuedAt jobId => do
    let db ← enqueueBackupRun s.db targetId queuedAt jobId
    some { s with db := db }
  | .cancel runId job now => do
    let db ← cancelQueuedBackupRun s.db runId job now
    some { s with db := db }
  | .start runId contextReadable startedAt =>
    if !contextReadable then some (addExecution s s.db runId .unreadable)
    else
      match markRunning s.db runId startedAt with
      | some db => some (addExecution s db runId .collecting)
      | none => some (addExecution s s.db runId .rejected)
  | .raise executionId expected => do
    let execution ← s.executions.get? executionId
    if execution.phase ≠ .collecting then none
    else some { s with
      executions := s.executions.update executionId
        (fun e => { e with phase := .failing (raisedFailure expected) }) (fun _ => rfl) }
  | .commitUnchanged executionId latest rawChanged finishedAt => do
    let execution ← s.executions.get? executionId
    let run ← s.db.runs.get? execution.run
    if execution.phase ≠ .collecting ∨ isLatest s.db run.target latest = false then none
    else
      let db ← commitUnchanged scheduler s.db execution.run latest rawChanged finishedAt
      some (endExecution s db executionId)
  | .commitRevision executionId previous commit => do
    let execution ← s.executions.get? executionId
    let run ← s.db.runs.get? execution.run
    if execution.phase ≠ .collecting ∨ isLatest s.db run.target previous = false then none
    else
      let db ← commitRevision scheduler s.db execution.run previous commit
      some (endExecution s db executionId)
  | .markFailed executionId finishedAt => do
    let execution ← s.executions.get? executionId
    let failure ← execution.phase.failure
    let db ← markFailed scheduler s.db execution.run failure finishedAt
    some (endExecution s db executionId)
  | .die executionId => some (endExecution s s.db executionId)
  | .reconcileQuery now staleAfterMinutes =>
    some { s with candidates := s.candidates ++
      (s.db.runs.rows.filter (stuckRun now staleAfterMinutes)).map (fun r => r.pk) }
  | .reconcileSkip runId => some { s with candidates := s.candidates.erase runId }
  | .reconcileMark runId now =>
    if runId ∉ s.candidates then none
    else do
      let db ← markFailed scheduler s.db runId staleRun now
      some { s with db := db, candidates := s.candidates.erase runId }

end ConfigBackup.RunLifecycle
