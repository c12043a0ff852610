import ConfigBackup.RemoteRetention
import ConfigBackup.RevisionChain
import Mathlib.Algebra.GroupWithZero.Nat

/-!
Local retention for one target. The cleanup stages the files of the expired
revisions in a quarantine, marks their artifacts unavailable, relinks what is
left, and removes the revisions that no remote storage records. Any exception
restores the staged files and undoes the database writes.
-/

namespace ConfigBackup.LocalRetention

open Calendar Models NewestFirst RemoteRetention Retention RevisionChain Tables

/-- What the local storage answers for one key: a staged file (`some true`), a
missing one (`some false`), or a raised storage error. -/
structure Quarantine where
  stageDelete : String → Option Bool
  restoreStagedDelete : String → Bool
  purgeStagedDelete : String → Bool

structure RetentionCleanupSummary where
  targetId : ℕ
  runCount : ℕ
  revisionCount : ℕ
  artifactCount : ℕ
  artifactBytes : ℕ
  missingArtifactCount : ℕ
  quarantinePurgeFailures : ℕ
  deferredRevisionCount : ℕ
deriving DecidableEq, Repr

/-- A `RetentionCleanupError` with its message, a storage error, or another one. -/
inductive Failure
  | cleanup (message : String)
  | storage
  | other
deriving DecidableEq, Repr

def Failure.message : Failure → String
  | .cleanup message => message
  | .storage =>
    "Retention cleanup could not stage stored configuration files. Nothing was deleted."
  | .other => "Retention cleanup failed before the database transaction committed."

/-- Stage the keys in order; the staged keys come back, also when it raises. -/
def stageAll (quarantine : Quarantine) : List String → List String → Except (List String) (List String)
  | staged, [] => .ok staged
  | staged, key :: rest =>
    match quarantine.stageDelete key with
    | none => .error staged
    | some true => stageAll quarantine (staged ++ [key]) rest
    | some false => stageAll quarantine staged rest

/-- A transfer that still needs the local files as its source. -/
def needsSource (db : Database) (replica : RevisionReplica) : Bool :=
  let enabled := (db.destinations.get? replica.destination).any (fun d => d.enabled)
  replica.remoteDeletedAt.isNone &&
    (replica.status == .queued || replica.status == .running ||
      (enabled && replica.status == .pending) ||
      (enabled && replica.status == .failed && replica.nextRetryAt.isSome))

/-- `has_recorded_remote_copy`. -/
def hasRecordedRemoteCopy (replicas : List RevisionReplica) : Bool :=
  replicas.any (fun replica =>
    replica.remoteDeletedAt.isNone && (replica.remoteAvailable || replica.remotePath != ""))

/-- The single protected local storage. -/
def localStorage (db : Database) : Option BackupDestination :=
  match db.destinations.rows.filter (fun d => d.protocol == .localStorage && d.isDefault) with
  | [storage] => some storage
  | _ => none

def runCandidate (run : BackupRun) : RunCandidate where
  objectId := run.pk
  timestamp := run.finishedAt.getD run.queuedAt
  status := run.status.value

def targetRuns (db : Database) (targetId : ℕ) : List BackupRun :=
  newestFirst (newerBy BackupRun.queuedAt BackupRun.pk)
    (db.runs.rows.filter (fun r => r.target == targetId))

def markUnavailable (db : Database) (now : Instant) (revisionIds : List ℕ) : Database :=
  { db with
    artifacts := db.artifacts.map (fun a =>
      if revisionIds.contains a.revision && a.localAvailable then
        { a with localAvailable := false, localDeletedAt := some now } else a)
      (fun a => by split <;> rfl) }

/-- The database part of the cleanup, once the files are staged. -/
def applyRetention (db : Database) (now : Instant) (targetId : ℕ) (revisionIds runIds : List ℕ) :
    Database :=
  let revisions := newestFirst ConfigRevision.newer (db.targetRevisions targetId)
  let databaseRevisionIds := revisionIds.filter (fun pk =>
    !hasRecordedRemoteCopy (db.replicasOf pk))
  let locallyUnavailable (pk : ℕ) : Bool := revisionIds.contains pk || !db.locallyAvailable pk
  let relinked := relinkKeptRevisions (markUnavailable db now revisionIds) targetId revisions
    locallyUnavailable
  ({ relinked with runs := relinked.runs.filter (fun r => !runIds.contains r.pk) }).deleteRevisions
    (fun pk => databaseRevisionIds.contains pk)

/-- The revisions and runs to remove, and how many revisions are deferred. -/
def retentionWork (db : Database) (now : Instant) (targetId : ℕ) (policy : RetentionPolicy) :
    Option (List ℕ × List ℕ × ℕ) := do
  let revisions := newestFirst ConfigRevision.newer (db.targetRevisions targetId)
  let locallyAvailableRevisions := revisions.filter (fun r => db.locallyAvailable r.pk)
  let plan ← buildRetentionPlan (settingsFromPolicy policy)
    (locallyAvailableRevisions.map revisionCandidate) ((targetRuns db targetId).map runCandidate)
    now
  let planned := expired plan.revisionDecisions
  let deferred := planned.filter (fun pk => (db.replicasOf pk).any (needsSource db))
  pure (planned.filter (fun pk => !deferred.contains pk), expired plan.runDecisions,
    deferred.length)

/-- The body of the transaction; the staged keys are returned in any case. -/
def retentionTransaction (quarantine : Quarantine) (targetId : ℕ) (now : Instant) (db : Database) :
    Except (Failure × List String) (RetentionCleanupSummary × List String × Database) :=
  match db.targets.get? targetId with
  | none => .error (.other, [])
  | some target =>
    if db.hasActiveRun targetId then
      .error (.cleanup "Retention cleanup cannot run while the target has an active backup.", [])
    else
      match localStorage db with
      | none => .error (.other, [])
      | some storage =>
        match effectiveLocalRetentionPolicyId db target storage with
        | none =>
          .error (.cleanup "The backup target has no effective Local retention profile.", [])
        | some policyId =>
          match (db.retentionPolicies.get? policyId).bind (retentionWork db now targetId) with
          | none => .error (.other, [])
          | some (revisionIds, runIds, deferredCount) =>
            let artifacts := db.artifacts.rows.filter (fun a =>
              revisionIds.contains a.revision && a.localAvailable)
            match stageAll quarantine [] (artifacts.map (fun a => a.storageKey)) with
            | .error staged => .error (.storage, staged)
            | .ok staged =>
              .ok ({
                targetId := targetId
                runCount := runIds.length
                revisionCount := revisionIds.length
                artifactCount := artifacts.length
                artifactBytes := (artifacts.map (fun a => a.size)).sum
                missingArtifactCount := artifacts.length - staged.length
                quarantinePurgeFailures := 0
                deferredRevisionCount := deferredCount },
                staged, applyRetention db now targetId revisionIds runIds)

structure RetentionOutcome where
  result : Except String RetentionCleanupSummary
  db : Database

def executeRetentionCleanup (quarantine : Quarantine) (targetId : ℕ) (now : Instant)
    (db : Database) : RetentionOutcome :=
  match retentionTransaction quarantine targetId now db with
  | .error (failure, staged) =>
    if staged.all quarantine.restoreStagedDelete then ⟨.error failure.message, db⟩
    else ⟨.error
      "Retention cleanup failed and quarantined files could not be fully restored.", db⟩
  | .ok (summary, staged, db) =>
    let failures := (staged.filter (fun key => !quarantine.purgeStagedDelete key)).length
    ⟨.ok { summary with quarantinePurgeFailures := failures }, db⟩

theorem retentionTransaction_ok {quarantine : Quarantine} {targetId : ℕ} {now : Instant}
    {db db' : Database} {summary : RetentionCleanupSummary} {staged : List String}
    (h : retentionTransaction quarantine targetId now db = .ok (summary, staged, db')) :
    (db.targets.get? targetId).isSome ∧
      ∃ revisionIds runIds, db' = applyRetention db now targetId revisionIds runIds := by
  unfold retentionTransaction at h
  cases htarget : db.targets.get? targetId with
  | none => simp [htarget] at h
  | some target =>
    refine ⟨rfl, ?_⟩
    simp only [htarget] at h
    split at h
    · cases h
    · cases hstorage : localStorage db with
      | none => simp [hstorage] at h
      | some storage =>
        simp only [hstorage] at h
        cases hpolicy : effectiveLocalRetentionPolicyId db target storage with
        | none => simp [hpolicy] at h
        | some policyId =>
          simp only [hpolicy] at h
          cases hwork : (db.retentionPolicies.get? policyId).bind (retentionWork db now targetId) with
          | none => simp [hwork] at h
          | some work =>
            obtain ⟨revisionIds, runIds, deferredCount⟩ := work
            simp only [hwork] at h
            refine ⟨revisionIds, runIds, ?_⟩
            cases hstaged : stageAll quarantine [] ((db.artifacts.rows.filter (fun a =>
                revisionIds.contains a.revision && a.localAvailable)).map
                  (fun a => a.storageKey)) with
            | error keys => simp only [hstaged, reduceCtorEq] at h
            | ok keys =>
              simp only [hstaged, Except.ok.injEq, Prod.mk.injEq] at h
              exact h.2.2.symm

/-- A cleanup leaves the database as it is, or it applies one retention plan. -/
theorem executeRetentionCleanup_db (quarantine : Quarantine) (targetId : ℕ) (now : Instant)
    (db : Database) :
    (executeRetentionCleanup quarantine targetId now db).db = db ∨
      ((db.targets.get? targetId).isSome ∧ ∃ revisionIds runIds,
        (executeRetentionCleanup quarantine targetId now db).db =
          applyRetention db now targetId revisionIds runIds) := by
  unfold executeRetentionCleanup
  cases h : retentionTransaction quarantine targetId now db with
  | error failure =>
    refine Or.inl ?_
    dsimp only
    split <;> rfl
  | ok outcome =>
    obtain ⟨summary, staged, db'⟩ := outcome
    exact Or.inr (retentionTransaction_ok h)

end ConfigBackup.LocalRetention
