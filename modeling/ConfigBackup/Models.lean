import ConfigBackup.Calendar
import ConfigBackup.NewestFirst
import ConfigBackup.Tables

/-!
The plugin's choices, rows and database. A row keeps the columns that a
modelled service reads or writes; foreign keys are primary keys of the
referenced rows, and an optional column is an `Option`. Deleting a revision
cascades to its artifacts and replicas and clears the nullable links to it.
-/

namespace ConfigBackup.Models

open Calendar NewestFirst Tables

inductive DestinationProtocol
  | localStorage | sftp | ftp | nfs | smb
deriving DecidableEq, Repr

/-- `REPLICATED_DESTINATION_PROTOCOLS`. -/
def DestinationProtocol.replicated : DestinationProtocol → Bool
  | .ftp | .nfs | .smb => true
  | .localStorage | .sftp => false

/-- `MOUNTED_DESTINATION_PROTOCOLS`. -/
def DestinationProtocol.mounted : DestinationProtocol → Bool
  | .nfs | .smb => true
  | .localStorage | .sftp | .ftp => false

inductive ReplicaStatus
  | pending | queued | running | success | failed
deriving DecidableEq, Repr

inductive TargetStatus
  | never | healthy | failed | stale | disabled
deriving DecidableEq, Repr

inductive RunStatus
  | queued | running | successUnchanged | successChanged | partialSuccess | failed | errored
  | skipped
deriving DecidableEq, Repr

/-- The stored value of a run status, as the retention planner reads it. -/
def RunStatus.value : RunStatus → String
  | .queued => "queued"
  | .running => "running"
  | .successUnchanged => "success_unchanged"
  | .successChanged => "success_changed"
  | .partialSuccess => "partial"
  | .failed => "failed"
  | .errored => "errored"
  | .skipped => "skipped"

/-- Queued and running runs hold the target's single active slot. -/
def RunStatus.active : RunStatus → Bool
  | .queued | .running => true
  | _ => false

inductive StoreMode
  | changedOnly | everySuccess
deriving DecidableEq, Repr

structure RetentionPolicy where
  pk : ℕ
  keepAllDays : ℕ
  dailyDays : ℕ
  weeklyWeeks : ℕ
  monthlyMonths : ℕ
  minimumChangedRevisions : ℕ
  unchangedRunDays : ℕ
  changedRunDays : ℕ
  failedRunDays : ℕ
  maxRunsPerTarget : ℕ
deriving DecidableEq, Repr

structure RemoteRetentionPolicy where
  pk : ℕ
  keepAllDays : ℕ
  dailyDays : ℕ
  weeklyWeeks : ℕ
  monthlyMonths : ℕ
  minimumChangedRevisions : ℕ
  maxCopiesPerTarget : Option ℕ
deriving DecidableEq, Repr

structure BackupPolicy where
  pk : ℕ
  enabled : Bool
  storeMode : StoreMode
  retentionPolicy : ℕ
deriving DecidableEq, Repr

structure BackupDestination where
  pk : ℕ
  enabled : Bool
  autoReplicate : Bool
  isDefault : Bool
  protocol : DestinationProtocol
  host : String
  port : Option ℕ
  basePath : String
  mountPath : String
  credentialProfile : Option ℕ
  maxRetries : ℕ
  retryDelayMinutes : ℕ
  maxArtifactSize : ℕ
  localRetentionPolicy : Option ℕ
  remoteRetentionPolicy : Option ℕ
  enforceRetentionPolicy : Bool
  hostKeyTrusted : Bool
  lastErrorCode : String
  lastErrorMessage : String
  lastSuccessAt : Option Instant
deriving DecidableEq, Repr

/-- A target and its device; the device name is nullable in NetBox. -/
structure BackupTarget where
  pk : ℕ
  deviceId : ℕ
  deviceName : Option String
  enabled : Bool
  policyOverride : Option ℕ
  retentionOverride : Option ℕ
  remoteRetentionPolicy : Option ℕ
  nextRunAt : Option Instant
  lastAttemptAt : Option Instant
  lastSuccessAt : Option Instant
  lastChangeAt : Option Instant
  status : TargetStatus
  consecutiveFailures : ℕ
  lastRevision : Option ℕ
deriving DecidableEq, Repr

structure ConfigRevision where
  pk : ℕ
  target : ℕ
  revisionUuid : String
  created : Instant
  normalizedHash : String
  normalizerVersion : String
  driverId : String
  contentChanged : Bool
  isProtected : Bool
  previousRevision : Option ℕ
deriving DecidableEq, Repr

structure ConfigArtifact where
  pk : ℕ
  revision : ℕ
  artifactType : String
  format : String
  storageKey : String
  size : ℕ
  rawHash : String
  normalizedHash : String
  isPrimary : Bool
  localAvailable : Bool
  localDeletedAt : Option Instant
deriving DecidableEq, Repr

structure RevisionReplica where
  pk : ℕ
  revision : ℕ
  destination : ℕ
  status : ReplicaStatus
  attempts : ℕ
  queuedAt : Instant
  startedAt : Option Instant
  finishedAt : Option Instant
  nextRetryAt : Option Instant
  bytesTransferred : ℕ
  remotePath : String
  remoteAvailable : Bool
  remoteDeletedAt : Option Instant
  errorCode : String
  errorMessage : String
  jobId : Option ℕ
deriving DecidableEq, Repr

structure BackupRun where
  pk : ℕ
  target : ℕ
  queuedAt : Instant
  startedAt : Option Instant
  finishedAt : Option Instant
  status : RunStatus
  errorCode : String
  errorMessage : String
  revision : Option ℕ
  changed : Bool
  rawChanged : Bool
  jobId : Option ℕ
deriving DecidableEq, Repr

structure Database where
  targets : Table BackupTarget BackupTarget.pk
  destinations : Table BackupDestination BackupDestination.pk
  backupPolicies : Table BackupPolicy BackupPolicy.pk
  retentionPolicies : Table RetentionPolicy RetentionPolicy.pk
  remotePolicies : Table RemoteRetentionPolicy RemoteRetentionPolicy.pk
  revisions : Table ConfigRevision ConfigRevision.pk
  artifacts : Table ConfigArtifact ConfigArtifact.pk
  replicas : Table RevisionReplica RevisionReplica.pk
  runs : Table BackupRun BackupRun.pk

namespace Database

def artifactsOf (db : Database) (revision : ℕ) : List ConfigArtifact :=
  db.artifacts.rows.filter (fun a => a.revision == revision)

def replicasOf (db : Database) (revision : ℕ) : List RevisionReplica :=
  db.replicas.rows.filter (fun r => r.revision == revision)

/-- `any(artifact.local_available for artifact in revision.artifacts.all())`. -/
def locallyAvailable (db : Database) (revision : ℕ) : Bool :=
  (db.artifactsOf revision).any (fun a => a.localAvailable)

def targetRevisions (db : Database) (target : ℕ) : List ConfigRevision :=
  db.revisions.rows.filter (fun r => r.target == target)

def hasActiveRun (db : Database) (target : ℕ) : Bool :=
  db.runs.rows.any (fun r => r.target == target && r.status.active)

/-- `ConfigRevision.objects.filter(pk__in=...).delete()`: replica and artifact
rows follow their revision, links to a deleted revision become null. -/
def deleteRevisions (db : Database) (gone : ℕ → Bool) : Database :=
  let unlink (link : Option ℕ) : Option ℕ := link.filter (fun pk => !gone pk)
  { db with
    revisions := (db.revisions.filter (fun r => !gone r.pk)).map
      (fun r => { r with previousRevision := unlink r.previousRevision }) (fun _ => rfl)
    artifacts := db.artifacts.filter (fun a => !gone a.revision)
    replicas := db.replicas.filter (fun r => !gone r.revision)
    targets := db.targets.map
      (fun t => { t with lastRevision := unlink t.lastRevision }) (fun _ => rfl)
    runs := db.runs.map (fun r => { r with revision := unlink r.revision }) (fun _ => rfl) }

theorem get?_deleteRevisions (db : Database) (gone : ℕ → Bool) (k : ℕ) :
    (db.deleteRevisions gone).revisions.get? k =
      ((db.revisions.get? k).filter (fun r => !gone r.pk)).map
        (fun r => { r with previousRevision := r.previousRevision.filter (fun pk => !gone pk) }) := by
  unfold deleteRevisions
  rw [Table.get?_map, Table.get?_filter]

theorem mem_replicas_deleteRevisions {db : Database} {gone : ℕ → Bool}
    {replica : RevisionReplica} : replica ∈ (db.deleteRevisions gone).replicas ↔
      replica ∈ db.replicas ∧ gone replica.revision = false := by
  unfold deleteRevisions
  simp

end Database

/-- A revision is newer than another by creation time, then by primary key. -/
abbrev ConfigRevision.newer : ConfigRevision → ConfigRevision → Prop :=
  newerBy ConfigRevision.created ConfigRevision.pk

end ConfigBackup.Models
