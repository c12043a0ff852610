import ConfigBackup.ExceptLoops
import ConfigBackup.Retention
import Mathlib.Data.List.Dedup

/-!
Remote retention for one target. The cleanup plans every enabled remote
storage on its own, deletes the expired copies and tombstones their rows, and
removes revisions that own no content any more. Database writes are undone
when it raises; calls to the remote storage are not, so they are logged.
-/

namespace ConfigBackup.RemoteRetention

open Calendar ExceptLoops Models NewestFirst Retention

structure RevisionDeletionResult where
  deletedFileCount : ℕ
  missingFileCount : ℕ
  deletedBytes : ℕ
  directoryRemoved : Bool
deriving DecidableEq, Repr

inductive Failure
  | cleanup (message : String)
  | destination (errorCode : String)
  | other
deriving DecidableEq, Repr

/-- The text of the `RemoteRetentionCleanupError` that leaves the cleanup. -/
def Failure.message : Failure → String
  | .cleanup message => message
  | .destination errorCode =>
    "Remote retention stopped safely (" ++ errorCode ++ "). No database state was changed."
  | .other => "Remote retention failed before its database state could be committed."

/-- What the environment decides during one cleanup: the result of deleting a
copy and the iteration order of a set of revision ids. -/
structure Server where
  delete : RevisionReplica → Except Failure RevisionDeletionResult
  order : List ℕ → List ℕ
  order_perm : ∀ ids, (order ids).Perm ids

structure RemoteRetentionCleanupSummary where
  targetId : ℕ
  revisionCount : ℕ
  replicaCount : ℕ
  cancelledReplicaCount : ℕ
  deletedFileCount : ℕ
  missingFileCount : ℕ
  deletedBytes : ℕ
  removedDirectoryCount : ℕ
  deferredRevisionCount : ℕ
  metadataRevisionCount : ℕ
deriving DecidableEq, Repr

/-- The open transaction, the counters and the logged calls. -/
structure Progress where
  db : Database
  calls : List ℕ
  replicaCount : ℕ
  deletedFileCount : ℕ
  missingFileCount : ℕ
  deletedBytes : ℕ
  removedDirectoryCount : ℕ
  deferredRevisionCount : ℕ
  completedRevisionIds : List ℕ
  configuredPolicyCount : ℕ

def Progress.start (db : Database) : Progress := ⟨db, [], 0, 0, 0, 0, 0, 0, [], 0⟩

/-- A copy the cleanup may delete: an available one, or an exhausted failed
one with a recorded path. -/
def deletable (replica : RevisionReplica) : Bool :=
  (replica.status == .success && replica.remoteAvailable) ||
    (replica.status == .failed && replica.remotePath != "" && replica.nextRetryAt.isNone)

/-- A copy whose transfer is queued, running or waiting for its retry. -/
def transferPending (replica : RevisionReplica) : Bool :=
  replica.status == .queued || replica.status == .running ||
    (replica.status == .failed && replica.nextRetryAt.isSome)

def targetOf (db : Database) (replica : RevisionReplica) : Option ℕ :=
  (db.revisions.get? replica.revision).map (fun revision => revision.target)

/-- Copies of the target on remote storages without a tombstone, by key. -/
def lockedReplicas (db : Database) (targetId : ℕ) : List RevisionReplica :=
  db.replicas.rows.filter (fun replica =>
    targetOf db replica == some targetId && replica.remoteDeletedAt.isNone &&
      (db.destinations.get? replica.destination).any (fun d => d.protocol.replicated))

def lockedDestinations (db : Database) (targetId : ℕ) : List BackupDestination :=
  db.destinations.rows.filter (fun destination => destination.protocol.replicated &&
    (lockedReplicas db targetId).any (fun replica => replica.destination == destination.pk))

/-- Revisions of the target with a locked copy, newest first. -/
def lockedRevisions (db : Database) (targetId : ℕ) : List ConfigRevision :=
  newestFirst ConfigRevision.newer ((db.targetRevisions targetId).filter (fun revision =>
    (lockedReplicas db targetId).any (fun replica => replica.revision == revision.pk)))

def replicasByRevision (locked : List RevisionReplica) (destinationId revisionId : ℕ) :
    List RevisionReplica :=
  locked.filter (fun replica => replica.destination == destinationId &&
    replica.revision == revisionId)

def revisionCandidate (revision : ConfigRevision) : RevisionCandidate where
  objectId := revision.pk
  created := revision.created
  isProtected := revision.isProtected
  contentChanged := revision.contentChanged

/-- Revisions with a deletable copy on the storage, in dictionary order. -/
def candidateRevisions (db : Database) (locked : List RevisionReplica) (targetId destinationId : ℕ) :
    List ConfigRevision :=
  let keys := ((locked.filter (fun replica => replica.destination == destinationId)).map
    (fun replica => replica.revision)).dedup
  keys.filterMap (fun key =>
    if (replicasByRevision locked destinationId key).any deletable then
      (lockedRevisions db targetId).find? (fun revision => revision.pk == key)
    else none)

def tombstone (now : Instant) (replica : RevisionReplica) : RevisionReplica :=
  { replica with
    remoteAvailable := false, remoteDeletedAt := some now, nextRetryAt := none, jobId := none }

@[simp] theorem tombstone_pk (now : Instant) (replica : RevisionReplica) :
    (tombstone now replica).pk = replica.pk := rfl

@[simp] theorem tombstone_tombstone (now : Instant) (replica : RevisionReplica) :
    tombstone now (tombstone now replica) = tombstone now replica := rfl

/-- `replica.save(update_fields=...)` after a confirmed deletion. -/
def saveTombstone (db : Database) (now : Instant) (pk : ℕ) : Database :=
  { db with replicas := db.replicas.update pk (tombstone now) (fun _ => rfl) }

/-- Delete one copy remotely and tombstone its row. -/
def deleteReplica (server : Server) (now : Instant) (p : Progress) (replica : RevisionReplica) :
    Except (Failure × Progress) Progress :=
  let called := { p with calls := p.calls ++ [replica.pk] }
  match server.delete replica with
  | .error failure => .error (failure, called)
  | .ok result => .ok { called with
      db := saveTombstone p.db now replica.pk
      replicaCount := p.replicaCount + 1
      deletedFileCount := p.deletedFileCount + result.deletedFileCount
      missingFileCount := p.missingFileCount + result.missingFileCount
      deletedBytes := p.deletedBytes + result.deletedBytes
      removedDirectoryCount :=
        p.removedDirectoryCount + (if result.directoryRemoved then 1 else 0) }

/-- Delete the copies of one expired revision, unless a transfer is pending. -/
def expireRevision (server : Server) (now : Instant) (locked : List RevisionReplica)
    (destinationId : ℕ) (p : Progress) (revisionId : ℕ) :
    Except (Failure × Progress) Progress :=
  let revisionReplicas := replicasByRevision locked destinationId revisionId
  if revisionReplicas.any transferPending then
    .ok { p with deferredRevisionCount := p.deferredRevisionCount + 1 }
  else
    let replicas := revisionReplicas.filter deletable
    if replicas.isEmpty then .ok p
    else do
      let p ← replicas.foldlM (deleteReplica server now) p
      pure { p with completedRevisionIds := (revisionId :: p.completedRevisionIds).dedup }

/-- Apply the effective profile of one remote storage. -/
def cleanDestination (server : Server) (now : Instant) (start : Database) (target : BackupTarget)
    (p : Progress) (destination : BackupDestination) : Except (Failure × Progress) Progress :=
  if !destination.enabled then .ok p
  else
    match effectiveRemoteRetentionPolicyId target destination with
    | none => .ok p
    | some policyId =>
      match start.remotePolicies.get? policyId with
      | none =>
        .error (.cleanup "The effective remote retention profile no longer exists.", p)
      | some policy =>
        let p := { p with configuredPolicyCount := p.configuredPolicyCount + 1 }
        let locked := lockedReplicas start target.pk
        let candidates := candidateRevisions start locked target.pk destination.pk
        match buildRetentionPlan (settingsFromRemotePolicy policy)
            (candidates.map revisionCandidate) [] now with
        | none => .error (.other, p)
        | some plan => (server.order (expired plan.revisionDecisions)).foldlM
            (expireRevision server now locked destination.pk) p

/-- Whether a revision is left without local content, recorded copy and transfer. -/
def ownsNothing (db : Database) (revisionId : ℕ) : Bool :=
  !db.locallyAvailable revisionId &&
  !(db.replicasOf revisionId).any (fun replica =>
    (replica.remoteAvailable || replica.remotePath != "") && replica.remoteDeletedAt.isNone) &&
  !(db.replicasOf revisionId).any (fun replica =>
    (replica.status == .pending || transferPending replica) && replica.remoteDeletedAt.isNone)

/-- The body of the transaction. -/
def remoteRetentionTransaction (server : Server) (targetId : ℕ) (now : Instant) (db : Database) :
    Except (Failure × Progress) (RemoteRetentionCleanupSummary × Progress) :=
  let start := Progress.start db
  match db.targets.get? targetId with
  | none => .error (.cleanup "The backup target no longer exists.", start)
  | some target =>
    if db.hasActiveRun targetId then
      .error (.cleanup "Remote retention cannot run while the target has an active backup.", start)
    else do
      let p ← (lockedDestinations db targetId).foldlM (cleanDestination server now db target) start
      if p.configuredPolicyCount = 0 then
        .error (.cleanup ("No enabled remote storage has an effective retention profile. " ++
          "Remote copies are kept indefinitely."), p)
      else
        let metadataRevisionIds := ((lockedRevisions db targetId).map (fun r => r.pk)).filter
          (fun pk => p.completedRevisionIds.contains pk && ownsNothing p.db pk)
        let committed := p.db.deleteRevisions (fun pk => metadataRevisionIds.contains pk)
        pure ({ targetId := target.pk
                revisionCount := p.completedRevisionIds.length
                replicaCount := p.replicaCount
                cancelledReplicaCount := 0
                deletedFileCount := p.deletedFileCount
                missingFileCount := p.missingFileCount
                deletedBytes := p.deletedBytes
                removedDirectoryCount := p.removedDirectoryCount
                deferredRevisionCount := p.deferredRevisionCount
                metadataRevisionCount := metadataRevisionIds.length },
              { p with db := committed })

/-- Result, database and remote calls after a cleanup. -/
structure CleanupOutcome where
  result : Except String RemoteRetentionCleanupSummary
  db : Database
  calls : List ℕ

def executeRemoteRetentionCleanup (server : Server) (targetId : ℕ) (now : Instant)
    (db : Database) : CleanupOutcome :=
  match remoteRetentionTransaction server targetId now db with
  | .ok (summary, p) => ⟨.ok summary, p.db, p.calls⟩
  | .error (failure, p) => ⟨.error failure.message, db, p.calls⟩

end ConfigBackup.RemoteRetention
