import ConfigBackup.DestinationPaths
import ConfigBackup.Models

/-!
The database side of replication. Each operation is one transaction that locks
its replica row; the upload itself runs between `markRunning` and the final
mark. The dispatcher and the reconciler first query their candidates and then
treat them one transaction at a time.
-/

namespace ConfigBackup.Replication

open Calendar DestinationPaths Models Tables

structure DestinationError where
  errorCode : String
  safeMessage : String
deriving DecidableEq, Repr

/-- What leaves an operation: a destination error with its texts, or another exception. -/
inductive Raised
  | destination (error : DestinationError)
  | other
deriving DecidableEq, Repr

/-- Storages that receive every new revision. -/
def automaticDestinations (db : Database) : List ℕ :=
  (db.destinations.rows.filter (fun d => d.enabled && d.autoReplicate && d.protocol.replicated)).map
    (fun d => d.pk)

/-- Locally available revisions without a replica on the storage. -/
def backfillRevisions (db : Database) (destinationId limit : ℕ) : List ℕ :=
  ((db.revisions.rows.filter (fun r => db.locallyAvailable r.pk &&
    !(db.replicasOf r.pk).any (fun replica => replica.destination == destinationId))).map
      (fun r => r.pk)).take limit

def newReplica (revisionId destinationId : ℕ) (now : Instant) (pk : ℕ) : RevisionReplica where
  pk := pk
  revision := revisionId
  destination := destinationId
  status := .pending
  attempts := 0
  queuedAt := now
  startedAt := none
  finishedAt := none
  nextRetryAt := none
  bytesTransferred := 0
  remotePath := ""
  remoteAvailable := false
  remoteDeletedAt := none
  errorCode := ""
  errorMessage := ""
  jobId := none

/-- `RevisionReplica.objects.get_or_create`; both foreign keys must exist. -/
def getOrCreateReplica (db : Database) (revisionId destinationId : ℕ) (now : Instant) :
    Option Database :=
  if (db.revisions.get? revisionId).isNone || (db.destinations.get? destinationId).isNone then none
  else if (db.replicasOf revisionId).any (fun r => r.destination == destinationId) then some db
  else some { db with
    replicas := db.replicas.insert (newReplica revisionId destinationId now) (fun _ => rfl) }

def saveReplica (db : Database) (replicaId : ℕ) (f : RevisionReplica → RevisionReplica)
    (hf : ∀ r, (f r).pk = r.pk) : Database :=
  { db with replicas := db.replicas.update replicaId f hf }

def saveDestination (db : Database) (destinationId : ℕ)
    (f : BackupDestination → BackupDestination) (hf : ∀ d, (f d).pk = d.pk) : Database :=
  { db with destinations := db.destinations.update destinationId f hf }

def queuedReplica (now : Instant) (jobId : ℕ) (replica : RevisionReplica) : RevisionReplica :=
  { replica with
    status := .queued, queuedAt := now, startedAt := none, finishedAt := none
    nextRetryAt := none, errorCode := "", errorMessage := "", remoteAvailable := false
    jobId := some jobId }

/-- Queue one replica under a new Core job, or refuse without a change. -/
def enqueueRevisionReplica (db : Database) (replicaId : ℕ) (force : Bool) (now : Instant)
    (jobId : ℕ) : Option (Database × Option ℕ) := do
  let replica ← db.replicas.get? replicaId
  let destination ← db.destinations.get? replica.destination
  if !destination.protocol.replicated then some (db, none)
  else if !destination.enabled then some (db, none)
  else if replica.remoteDeletedAt.isSome then some (db, none)
  else if replica.status == .queued || replica.status == .running then some (db, none)
  else if !force && replica.status == .success then some (db, none)
  else some (saveReplica db replicaId (queuedReplica now jobId) (fun _ => rfl), some jobId)

/-- The replica with the related rows that the transport reads. -/
structure LoadedReplica where
  replica : RevisionReplica
  destination : BackupDestination
  revision : ConfigRevision
  target : BackupTarget
deriving DecidableEq, Repr

def loadReplica (db : Database) (replicaId : ℕ) : Option LoadedReplica := do
  let replica ← db.replicas.get? replicaId
  let destination ← db.destinations.get? replica.destination
  let revision ← db.revisions.get? replica.revision
  let target ← db.targets.get? revision.target
  some ⟨replica, destination, revision, target⟩

def readyToRun : ReplicaStatus → Bool
  | .pending | .queued | .failed => true
  | .running | .success => false

def runningReplica (path : String) (now : Instant) (replica : RevisionReplica) :
    RevisionReplica :=
  { replica with
    remotePath := path, status := .running, startedAt := some now, finishedAt := none
    attempts := replica.attempts + 1, errorCode := "", errorMessage := ""
    remoteAvailable := false }

section Transactions

variable (nfkd : String → String)

/-- The recorded path, or the deterministic one for a first attempt. -/
def pathToRecord (loaded : LoadedReplica) : Option String :=
  if loaded.replica.remotePath != "" then some loaded.replica.remotePath
  else ftpRevisionDestinationPath nfkd loaded.destination.basePath loaded.target.deviceName
    loaded.target.deviceId loaded.revision.created (some loaded.revision.pk) none

def markRunning (db : Database) (replicaId : ℕ) (now : Instant) :
    Except Raised (Database × LoadedReplica) :=
  match loadReplica db replicaId with
  | none => .error .other
  | some loaded =>
    if !loaded.destination.enabled then
      .error (.destination ⟨"DESTINATION_DISABLED",
        "The external destination is disabled and no network connection was attempted."⟩)
    else if loaded.replica.remoteDeletedAt.isSome then
      .error (.destination ⟨"REPLICA_EXPIRED",
        "The remote revision copy has expired and cannot be uploaded again."⟩)
    else if !readyToRun loaded.replica.status then
      .error (.destination ⟨"REPLICA_STATE_CONFLICT",
        "The revision replica is not ready to run."⟩)
    else
      match pathToRecord nfkd loaded with
      | none => .error .other
      | some path =>
        .ok (saveReplica db replicaId (runningReplica path now) (fun _ => rfl),
          { loaded with replica := runningReplica path now loaded.replica })

end Transactions

def succeededReplica (remotePath : String) (bytesTransferred : ℕ) (now : Instant)
    (replica : RevisionReplica) : RevisionReplica :=
  { replica with
    status := .success, finishedAt := some now, nextRetryAt := none, remotePath := remotePath
    bytesTransferred := bytesTransferred, errorCode := "", errorMessage := ""
    remoteAvailable := true, remoteDeletedAt := none }

def succeededDestination (now : Instant) (destination : BackupDestination) : BackupDestination :=
  { destination with lastSuccessAt := some now, lastErrorCode := "", lastErrorMessage := "" }

def markSuccess (db : Database) (replicaId : ℕ) (remotePath : String) (bytesTransferred : ℕ)
    (now : Instant) : Option Database := do
  let replica ← db.replicas.get? replicaId
  let _ ← db.destinations.get? replica.destination
  let db := saveReplica db replicaId (succeededReplica remotePath bytesTransferred now)
    (fun _ => rfl)
  some (saveDestination db replica.destination (succeededDestination now) (fun _ => rfl))

/-- `text[:length]`. -/
def truncated (length : ℕ) (text : String) : String := String.ofList (text.toList.take length)

/-- A failed attempt is retried until the storage's retries are used up. -/
def failedReplica (error : DestinationError) (maxRetries retryDelayMinutes : ℕ) (now : Instant)
    (replica : RevisionReplica) : RevisionReplica :=
  { replica with
    status := .failed, finishedAt := some now
    errorCode := truncated 64 error.errorCode
    errorMessage := truncated 500 error.safeMessage
    remoteAvailable := false
    nextRetryAt :=
      if replica.attempts ≤ maxRetries then some (now + minutes retryDelayMinutes) else none }

def failedDestination (error : DestinationError) (destination : BackupDestination) :
    BackupDestination :=
  { destination with
    lastErrorCode := truncated 64 error.errorCode
    lastErrorMessage := truncated 500 error.safeMessage }

def markFailed (db : Database) (replicaId : ℕ) (error : DestinationError) (now : Instant) :
    Option Database := do
  let replica ← db.replicas.get? replicaId
  let destination ← db.destinations.get? replica.destination
  let db := saveReplica db replicaId
    (failedReplica error destination.maxRetries destination.retryDelayMinutes now) (fun _ => rfl)
  some (saveDestination db replica.destination (failedDestination error) (fun _ => rfl))

/-- The candidates of `dispatch_due_replicas`, oldest first. -/
def dueReplicas (db : Database) (now : Instant) (limit : ℕ) : List ℕ :=
  (((db.replicas.rows.filter (fun r =>
    (db.destinations.get? r.destination).any (fun d => d.enabled && d.protocol.replicated) &&
      r.remoteDeletedAt.isNone &&
      (r.status == .pending || (r.status == .failed && r.nextRetryAt.any (fun t => t ≤ now))))
    ).insertionSort (fun r r' => r.queuedAt ≤ r'.queuedAt)).map (fun r => r.pk)).take limit

/-- The candidates of `reconcile_stale_replicas`, with the job each row names. -/
def staleReplicas (db : Database) (now : Instant) (staleAfterMinutes : ℕ) :
    List (ℕ × Option ℕ) :=
  let cutoff := now - minutes staleAfterMinutes
  (db.replicas.rows.filter (fun r => r.remoteDeletedAt.isNone &&
    ((r.status == .running && r.startedAt.any (fun t => t ≤ cutoff)) ||
      (r.status == .queued && decide (r.queuedAt ≤ cutoff))))).map (fun r => (r.pk, r.jobId))

def staleReplica : DestinationError :=
  ⟨"STALE_REPLICA", "The remote replication job ended without completing its replica record."⟩

section Specifications

variable {nfkd : String → String} {db db' : Database} {replicaId : ℕ} {now : Instant}

/-- Enqueueing refuses without a change, or queues a copy that is not expired. -/
theorem enqueue_spec {force : Bool} {jobId : ℕ} {job : Option ℕ}
    (h : enqueueRevisionReplica db replicaId force now jobId = some (db', job)) :
    db' = db ∨ (∃ replica, db.replicas.get? replicaId = some replica ∧
      replica.remoteDeletedAt = none ∧ replica.status ≠ .queued ∧ replica.status ≠ .running ∧
      db' = saveReplica db replicaId (queuedReplica now jobId) (fun _ => rfl)) := by
  unfold enqueueRevisionReplica at h
  obtain ⟨replica, hreplica, h⟩ := Option.bind_eq_some_iff.mp h
  obtain ⟨destination, _, h⟩ := Option.bind_eq_some_iff.mp h
  split at h
  · exact Or.inl (Prod.mk.inj (Option.some.inj h)).1.symm
  split at h
  · exact Or.inl (Prod.mk.inj (Option.some.inj h)).1.symm
  split at h
  · exact Or.inl (Prod.mk.inj (Option.some.inj h)).1.symm
  rename_i hdeleted
  split at h
  · exact Or.inl (Prod.mk.inj (Option.some.inj h)).1.symm
  rename_i hactive
  split at h
  · exact Or.inl (Prod.mk.inj (Option.some.inj h)).1.symm
  · have hactive : replica.status ≠ .queued ∧ replica.status ≠ .running := by
      simpa using hactive
    exact Or.inr ⟨replica, hreplica, by simpa using hdeleted, hactive.1, hactive.2,
      (Prod.mk.inj (Option.some.inj h)).1.symm⟩

theorem loadReplica_spec {loaded : LoadedReplica} (h : loadReplica db replicaId = some loaded) :
    db.replicas.get? replicaId = some loaded.replica ∧
      db.destinations.get? loaded.replica.destination = some loaded.destination ∧
      db.revisions.get? loaded.replica.revision = some loaded.revision := by
  unfold loadReplica at h
  obtain ⟨replica, hreplica, h⟩ := Option.bind_eq_some_iff.mp h
  obtain ⟨destination, hdestination, h⟩ := Option.bind_eq_some_iff.mp h
  obtain ⟨revision, hrevision, h⟩ := Option.bind_eq_some_iff.mp h
  obtain ⟨target, _, h⟩ := Option.bind_eq_some_iff.mp h
  rw [Option.some.injEq] at h
  subst h
  exact ⟨hreplica, hdestination, hrevision⟩

/-- A worker starts on an unexpired copy that no status blocks, under a recorded path. -/
theorem markRunning_spec {loaded : LoadedReplica}
    (h : markRunning nfkd db replicaId now = .ok (db', loaded)) :
    ∃ before path, loadReplica db replicaId = some before ∧
      before.replica.remoteDeletedAt = none ∧ readyToRun before.replica.status = true ∧
      pathToRecord nfkd before = some path ∧
      db' = saveReplica db replicaId (runningReplica path now) (fun _ => rfl) ∧
      loaded = { before with replica := runningReplica path now before.replica } := by
  unfold markRunning at h
  cases hload : loadReplica db replicaId with
  | none => simp [hload] at h
  | some before =>
    simp only [hload] at h
    split at h
    · cases h
    split at h
    · cases h
    rename_i hdeleted
    split at h
    · cases h
    rename_i hready
    cases hpath : pathToRecord nfkd before with
    | none => simp [hpath] at h
    | some path =>
      simp only [hpath, Except.ok.injEq, Prod.mk.injEq] at h
      exact ⟨before, path, rfl, by simpa using hdeleted, by simpa using hready, hpath,
        h.1.symm, h.2.symm⟩

theorem markSuccess_spec {remotePath : String} {bytesTransferred : ℕ}
    (h : markSuccess db replicaId remotePath bytesTransferred now = some db') :
    ∃ replica, db.replicas.get? replicaId = some replica ∧
      db' = saveDestination (saveReplica db replicaId
        (succeededReplica remotePath bytesTransferred now) (fun _ => rfl)) replica.destination
        (succeededDestination now) (fun _ => rfl) := by
  unfold markSuccess at h
  obtain ⟨replica, hreplica, h⟩ := Option.bind_eq_some_iff.mp h
  obtain ⟨destination, _, h⟩ := Option.bind_eq_some_iff.mp h
  exact ⟨replica, hreplica, (Option.some.inj h).symm⟩

theorem markFailed_spec {error : DestinationError}
    (h : markFailed db replicaId error now = some db') :
    ∃ replica, db.replicas.get? replicaId = some replica ∧ ∃ maxRetries retryDelayMinutes,
      db' = saveDestination (saveReplica db replicaId
        (failedReplica error maxRetries retryDelayMinutes now) (fun _ => rfl))
        replica.destination (failedDestination error) (fun _ => rfl) := by
  unfold markFailed at h
  obtain ⟨replica, hreplica, h⟩ := Option.bind_eq_some_iff.mp h
  obtain ⟨destination, _, h⟩ := Option.bind_eq_some_iff.mp h
  exact ⟨replica, hreplica, _, _, (Option.some.inj h).symm⟩

/-- A copy is created for an existing revision that has none on the storage. -/
theorem getOrCreateReplica_spec {revisionId destinationId : ℕ}
    (h : getOrCreateReplica db revisionId destinationId now = some db') :
    db' = db ∨ ((db.revisions.get? revisionId).isSome ∧
      (∀ r ∈ db.replicas, r.revision = revisionId → r.destination ≠ destinationId) ∧
      db' = { db with
        replicas := db.replicas.insert (newReplica revisionId destinationId now)
          (fun _ => rfl) }) := by
  unfold getOrCreateReplica at h
  split at h
  · cases h
  rename_i hkeys
  split at h
  · exact Or.inl (Option.some.inj h).symm
  · rename_i hfree
    refine Or.inr ⟨?_, ?_, (Option.some.inj h).symm⟩
    · simp only [Bool.or_eq_true, Option.isNone_iff_eq_none, not_or] at hkeys
      exact Option.isSome_iff_ne_none.mpr hkeys.1
    · intro r hr hrevision hdestination
      apply hfree
      rw [List.any_eq_true]
      exact ⟨r, List.mem_filter.mpr ⟨hr, by simpa using hrevision⟩, by simpa using hdestination⟩

theorem pathToRecord_ne_empty {loaded : LoadedReplica} {path : String}
    (h : pathToRecord nfkd loaded = some path) : path ≠ "" := by
  unfold pathToRecord at h
  split at h
  · rename_i hrecorded
    rw [← Option.some.inj h]
    simpa using hrecorded
  · unfold ftpRevisionDestinationPath at h
    dsimp only at h
    split at h
    · cases h
    · rw [← Option.some.inj h]
      exact absolutePath_ne_empty _

end Specifications

end ConfigBackup.Replication
