import ConfigBackup.LocalRetention

/-!
Deleting one revision everywhere. The deletion refuses protected revisions,
active runs and transfers in flight, stages the local files, deletes the
recorded remote copies, relinks the other revisions of the target and removes
the revision row with everything that follows it.
-/

namespace ConfigBackup.RevisionDeletion

open LocalRetention Models RemoteRetention RevisionChain Tables

structure RevisionDeletionSummary where
  revisionId : ℕ
  artifactCount : ℕ
  artifactBytes : ℕ
  localFileCount : ℕ
  missingLocalFileCount : ℕ
  replicaCount : ℕ
  remoteFileCount : ℕ
  missingRemoteFileCount : ℕ
  detachedRunCount : ℕ
  quarantinePurgeFailures : ℕ
deriving DecidableEq, Repr

inductive DeletionFailure
  | deletion (message : String)
  | missing
  | storage
  | other
deriving DecidableEq, Repr

def DeletionFailure.message : DeletionFailure → String
  | .deletion message => message
  | .missing => "The revision no longer exists."
  | .storage => "Stored configuration files could not be quarantined. Nothing was deleted."
  | .other => "Revision deletion failed before commit."

def recorded (replica : RevisionReplica) : Bool :=
  replica.remoteAvailable || replica.remotePath != ""

/-- `_validate_replicas` for one replica: the reason to refuse, if any. -/
def validateReplica (db : Database) (replica : RevisionReplica) : Option DeletionFailure :=
  match db.destinations.get? replica.destination with
  | none => some .other
  | some destination =>
    if transferPending replica then
      some (.deletion
        "The revision has an active or scheduled remote transfer and cannot be deleted.")
    else if !recorded replica || replica.remoteDeletedAt.isSome then none
    else if !destination.protocol.replicated then
      some (.deletion
        "The revision has an external copy which this version cannot remove safely.")
    else if !destination.enabled then
      some (.deletion ("A remote storage containing this revision is disabled. Enable it before " ++
        "deleting the revision so its copy can be removed safely."))
    else if replica.remotePath == "" then
      some (.deletion
        "A remote copy has inconsistent path metadata. The revision was not deleted.")
    else none

/-- Counters and logged calls of the remote part. -/
structure RemoteProgress where
  calls : List ℕ
  replicaCount : ℕ
  remoteFileCount : ℕ
  missingRemoteFileCount : ℕ
deriving DecidableEq, Repr

def deleteCopies (server : Server) (p : RemoteProgress) (replica : RevisionReplica) :
    Except (DeletionFailure × List ℕ) RemoteProgress :=
  if replica.remoteDeletedAt.isSome || !recorded replica then .ok p
  else
    let calls := p.calls ++ [replica.pk]
    match server.delete replica with
    | .error (.destination errorCode) => .error (.deletion
        ("A remote copy could not be removed safely (" ++ errorCode ++ "). " ++
          "The revision was not deleted."), calls)
    | .error _ => .error (.other, calls)
    | .ok result => .ok ⟨calls, p.replicaCount + 1, p.remoteFileCount + result.deletedFileCount,
        p.missingRemoteFileCount + result.missingFileCount⟩

/-- Relink every other revision of the target, then remove the row. -/
def removeRevision (db : Database) (targetId revisionId : ℕ) : Database :=
  (relinkKeptRevisions db targetId (db.targetRevisions targetId)
    (fun pk => pk == revisionId)).deleteRevisions (fun pk => pk == revisionId)

def deletionTransaction (quarantine : Quarantine) (server : Server) (revisionId : ℕ)
    (db : Database) :
    Except (DeletionFailure × List String × List ℕ)
      (RevisionDeletionSummary × List String × List ℕ × Database) :=
  match db.revisions.get? revisionId with
  | none => .error (.missing, [], [])
  | some revision =>
    match db.targets.get? revision.target with
    | none => .error (.other, [], [])
    | some target =>
      if revision.isProtected then
        .error (.deletion "The revision is protected. Unprotect it before deleting it.", [], [])
      else if db.hasActiveRun target.pk then
        .error (.deletion ("The target has an active backup run. Wait for it to finish before " ++
          "deleting the revision."), [], [])
      else
        let artifacts := db.artifactsOf revisionId
        let replicas := db.replicasOf revisionId
        match replicas.findSome? (validateReplica db) with
        | some failure => .error (failure, [], [])
        | none =>
          match stageAll quarantine [] (artifacts.map (fun a => a.storageKey)) with
          | .error staged => .error (.storage, staged, [])
          | .ok staged =>
            match replicas.foldlM (deleteCopies server) ⟨[], 0, 0, 0⟩ with
            | .error (failure, calls) => .error (failure, staged, calls)
            | .ok p =>
              .ok ({
                revisionId := revisionId
                artifactCount := artifacts.length
                artifactBytes := (artifacts.map (fun a => a.size)).sum
                localFileCount := staged.length
                missingLocalFileCount := artifacts.length - staged.length
                replicaCount := p.replicaCount
                remoteFileCount := p.remoteFileCount
                missingRemoteFileCount := p.missingRemoteFileCount
                detachedRunCount :=
                  (db.runs.rows.filter (fun r => r.revision == some revisionId)).length
                quarantinePurgeFailures := 0 },
                staged, p.calls, removeRevision db target.pk revisionId)

structure DeletionOutcome where
  result : Except String RevisionDeletionSummary
  db : Database
  calls : List ℕ

def deleteConfigRevisionEverywhere (quarantine : Quarantine) (server : Server) (revisionId : ℕ)
    (db : Database) : DeletionOutcome :=
  match deletionTransaction quarantine server revisionId db with
  | .error (failure, staged, calls) =>
    if staged.all quarantine.restoreStagedDelete then ⟨.error failure.message, db, calls⟩
    else ⟨.error
      "Revision deletion failed and quarantined local files could not be fully restored.",
      db, calls⟩
  | .ok (summary, staged, calls, db) =>
    let failures := (staged.filter (fun key => !quarantine.purgeStagedDelete key)).length
    ⟨.ok { summary with quarantinePurgeFailures := failures }, db, calls⟩

theorem deletionTransaction_ok {quarantine : Quarantine} {server : Server} {revisionId : ℕ}
    {db db' : Database} {summary : RevisionDeletionSummary} {staged : List String}
    {calls : List ℕ}
    (h : deletionTransaction quarantine server revisionId db = .ok (summary, staged, calls, db')) :
    ∃ revision, db.revisions.get? revisionId = some revision ∧
      (db.targets.get? revision.target).isSome ∧
      db' = removeRevision db revision.target revisionId := by
  unfold deletionTransaction at h
  cases hrevision : db.revisions.get? revisionId with
  | none => simp [hrevision] at h
  | some revision =>
    simp only [hrevision] at h
    refine ⟨revision, rfl, ?_⟩
    cases htarget : db.targets.get? revision.target with
    | none => simp [htarget] at h
    | some target =>
      have hkey : target.pk = revision.target := ((Table.get?_eq_some_iff _ _ _).mp htarget).2
      simp only [htarget] at h
      refine ⟨rfl, ?_⟩
      split at h
      · cases h
      · split at h
        · cases h
        · cases hvalid : (db.replicasOf revisionId).findSome? (validateReplica db) with
          | some failure => simp [hvalid] at h
          | none =>
            simp only [hvalid] at h
            cases hstaged : stageAll quarantine []
                ((db.artifactsOf revisionId).map (fun a => a.storageKey)) with
            | error keys => simp [hstaged] at h
            | ok keys =>
              simp only [hstaged] at h
              cases hcopies : (db.replicasOf revisionId).foldlM (deleteCopies server)
                  ⟨[], 0, 0, 0⟩ with
              | error failure => simp [hcopies] at h
              | ok p =>
                simp only [hcopies, Except.ok.injEq, Prod.mk.injEq] at h
                rw [← h.2.2.2, hkey]

/-- A deletion leaves the database as it is, or it removes the one revision. -/
theorem deleteConfigRevisionEverywhere_db (quarantine : Quarantine) (server : Server)
    (revisionId : ℕ) (db : Database) :
    (deleteConfigRevisionEverywhere quarantine server revisionId db).db = db ∨
      ∃ revision, db.revisions.get? revisionId = some revision ∧
        (db.targets.get? revision.target).isSome ∧
        (deleteConfigRevisionEverywhere quarantine server revisionId db).db =
          removeRevision db revision.target revisionId := by
  unfold deleteConfigRevisionEverywhere
  cases h : deletionTransaction quarantine server revisionId db with
  | error failure =>
    refine Or.inl ?_
    dsimp only
    split <;> rfl
  | ok outcome =>
    obtain ⟨summary, staged, calls, db'⟩ := outcome
    exact Or.inr (deletionTransaction_ok h)

end ConfigBackup.RevisionDeletion
