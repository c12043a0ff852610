import ConfigBackup.Models

/-!
The repository of the backup pipeline. Each operation is one transaction on
the database: it locks the run, and the commits and the failure also lock the
run's target. `none` is a raised exception, after which nothing is written.
-/

namespace ConfigBackup.Repository

open Calendar Models NewestFirst Tables

/-- The regular schedule and the retry backoff of a target, in its time zone. -/
structure Scheduler where
  calculateTargetNextRun : BackupTarget → Instant → Option Instant
  failureNextRun : BackupTarget → Instant → ℕ → Option Instant

structure RevisionSnapshot where
  revisionId : ℕ
  normalizedHash : String
  primaryRawHash : String
deriving DecidableEq, Repr

structure StoredArtifactRecord where
  artifactType : String
  format : String
  storageKey : String
  size : ℕ
  rawHash : String
  normalizedHash : String
  isPrimary : Bool
deriving DecidableEq, Repr

/-- Arguments of `commit_revision`; `created` is the row's own time stamp. -/
structure RevisionCommit where
  revisionUuid : String
  normalizedHash : String
  normalizerVersion : String
  driverId : String
  contentChanged : Bool
  rawChanged : Bool
  artifacts : List StoredArtifactRecord
  created : Instant
  finishedAt : Instant
deriving DecidableEq, Repr

/-- `order_by("-created").first()` may return any revision that no other one is
later than; the database is free among equal time stamps. -/
def isLatestOf (revisions : List ConfigRevision) : Option ConfigRevision → Bool
  | none => revisions.isEmpty
  | some revision => revisions.contains revision &&
      revisions.all (fun other => decide (other.created ≤ revision.created))

def isLatest (db : Database) (targetId : ℕ) (latest : Option ConfigRevision) : Bool :=
  isLatestOf (db.targetRevisions targetId) latest

/-- A database's answers to the query for the latest revision. -/
structure LatestQuery where
  first : List ConfigRevision → Option ConfigRevision
  valid : ∀ revisions, isLatestOf revisions (first revisions) = true

/-- The query that prefers the greatest key among equal time stamps. -/
def newestQuery : LatestQuery where
  first revisions := (newestFirst ConfigRevision.newer revisions).head?
  valid revisions := by
    have hperm : (newestFirst ConfigRevision.newer revisions).Perm revisions := newestFirst_perm _
    cases hsorted : newestFirst ConfigRevision.newer revisions with
    | nil =>
      rw [hsorted] at hperm
      rw [hperm.symm.eq_nil]
      rfl
    | cons r rest =>
      have hmem : r ∈ revisions := hperm.mem_iff.mp (by rw [hsorted]; exact List.mem_cons_self)
      simp only [List.head?_cons, isLatestOf, Bool.and_eq_true, List.contains_iff_mem,
        List.all_eq_true, decide_eq_true_eq]
      refine ⟨hmem, ?_⟩
      intro other hother
      have hrest : other ∈ r :: rest := by
        rw [← hsorted]
        exact hperm.mem_iff.mpr hother
      rcases List.mem_cons.mp hrest with heq | hrest
      · rw [heq]
      · have hpairs := sorted_newestFirst (recency_newerBy ConfigRevision.created
          ConfigRevision.pk) revisions
        rw [hsorted] at hpairs
        have hnot := (List.pairwise_cons.mp hpairs).1 other hrest
        exact not_lt.mp (fun hlt => hnot (Or.inl hlt))

def saveRun (db : Database) (runId : ℕ) (f : BackupRun → BackupRun)
    (hf : ∀ r, (f r).pk = r.pk) : Database :=
  { db with runs := db.runs.update runId f hf }

def saveTarget (db : Database) (targetId : ℕ) (f : BackupTarget → BackupTarget)
    (hf : ∀ t, (f t).pk = t.pk) : Database :=
  { db with targets := db.targets.update targetId f hf }

def markRunning (db : Database) (runId : ℕ) (startedAt : Instant) : Option Database := do
  let run ← db.runs.get? runId
  if run.status ≠ .queued then none
  else some (saveRun db runId (fun r =>
    { r with status := .running, startedAt := some startedAt, errorCode := "", errorMessage := "" })
    (fun _ => rfl))

/-- The snapshot of the newest revision; the outer `none` is a raised error. -/
def getLatestRevision (db : Database) (latest : Option ConfigRevision) :
    Option (Option RevisionSnapshot) :=
  match latest with
  | none => some none
  | some revision =>
    match (db.artifactsOf revision.pk).find? (fun a => a.isPrimary) with
    | none => none
    | some primary => some (some ⟨revision.pk, revision.normalizedHash, primary.rawHash⟩)

def markTargetSuccess (scheduler : Scheduler) (target : BackupTarget) (revision : Option ℕ)
    (finishedAt : Instant) (contentChanged : Bool) : BackupTarget :=
  let target := { target with
    status := .healthy
    lastAttemptAt := some finishedAt
    lastSuccessAt := some finishedAt
    consecutiveFailures := 0
    lastRevision := revision.or target.lastRevision
    lastChangeAt := if contentChanged then some finishedAt else target.lastChangeAt }
  if target.nextRunAt.isNone then
    { target with nextRunAt := scheduler.calculateTargetNextRun target finishedAt }
  else target

@[simp] theorem markTargetSuccess_pk (scheduler : Scheduler) (target : BackupTarget)
    (revision : Option ℕ) (finishedAt : Instant) (contentChanged : Bool) :
    (markTargetSuccess scheduler target revision finishedAt contentChanged).pk = target.pk := by
  unfold markTargetSuccess
  dsimp only
  split <;> rfl

theorem markTargetSuccess_lastRevision {scheduler : Scheduler} {target : BackupTarget} {pk : ℕ}
    {finishedAt : Instant} {contentChanged : Bool} :
    (markTargetSuccess scheduler target (some pk) finishedAt contentChanged).lastRevision =
      some pk := by
  unfold markTargetSuccess
  dsimp only
  split <;> rfl

def commitUnchanged (scheduler : Scheduler) (db : Database) (runId : ℕ)
    (latest : Option ConfigRevision) (rawChanged : Bool) (finishedAt : Instant) :
    Option Database := do
  let run ← db.runs.get? runId
  let target ← db.targets.get? run.target
  let revision := latest.map (fun r => r.pk)
  let db := saveRun db runId (fun r =>
    { r with
      status := .successUnchanged, finishedAt := some finishedAt, changed := false
      rawChanged := rawChanged, revision := revision }) (fun _ => rfl)
  some (saveTarget db target.pk (fun t => markTargetSuccess scheduler t revision finishedAt false)
    (fun _ => by simp))

def newRevision (targetId : ℕ) (commit : RevisionCommit) (previous : Option ℕ) (pk : ℕ) :
    ConfigRevision where
  pk := pk
  target := targetId
  revisionUuid := commit.revisionUuid
  created := commit.created
  normalizedHash := commit.normalizedHash
  normalizerVersion := commit.normalizerVersion
  driverId := commit.driverId
  contentChanged := commit.contentChanged
  isProtected := false
  previousRevision := previous

@[simp] theorem newRevision_pk (targetId : ℕ) (commit : RevisionCommit) (previous : Option ℕ)
    (pk : ℕ) : (newRevision targetId commit previous pk).pk = pk := rfl

def newArtifact (revisionId : ℕ) (record : StoredArtifactRecord) (pk : ℕ) : ConfigArtifact where
  pk := pk
  revision := revisionId
  artifactType := record.artifactType
  format := record.format
  storageKey := record.storageKey
  size := record.size
  rawHash := record.rawHash
  normalizedHash := record.normalizedHash
  isPrimary := record.isPrimary
  localAvailable := true
  localDeletedAt := none

@[simp] theorem newArtifact_pk (revisionId : ℕ) (record : StoredArtifactRecord) (pk : ℕ) :
    (newArtifact revisionId record pk).pk = pk := rfl

def createArtifacts (artifacts : Table ConfigArtifact ConfigArtifact.pk) (revisionId : ℕ)
    (records : List StoredArtifactRecord) : Table ConfigArtifact ConfigArtifact.pk :=
  records.foldl (fun t record => t.insert (newArtifact revisionId record)
    (newArtifact_pk _ _)) artifacts

def commitRevision (scheduler : Scheduler) (db : Database) (runId : ℕ)
    (previous : Option ConfigRevision) (commit : RevisionCommit) : Option Database := do
  let run ← db.runs.get? runId
  let target ← db.targets.get? run.target
  let pk := db.revisions.next
  let db := { db with
    revisions := db.revisions.insert
      (newRevision target.pk commit (previous.map (fun r => r.pk))) (newRevision_pk _ _ _)
    artifacts := createArtifacts db.artifacts pk commit.artifacts }
  let db := saveRun db runId (fun r =>
    { r with
      status := if commit.contentChanged then .successChanged else .successUnchanged
      finishedAt := some commit.finishedAt, changed := commit.contentChanged
      rawChanged := commit.rawChanged, revision := some pk }) (fun _ => rfl)
  some (saveTarget db target.pk
    (fun t => markTargetSuccess scheduler t (some pk) commit.finishedAt commit.contentChanged)
    (fun _ => by simp))

/-- A commit inserts the revision and its artifacts, and marks run and target. -/
theorem commitRevision_eq_some {scheduler : Scheduler} {db db' : Database} {runId : ℕ}
    {previous : Option ConfigRevision} {commit : RevisionCommit}
    (h : commitRevision scheduler db runId previous commit = some db') :
    ∃ run target, db.runs.get? runId = some run ∧ db.targets.get? run.target = some target ∧
      db' = { db with
        revisions := db.revisions.insert
          (newRevision target.pk commit (previous.map (fun r => r.pk))) (newRevision_pk _ _ _)
        artifacts := createArtifacts db.artifacts db.revisions.next commit.artifacts
        runs := db.runs.update runId (fun r =>
          { r with
            status := if commit.contentChanged then .successChanged else .successUnchanged
            finishedAt := some commit.finishedAt, changed := commit.contentChanged
            rawChanged := commit.rawChanged, revision := some db.revisions.next }) (fun _ => rfl)
        targets := db.targets.update target.pk (fun t => markTargetSuccess scheduler t
          (some db.revisions.next) commit.finishedAt commit.contentChanged)
          (fun _ => markTargetSuccess_pk _ _ _ _ _) } := by
  unfold commitRevision at h
  obtain ⟨run, hrun, h⟩ := Option.bind_eq_some_iff.mp h
  obtain ⟨target, htarget, h⟩ := Option.bind_eq_some_iff.mp h
  exact ⟨run, target, hrun, htarget, (Option.some.inj h).symm⟩

/-- How a run failed: its final status, error code and message. -/
structure RunFailure where
  status : RunStatus
  errorCode : String
  errorMessage : String
deriving DecidableEq, Repr

def markFailed (scheduler : Scheduler) (db : Database) (runId : ℕ) (failure : RunFailure)
    (finishedAt : Instant) : Option Database := do
  let run ← db.runs.get? runId
  let target ← db.targets.get? run.target
  let db := saveRun db runId (fun r =>
    { r with
      status := failure.status, finishedAt := some finishedAt
      errorCode := failure.errorCode, errorMessage := failure.errorMessage }) (fun _ => rfl)
  some (saveTarget db target.pk (fun t =>
    let failures := t.consecutiveFailures + 1
    { t with
      status := .failed, lastAttemptAt := some finishedAt, consecutiveFailures := failures
      nextRunAt := scheduler.failureNextRun { t with
        status := .failed, lastAttemptAt := some finishedAt, consecutiveFailures := failures }
        finishedAt failures }) (fun _ => rfl))

end ConfigBackup.Repository
