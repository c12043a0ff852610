import ConfigBackup.FinishedRuns
import ConfigBackup.NewestCopies
import ConfigBackup.RevisionHistory

/-!
The revision chain of one target over whole runs of commits, local and remote
cleanups and deletions. Remote cleanups remove rows without relinking, so the
chain stays connected along the runs in which they remove no revision that a
needed link of the chain still names.
-/

namespace ConfigBackup.ConnectedChain

open Calendar FinishedRuns GuardedRuns KeptRevisions LinkedHistory LocalRetention Models
  NewestCopies NewestFirst RemoteCleanup RemoteRetention Repository Retention RevisionDeletion
  RevisionHistory RunLifecycle Tables

/-- Anything else that happens: it leaves the target's history alone. -/
structure Environment (targetId : ℕ) where
  run : Database → Database
  keeps : ∀ db, historyOf (run db) targetId = historyOf db targetId

inductive Operation (targetId : ℕ)
  | commitRevision (runId : ℕ) (query : LatestQuery) (commit : RevisionCommit)
  | retentionCleanup (quarantine : Quarantine) (now : Instant)
  | remoteRetentionCleanup (server : Server) (now : Instant)
  | deleteEverywhere (quarantine : Quarantine) (server : Server) (revisionId : ℕ)
  | environment (change : Environment targetId)

/-- The revision belongs to another target than the given one. -/
def foreign (db : Database) (targetId revisionId : ℕ) : Bool :=
  (db.revisions.get? revisionId).any (fun r => r.target != targetId)

def step (scheduler : Scheduler) (targetId : ℕ) (db : Database) :
    Operation targetId → Option Database
  | .commitRevision runId query commit => do
    let run ← db.runs.get? runId
    if run.target ≠ targetId then none
    else commitRevision scheduler db runId (query.first (db.targetRevisions targetId)) commit
  | .retentionCleanup quarantine now =>
    some (executeRetentionCleanup quarantine targetId now db).db
  | .remoteRetentionCleanup server now =>
    some (executeRemoteRetentionCleanup server targetId now db).db
  | .deleteEverywhere quarantine server revisionId =>
    if foreign db targetId revisionId then none
    else some (deleteConfigRevisionEverywhere quarantine server revisionId db).db
  | .environment change => some (change.run db)

/-- A remote cleanup can remove the revision's row: it has no local files, the
plan expires one of its copies, and every other copy is no reason to keep it. -/
def Purgeable (db : Database) (target : BackupTarget) (now : Instant) (revisionId : ℕ) : Prop :=
  db.locallyAvailable revisionId = false ∧
  (∃ replica ∈ db.replicas, replica.revision = revisionId ∧ CopyExpires db target now replica) ∧
  ∀ replica ∈ db.replicas, replica.revision = revisionId → replica.remoteDeletedAt = none →
    CopyExpires db target now replica ∨
      ((replica.remoteAvailable || replica.remotePath != "") = false ∧
        (replica.status == .pending || transferPending replica) = false)

/-- Commits do not go back in time, and no remote cleanup may remove a revision
that a needed link of the chain names. -/
def guard (targetId : ℕ) (db : Database) : Operation targetId → Prop
  | .commitRevision _ _ commit =>
    ∀ r ∈ db.revisions, r.target = targetId → r.created ≤ commit.created
  | .remoteRetentionCleanup _ now => ∀ target, db.targets.get? targetId = some target →
    ∀ k p, (historyOf db targetId).NeedsLink k → (historyOf db targetId).PointsTo k p →
      ¬ Purgeable db target now p
  | _ => True

section Remote

variable {db : Database} {target : BackupTarget} {now : Instant}

/-- No plan expires a copy of the newest revision. -/
theorem not_copyExpires_of_newest {replica : RevisionReplica}
    (hnewest : (historyOf db target.pk).Newest replica.revision) :
    ¬ CopyExpires db target now replica := by
  intro ⟨_, _, destination, _, _, _, revision, hkey, _, _, hrecorded, policy, _, _, hkept⟩
  apply hkept
  apply kept_of_latest
  intro candidate hcandidate hnewer
  obtain ⟨other, hother, rfl⟩ := List.mem_map.mp hcandidate
  obtain ⟨hmem, hrt, _⟩ := mem_recordedCopies.mp hrecorded
  obtain ⟨hotherMem, hotherTarget, _⟩ := mem_recordedCopies.mp hother
  apply hnewest.2 other.pk
  rw [← hkey]
  exact (precedes_iff_older hmem hotherMem hrt hotherTarget).mpr hnewer

/-- What a cleanup removes was purgeable before it. -/
theorem purgeable_of_removed {calls : List ℕ} {k : ℕ}
    (hcalls : CallsExpired db target now calls)
    (howns : ownsNothing (tombstoned db now calls) k = true)
    (hdeleted : ∃ replica ∈ db.replicas, replica.revision = k ∧ replica.pk ∈ calls) :
    Purgeable db target now k := by
  have hexpires : ∀ replica ∈ db.replicas, replica.pk ∈ calls →
      CopyExpires db target now replica := by
    intro replica hreplica hcalled
    obtain ⟨copy, hkey, hcopy⟩ := hcalls replica.pk hcalled
    have hsame := db.replicas.eq_of_key_eq (mem_lockedReplicas.mp hcopy.1).1 hreplica hkey
    exact hsame ▸ hcopy
  simp only [ownsNothing, Bool.and_eq_true, Bool.not_eq_true'] at howns
  obtain ⟨⟨hlocal, hrecorded⟩, hpending⟩ := howns
  refine ⟨hlocal, ?_, ?_⟩
  · obtain ⟨replica, hreplica, hrev, hcalled⟩ := hdeleted
    exact ⟨replica, hreplica, hrev, hexpires replica hreplica hcalled⟩
  · intro replica hreplica hrev halive
    by_cases hcalled : replica.pk ∈ calls
    · exact Or.inl (hexpires replica hreplica hcalled)
    · -- the row is not in the log, so the commit reads it unchanged
      have hrow : replica ∈ (tombstoned db now calls).replicasOf k := by
        refine List.mem_filter.mpr ⟨?_, by simpa using hrev⟩
        exact List.mem_map.mpr ⟨replica, hreplica, by rw [if_neg hcalled]⟩
      have h1 := List.any_eq_false.mp hrecorded replica hrow
      have h2 := List.any_eq_false.mp hpending replica hrow
      rw [halive] at h1 h2
      exact Or.inr ⟨by simpa using h1, by simpa using h2⟩

end Remote

section Steps

variable {scheduler : Scheduler} {targetId : ℕ} {db db' : Database}

theorem wellLinked_remoteRetentionCleanup {server : Server} {now : Instant}
    (hw : (historyOf db targetId).WellLinked)
    (hguard : guard targetId db (.remoteRetentionCleanup server now)) :
    (historyOf (executeRemoteRetentionCleanup server targetId now db).db targetId).WellLinked := by
  cases htarget : db.targets.get? targetId with
  | none => rwa [(cleanup_refused (Or.inl htarget)).1]
  | some target =>
    cases hactive : db.hasActiveRun targetId with
    | true => rwa [(cleanup_refused (Or.inr hactive)).1]
    | false =>
      have hkey : target.pk = targetId := ((Table.get?_eq_some_iff _ _ _).mp htarget).2
      subst hkey
      obtain ⟨hcalls, hsame | ⟨⟨gone, hdb, hgone⟩, _⟩⟩ := @cleanup_spec db target.pk target now server
        htarget hactive
      · rwa [hsame]
      · rw [hdb, historyOf_deleteRevisions, historyOf_tombstoned]
        have hpurgeable : ∀ k, gone k = true → Purgeable db target now k :=
          fun k hk => purgeable_of_removed hcalls (hgone k hk).1 (hgone k hk).2
        apply hw.remove
        · intro k p hneeds hpoints
          by_contra hp
          exact hguard target htarget k p hneeds hpoints (hpurgeable p (by simpa using hp))
        · intro l _ hcases
          by_contra hl
          have hpurge := hpurgeable l (by simpa using hl)
          rcases hcases with havail | hnewest
          · have hlocal := (available_historyOf.mp havail).2
            rw [hpurge.1] at hlocal
            cases hlocal
          · obtain ⟨replica, _, hrev, hexpires⟩ := hpurge.2.1
            rw [← hrev] at hnewest
            exact not_copyExpires_of_newest hnewest hexpires

theorem wellLinked_step {operation : Operation targetId}
    (hw : (historyOf db targetId).WellLinked) (hguard : guard targetId db operation)
    (h : step scheduler targetId db operation = some db') :
    (historyOf db' targetId).WellLinked := by
  cases operation with
  | commitRevision runId query commit =>
    simp only [step] at h
    obtain ⟨run, hrun, hcommit⟩ := Option.bind_eq_some_iff.mp h
    split at hcommit
    · cases hcommit
    · rename_i htarget
      rw [not_not] at htarget
      subst htarget
      obtain ⟨new, happended⟩ :=
        appended_commitRevision hrun (query.valid _) hguard hcommit
      exact happended.wellLinked hw
  | retentionCleanup quarantine now =>
    simp only [step, Option.some.injEq] at h
    subst h
    rcases executeRetentionCleanup_db quarantine targetId now db with
      hsame | ⟨htarget, revisionIds, runIds, hdb⟩
    · rwa [hsame]
    · rw [hdb]
      exact wellLinked_applyRetention hw htarget
  | remoteRetentionCleanup server now =>
    simp only [step, Option.some.injEq] at h
    subst h
    exact wellLinked_remoteRetentionCleanup hw hguard
  | deleteEverywhere quarantine server revisionId =>
    simp only [step] at h
    split at h
    · cases h
    · rename_i hown
      rw [Option.some.injEq] at h
      subst h
      rcases deleteConfigRevisionEverywhere_db quarantine server revisionId db with
        hsame | ⟨revision, hrevision, htarget, hdb⟩
      · rwa [hsame]
      · have hrt : revision.target = targetId := by simpa [foreign, hrevision] using hown
        rw [hdb]
        subst hrt
        exact wellLinked_removeRevision hw htarget
  | environment change =>
    simp only [step, Option.some.injEq] at h
    subst h
    rwa [change.keeps]

end Steps

/-- The new target, with a local storage that keeps two changed revisions and
an FTP storage that keeps one copy. -/
def chainDatabase : Database where
  targets := newTargetDatabase.targets
  destinations := ⟨[
    { exampleDestination with
      protocol := .localStorage, isDefault := true, autoReplicate := false
      localRetentionPolicy := some 1, remoteRetentionPolicy := none },
    { exampleDestination with pk := 2 }], 3, by decide, by decide⟩
  backupPolicies := Table.empty
  retentionPolicies := ⟨[⟨1, 7, 0, 0, 0, 2, 90, 180, 180, 500⟩], 2, by decide, by decide⟩
  remotePolicies := ⟨[⟨1, 0, 0, 0, 0, 1, some 1⟩], 2, by decide, by decide⟩
  revisions := Table.empty
  artifacts := Table.empty
  replicas := Table.empty
  runs := Table.empty

def startedRun (now : Instant) (pk : ℕ) : BackupRun :=
  { newRun 1 now none pk with status := .running, startedAt := some now }

def startRun (now : Instant) : Environment 1 where
  run db := { db with runs := db.runs.insert (startedRun now) (fun _ => rfl) }
  keeps _ := rfl

def upload (revisionId : ℕ) : Environment 1 where
  run db := { db with
    replicas := db.replicas.insert
      (fun pk => { exampleCopy with pk := pk, revision := revisionId, destination := 2 })
      (fun _ => rfl) }
  keeps _ := rfl

def protect (revisionId : ℕ) : Environment 1 where
  run db := { db with
    revisions := db.revisions.update revisionId (fun r => { r with isProtected := true })
      (fun _ => rfl) }
  keeps db := by
    unfold historyOf
    congr 1
    funext k
    dsimp only
    rw [Table.get?_update]
    split
    · cases db.revisions.get? k with
      | none => rfl
      | some r =>
        by_cases hrt : r.target = 1
        · simp [Option.filter_some, hrt, entryOf, Database.locallyAvailable, Database.artifactsOf]
        · simp [Option.filter_some, hrt]
    · rfl

/-- Every file is staged, restored and purged. -/
def openQuarantine : Quarantine := ⟨fun _ => some true, fun _ => true, fun _ => true⟩

def dayCommit (name : String) (day : ℕ) : RevisionCommit where
  revisionUuid := name
  normalizedHash := name
  normalizerVersion := "1"
  driverId := "driver"
  contentChanged := true
  rawChanged := true
  artifacts := [⟨"running", "text", name, 5, name, name, true⟩]
  created := days day
  finishedAt := days day

/-- Four commits; the oldest revision is protected, the next two are uploaded. -/
def fourCommits : List (Operation 1) :=
  [.environment (startRun (days 0)), .commitRevision 1 newestQuery (dayCommit "a" 0),
    .environment (startRun (days 1)),
    .commitRevision 2 newestQuery (dayCommit "b" 1),
    .environment (startRun (days 2)),
    .commitRevision 3 newestQuery (dayCommit "c" 2),
    .environment (startRun (days 3)),
    .commitRevision 4 newestQuery (dayCommit "d" 3),
    .environment (protect 1), .environment (upload 2), .environment (upload 3)]

/-- The local cleanup keeps revisions 1, 3 and 4, deleting 4 points 3 back to
2, and the remote cleanup removes 2 with its expired copy. -/
def monthOfCleanups : List (Operation 1) :=
  [.retentionCleanup openQuarantine (days 30), .deleteEverywhere openQuarantine willing 4,
    .remoteRetentionCleanup willing (days 31)]

def oneCommit : List (Operation 1) :=
  [.environment (startRun (days 0)), .commitRevision 1 newestQuery (dayCommit "a" 0),
    .remoteRetentionCleanup willing (days 31)]

theorem guarded_oneCommit :
    Guarded (step noSchedule 1) (guard 1) chainDatabase oneCommit := by
  refine ⟨trivial, fun s hs => ?_⟩
  cases hs
  refine ⟨fun r hr _ => absurd hr (Table.mem_empty r), fun s hs => ?_⟩
  cases hs
  refine ⟨?_, fun _ _ => trivial⟩
  intro target _ k p _ ⟨e, he, hp⟩
  obtain ⟨r, hr, _, _, hre⟩ := entry_historyOf.mp he
  rw [← hre, List.mem_singleton.mp hr] at hp
  cases hp

def brokenChain : Database :=
  (exec (step noSchedule 1) chainDatabase (fourCommits ++ monthOfCleanups)).getD chainDatabase

theorem exec_brokenChain : exec (step noSchedule 1) chainDatabase
    (fourCommits ++ monthOfCleanups) = some brokenChain := by
  have hsome : (exec (step noSchedule 1) chainDatabase
      (fourCommits ++ monthOfCleanups)).isSome = true := by decide +kernel
  obtain ⟨final, hfinal⟩ := Option.isSome_iff_exists.mp hsome
  rw [brokenChain, hfinal]
  rfl

end ConfigBackup.ConnectedChain
