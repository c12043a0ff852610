import ConfigBackup.RevisionDeletion
import ConfigBackup.StagedDeletion

/-!
The local retention cleanup and the deletion of one revision, statement by statement
over the local files. Reads that follow one another without a staging between them
are one query, and the row updates of a relinking are one statement: what they leave
when one of them raises is undone.
-/

namespace ConfigBackup.LocalDeletions

open Calendar ExceptLoops LocalRetention LocalStorage Models NewestFirst RemoteRetention Retention
  RevisionChain RevisionDeletion StagedDeletion Tables Transactions

section Cleanup

/-- `f"retention-{target_id}-{uuid4().hex}"`. -/
def retentionNamespace (targetId : ℕ) (hex : String) : String :=
  "retention-" ++ toString targetId ++ "-" ++ hex

def expiredArtifacts (db : Database) (revisionIds : List ℕ) : List ConfigArtifact :=
  db.artifacts.rows.filter (fun a => revisionIds.contains a.revision && a.localAvailable)

variable (fails : ℕ → Bool) (ns : String) (targetId : ℕ) (now : Instant)

/-- Without an artifact there is no statement. -/
def saveUnavailable (artifacts : List ConfigArtifact) (revisionIds : List ℕ) :
    Program Database StagedWorld LocalRetention.Failure Unit :=
  if artifacts.isEmpty then pure ()
  else update fails .other (fun db => markUnavailable db now revisionIds)

/-- Stage the files of the expired revisions, then write their rows. -/
def removeExpired (rows : Database) (revisionIds runIds : List ℕ) (deferredCount : ℕ) :
    Program Database StagedWorld LocalRetention.Failure RetentionCleanupSummary := do
  let artifacts ← select fails .other (fun db => expiredArtifacts db revisionIds)
  let missing ← stageKeys fails .storage ns (artifacts.map (fun a => a.storageKey))
  saveUnavailable fails now artifacts revisionIds
  let revisions := newestFirst ConfigRevision.newer (rows.targetRevisions targetId)
  update fails .other (fun db => relinkKeptRevisions db targetId revisions
    (fun pk => revisionIds.contains pk || !rows.locallyAvailable pk))
  update fails .other (fun db => { db with
    runs := db.runs.filter (fun r => !runIds.contains r.pk) })
  let databaseRevisionIds := revisionIds.filter (fun pk =>
    !hasRecordedRemoteCopy (rows.replicasOf pk))
  update fails .other (fun db => db.deleteRevisions (fun pk => databaseRevisionIds.contains pk))
  pure {
    targetId := targetId
    runCount := runIds.length
    revisionCount := revisionIds.length
    artifactCount := artifacts.length
    artifactBytes := (artifacts.map (fun a => a.size)).sum
    missingArtifactCount := missing
    quarantinePurgeFailures := 0
    deferredRevisionCount := deferredCount }

def cleanupBody : Program Database StagedWorld LocalRetention.Failure RetentionCleanupSummary := do
  let target ← require fails .other .other (fun db => db.targets.get? targetId)
  let active ← select fails .other (fun db => db.hasActiveRun targetId)
  if active then
    throw (.cleanup "Retention cleanup cannot run while the target has an active backup.")
  else do
    let storage ← require fails .other .other localStorage
    let policyId ← require fails .other
      (.cleanup "The backup target has no effective Local retention profile.")
      (fun db => effectiveLocalRetentionPolicyId db target storage)
    let policy ← require fails .other .other (fun db => db.retentionPolicies.get? policyId)
    let rows ← select fails .other id
    match retentionWork rows now targetId policy with
    | none => throw .other
    | some (revisionIds, runIds, deferredCount) =>
      removeExpired fails ns targetId now rows revisionIds runIds deferredCount

/-- `execute_retention_cleanup`. -/
def executeRetentionCleanup (faults : DeletionFaults) (hex : String) (db : Database)
    (objects : Objects) : StagedOutcome Database RetentionCleanupSummary :=
  stagedDeletion faults .other LocalRetention.Failure.message
    "Retention cleanup failed and quarantined files could not be fully restored."
    (fun summary failures => { summary with quarantinePurgeFailures := failures })
    (cleanupBody faults.call (retentionNamespace targetId hex) targetId now) db objects

end Cleanup

section CleanupRows

variable {fails : ℕ → Bool} {ns : String} {targetId : ℕ} {now : Instant} {db : Database}
  {objects : Objects}

/-- What the plan selects, when the cleanup gets as far as its plan. -/
def plannedWork (db : Database) (now : Instant) (targetId : ℕ) : Option (List ℕ × List ℕ × ℕ) := do
  let target ← db.targets.get? targetId
  let storage ← localStorage db
  let policyId ← effectiveLocalRetentionPolicyId db target storage
  let policy ← db.retentionPolicies.get? policyId
  retentionWork db now targetId policy

/-- The storage keys of the selected artifacts. -/
def cleanupKeys (db : Database) (now : Instant) (targetId : ℕ) : List String :=
  match plannedWork db now targetId with
  | none => []
  | some (revisionIds, _, _) => (expiredArtifacts db revisionIds).map (fun a => a.storageKey)

theorem markUnavailable_of_empty {revisionIds : List ℕ}
    (h : expiredArtifacts db revisionIds = []) : markUnavailable db now revisionIds = db := by
  have hrows : (db.artifacts.map (fun a =>
      if revisionIds.contains a.revision && a.localAvailable then
        { a with localAvailable := false, localDeletedAt := some now } else a)
      (fun a => by split <;> rfl)) = db.artifacts := by
    apply Table.ext
    · show db.artifacts.rows.map _ = db.artifacts.rows
      refine (List.map_congr_left (fun a ha => ?_)).trans (List.map_id _)
      exact if_neg (List.filter_eq_nil_iff.mp h a ha)
    · rfl
  unfold markUnavailable
  rw [hrows]

/-- A cleanup that returns has staged the selected files and applied its plan. -/
def CleanupDone (ns : String) (objects : Objects) (db : Database) (now : Instant) (targetId : ℕ)
    (d : Database) (w : StagedWorld) : Prop :=
  (StagedBy ns objects (cleanupKeys db now targetId) w ∧ w.calls = []) ∧
    db.hasActiveRun targetId = false ∧ ∃ revisionIds runIds deferredCount,
      plannedWork db now targetId = some (revisionIds, runIds, deferredCount) ∧
      d = applyRetention db now targetId revisionIds runIds

theorem triple_removeExpired {revisionIds runIds : List ℕ} {deferredCount : ℕ}
    (hwork : plannedWork db now targetId = some (revisionIds, runIds, deferredCount))
    (hactive : db.hasActiveRun targetId = false) :
    Triple (fun d w => d = db ∧ StagedBy ns objects [] w ∧ w.calls = [])
      (removeExpired fails ns targetId now db revisionIds runIds deferredCount)
      (fun _ d w => CleanupDone ns objects db now targetId d w)
      (fun _ w => Staging ns objects (cleanupKeys db now targetId) (fun calls => calls = [])
        w) := by
  have hkeys : cleanupKeys db now targetId =
      (expiredArtifacts db revisionIds).map (fun a => a.storageKey) := by
    unfold cleanupKeys
    rw [hwork]
  have hstart : ∀ (d : Database) w, d = db ∧ StagedBy ns objects [] w ∧ w.calls = [] →
      Staging ns objects (cleanupKeys db now targetId) (fun calls => calls = []) w :=
    fun d w h => ⟨⟨[], List.nil_prefix, h.2.1⟩, h.2.2⟩
  have hstaging : ∀ (start d : Database) w,
      d = start ∧ StagedBy ns objects (cleanupKeys db now targetId) w ∧ w.calls = [] →
        Staging ns objects (cleanupKeys db now targetId) (fun calls => calls = []) w :=
    fun start d w h => ⟨⟨_, List.prefix_refl _, h.2.1⟩, h.2.2⟩
  unfold removeExpired
  refine (triple_select hstart).bind (fun artifacts => Triple.assume (fun hartifacts => ?_))
  have hstage := @triple_stageKeys Database LocalRetention.Failure ns objects
    (artifacts.map (fun a => a.storageKey)) (fun calls => calls = []) fails .storage db
  rw [hartifacts, ← hkeys] at hstage
  have hmark : Triple (fun d w => d = db ∧ StagedBy ns objects (cleanupKeys db now targetId) w ∧
        w.calls = [])
      (saveUnavailable fails now artifacts revisionIds)
      (fun _ d w => d = markUnavailable db now revisionIds ∧
        StagedBy ns objects (cleanupKeys db now targetId) w ∧ w.calls = [])
      (fun _ w => Staging ns objects (cleanupKeys db now targetId) (fun calls => calls = [])
        w) := by
    unfold saveUnavailable
    split
    · rename_i hempty
      rw [hartifacts] at hempty
      refine triple_pure (fun d w h => ⟨?_, h.2⟩)
      rw [markUnavailable_of_empty (List.isEmpty_iff.mp hempty)]
      exact h.1
    · exact triple_update (hstaging _)
  rw [hartifacts, ← hkeys, ← hartifacts]
  refine hstage.bind (fun missing => ?_)
  refine hmark.bind (fun _ => ?_)
  refine (triple_update (hstaging _)).bind (fun _ => ?_)
  refine (triple_update (hstaging _)).bind (fun _ => ?_)
  refine (triple_update (hstaging _)).bind (fun _ => ?_)
  exact triple_pure (fun d w h => ⟨h.2, hactive, revisionIds, runIds, deferredCount, hwork, h.1⟩)

theorem triple_cleanupBody :
    Triple (fun d w => d = db ∧ w = ⟨objects, [], []⟩) (cleanupBody fails ns targetId now)
      (fun _ d w => CleanupDone ns objects db now targetId d w)
      (fun _ w => Staging ns objects (cleanupKeys db now targetId) (fun calls => calls = [])
        w) := by
  have hstart : ∀ (d : Database) w, d = db ∧ w = ⟨objects, [], []⟩ →
      Staging ns objects (cleanupKeys db now targetId) (fun calls => calls = []) w := by
    intro d w h
    rw [h.2]
    exact staging_start ns objects _ rfl
  unfold cleanupBody
  refine (triple_require hstart).bind (fun target => Triple.assume (fun htarget => ?_))
  refine (triple_select hstart).bind (fun active => Triple.assume (fun hactive => ?_))
  cases active with
  | true => exact triple_throw hstart
  | false =>
    refine (triple_require hstart).bind (fun storage => Triple.assume (fun hstorage => ?_))
    refine (triple_require hstart).bind (fun policyId => Triple.assume (fun hpolicyId => ?_))
    refine (triple_require hstart).bind (fun policy => Triple.assume (fun hpolicy => ?_))
    refine (triple_select hstart).bind (fun rows => Triple.assume (fun hrows => ?_))
    rw [hrows, id_eq]
    cases hwork : retentionWork db now targetId policy with
    | none => exact triple_throw hstart
    | some work =>
      obtain ⟨revisionIds, runIds, deferredCount⟩ := work
      have hplanned : plannedWork db now targetId = some (revisionIds, runIds, deferredCount) := by
        simp only [plannedWork, htarget, hstorage, hpolicyId, hpolicy, Option.bind_eq_bind,
          Option.bind_some, hwork]
      refine (triple_removeExpired hplanned hactive.symm).weaken (fun d w h => ?_)
      rw [h.2]
      exact ⟨h.1, stagedBy_start ns objects [], rfl⟩

/-- The rows after a cleanup: unchanged, or with the plan applied. -/
theorem executeRetentionCleanup_rows (faults : DeletionFaults) (hex : String) :
    let outcome := executeRetentionCleanup targetId now faults hex db objects
    (outcome.db = db ∧ ∃ text, outcome.result = .error text) ∨
      (db.hasActiveRun targetId = false ∧ ∃ revisionIds runIds deferredCount,
        plannedWork db now targetId = some (revisionIds, runIds, deferredCount) ∧
        outcome.db = applyRetention db now targetId revisionIds runIds) := by
  rcases stagedDeletion_cases faults LocalRetention.Failure.other LocalRetention.Failure.message
      "Retention cleanup failed and quarantined files could not be fully restored."
      (fun (summary : RetentionCleanupSummary) failures =>
        { summary with quarantinePurgeFailures := failures }) triple_cleanupBody
      (fun _ d w h => ⟨⟨_, List.prefix_refl _, h.1.1⟩, h.1.2⟩) with
    ⟨a, w, hdone, _⟩ | ⟨text, w, _, hdb, _, _, hresult⟩
  · exact Or.inr hdone.2
  · exact Or.inl ⟨hdb, text, hresult⟩

theorem retentionTransaction_planned {quarantine : Quarantine} {db' : Database}
    {summary : RetentionCleanupSummary} {staged : List String}
    (h : retentionTransaction quarantine targetId now db = .ok (summary, staged, db')) :
    ∃ revisionIds runIds deferredCount,
      plannedWork db now targetId = some (revisionIds, runIds, deferredCount) ∧
      db' = applyRetention db now targetId revisionIds runIds := by
  unfold retentionTransaction at h
  unfold plannedWork
  split at h
  · cases h
  · rename_i target htarget
    split at h
    · cases h
    · split at h
      · cases h
      · rename_i storage hstorage
        split at h
        · cases h
        · rename_i policyId hpolicyId
          split at h
          · cases h
          · rename_i revisionIds runIds deferredCount hwork
            dsimp only at h
            split at h
            · cases h
            · rw [Except.ok.injEq, Prod.mk.injEq, Prod.mk.injEq] at h
              refine ⟨revisionIds, runIds, deferredCount, ?_, h.2.2.symm⟩
              simp only [htarget, hstorage, hpolicyId, Option.bind_eq_bind, Option.bind_some]
              exact hwork

/-- Both models of the cleanup leave the same rows when both return. -/
theorem cleanup_rows_agree {quarantine : Quarantine} {faults : DeletionFaults} {hex : String}
    {a b : RetentionCleanupSummary}
    (ha : (LocalRetention.executeRetentionCleanup quarantine targetId now db).result = .ok a)
    (hb : (executeRetentionCleanup targetId now faults hex db objects).result = .ok b) :
    (executeRetentionCleanup targetId now faults hex db objects).db =
      (LocalRetention.executeRetentionCleanup quarantine targetId now db).db := by
  rcases @executeRetentionCleanup_rows targetId now db objects faults hex with
    ⟨_, text, hraised⟩ | ⟨_, revisionIds, runIds, deferredCount, hplanned, hdb⟩
  · rw [hraised] at hb
    cases hb
  · unfold LocalRetention.executeRetentionCleanup at ha ⊢
    cases htransaction : retentionTransaction quarantine targetId now db with
    | error failure =>
      simp only [htransaction] at ha
      split at ha <;> cases ha
    | ok result =>
      obtain ⟨summary, staged, db'⟩ := result
      obtain ⟨revisionIds', runIds', deferredCount', hplanned', hdb'⟩ :=
        retentionTransaction_planned htransaction
      rw [hplanned, Option.some.injEq, Prod.mk.injEq, Prod.mk.injEq] at hplanned'
      rw [hdb, hdb', hplanned'.1, hplanned'.2.1]

end CleanupRows

section Revision

/-- `f"revision-delete-{revision_id}-{uuid4().hex}"`. -/
def revisionNamespace (revisionId : ℕ) (hex : String) : String :=
  "revision-delete-" ++ toString revisionId ++ "-" ++ hex

/-- Delete one remote copy; the call stays in the log whatever happens later. -/
def deleteCopy (server : Server) (p : RemoteProgress) (replica : RevisionReplica) :
    Program Database StagedWorld DeletionFailure RemoteProgress := fun s =>
  match deleteCopies server p replica with
  | .error (failure, calls) => .error failure { s with world := { s.world with calls := calls } }
  | .ok q => .ok q { s with world := { s.world with calls := q.calls } }

variable (fails : ℕ → Bool) (ns : String) (server : Server) (revisionId : ℕ)

/-- Stage the files, delete the remote copies, then remove the rows. -/
def removeEverywhere (targetId : ℕ) (artifacts : List ConfigArtifact)
    (replicas : List RevisionReplica) :
    Program Database StagedWorld DeletionFailure RevisionDeletionSummary := do
  let missing ← stageKeys fails .storage ns (artifacts.map (fun a => a.storageKey))
  let p ← replicas.foldlM (deleteCopy server) ⟨[], 0, 0, 0⟩
  let revisions ← select fails .other (fun db => db.targetRevisions targetId)
  update fails .other (fun db => relinkKeptRevisions db targetId revisions
    (fun pk => pk == revisionId))
  let detached ← select fails .other (fun db =>
    (db.runs.rows.filter (fun r => r.revision == some revisionId)).length)
  update fails .other (fun db => db.deleteRevisions (fun pk => pk == revisionId))
  pure {
    revisionId := revisionId
    artifactCount := artifacts.length
    artifactBytes := (artifacts.map (fun a => a.size)).sum
    localFileCount := artifacts.length - missing
    missingLocalFileCount := missing
    replicaCount := p.replicaCount
    remoteFileCount := p.remoteFileCount
    missingRemoteFileCount := p.missingRemoteFileCount
    detachedRunCount := detached
    quarantinePurgeFailures := 0 }

def deletionBody : Program Database StagedWorld DeletionFailure RevisionDeletionSummary := do
  let revision ← require fails .other .missing (fun db => db.revisions.get? revisionId)
  let target ← require fails .other .other (fun db => db.targets.get? revision.target)
  if revision.isProtected then
    throw (.deletion "The revision is protected. Unprotect it before deleting it.")
  else do
    let active ← select fails .other (fun db => db.hasActiveRun target.pk)
    if active then
      throw (.deletion ("The target has an active backup run. Wait for it to finish before " ++
        "deleting the revision."))
    else do
      let artifacts ← select fails .other (fun db => db.artifactsOf revisionId)
      let replicas ← select fails .other (fun db => db.replicasOf revisionId)
      let refusal ← select fails .other (fun db => replicas.findSome? (validateReplica db))
      match refusal with
      | some failure => throw failure
      | none => removeEverywhere fails ns server revisionId target.pk artifacts replicas

/-- `delete_config_revision_everywhere`. -/
def deleteConfigRevisionEverywhere (faults : DeletionFaults) (hex : String) (db : Database)
    (objects : Objects) : StagedOutcome Database RevisionDeletionSummary :=
  stagedDeletion faults .other DeletionFailure.message
    "Revision deletion failed and quarantined local files could not be fully restored."
    (fun summary failures => { summary with quarantinePurgeFailures := failures })
    (deletionBody faults.call (revisionNamespace revisionId hex) server revisionId) db objects

end Revision

section RevisionRows

variable {fails : ℕ → Bool} {ns : String} {server : Server} {revisionId : ℕ} {db : Database}
  {objects : Objects}

/-- The storage keys of the revision's artifacts. -/
def revisionKeys (db : Database) (revisionId : ℕ) : List String :=
  (db.artifactsOf revisionId).map (fun a => a.storageKey)

/-- Only copies of the revision are deleted, and none of its transfers is pending. -/
def OwnCopies (db : Database) (revisionId : ℕ) (calls : List ℕ) : Prop :=
  ∀ pk ∈ calls, (∃ replica ∈ db.replicasOf revisionId, replica.pk = pk) ∧
    (db.replicasOf revisionId).findSome? (validateReplica db) = none

/-- A deletion that returns has staged the revision's files and removed its row. -/
def DeletionDone (ns : String) (objects : Objects) (db : Database) (revisionId : ℕ) (d : Database)
    (w : StagedWorld) : Prop :=
  (StagedBy ns objects (revisionKeys db revisionId) w ∧ OwnCopies db revisionId w.calls) ∧
    (db.replicasOf revisionId).findSome? (validateReplica db) = none ∧
    ∃ revision, db.revisions.get? revisionId = some revision ∧
      d = removeRevision db revision.target revisionId

theorem outcome_deleteCopies {p : RemoteProgress} {replica : RevisionReplica}
    (hreplica : replica ∈ db.replicasOf revisionId)
    (hvalid : (db.replicasOf revisionId).findSome? (validateReplica db) = none)
    (hcalls : OwnCopies db revisionId p.calls) :
    Outcome (fun q : RemoteProgress => OwnCopies db revisionId q.calls)
      (fun e => OwnCopies db revisionId e.2) (deleteCopies server p replica) := by
  have hown : OwnCopies db revisionId (p.calls ++ [replica.pk]) := by
    intro pk hpk
    rcases List.mem_append.mp hpk with hpk | hpk
    · exact hcalls pk hpk
    · exact ⟨⟨replica, hreplica, (List.mem_singleton.mp hpk).symm⟩, hvalid⟩
  unfold deleteCopies
  split
  · exact hcalls
  · cases server.delete replica with
    | ok result => exact hown
    | error failure =>
      cases failure with
      | destination errorCode => exact hown
      | cleanup text => exact hown
      | other => exact hown

theorem triple_deleteCopy {p : RemoteProgress} {replica : RevisionReplica}
    (hreplica : replica ∈ db.replicasOf revisionId)
    (hvalid : (db.replicasOf revisionId).findSome? (validateReplica db) = none)
    (hcalls : OwnCopies db revisionId p.calls) :
    Triple (fun d w => d = db ∧ StagedBy ns objects (revisionKeys db revisionId) w ∧
      OwnCopies db revisionId w.calls)
      (deleteCopy server p replica)
      (fun q d w => OwnCopies db revisionId q.calls ∧ d = db ∧
        StagedBy ns objects (revisionKeys db revisionId) w ∧
        OwnCopies db revisionId w.calls)
      (fun _ w => Staging ns objects (revisionKeys db revisionId) (OwnCopies db revisionId) w) := by
  intro s ⟨hdb, hstaged, _⟩
  have hrun := @outcome_deleteCopies server revisionId db p replica hreplica hvalid hcalls
  unfold deleteCopy
  cases hdelete : deleteCopies server p replica with
  | ok q =>
    rw [hdelete] at hrun
    exact ⟨hrun, hdb, hstaged, hrun⟩
  | error failure =>
    rw [hdelete] at hrun
    exact ⟨⟨_, List.prefix_refl _, hstaged⟩, hrun⟩

theorem triple_deleteCopies {replicas : List RevisionReplica}
    {p : RemoteProgress} (hreplicas : ∀ replica ∈ replicas, replica ∈ db.replicasOf revisionId)
    (hvalid : (db.replicasOf revisionId).findSome? (validateReplica db) = none)
    (hcalls : OwnCopies db revisionId p.calls) :
    Triple (fun d w => d = db ∧ StagedBy ns objects (revisionKeys db revisionId) w ∧
      OwnCopies db revisionId w.calls)
      (replicas.foldlM (deleteCopy server) p)
      (fun _ d w => d = db ∧ StagedBy ns objects (revisionKeys db revisionId) w ∧
        OwnCopies db revisionId w.calls)
      (fun _ w => Staging ns objects (revisionKeys db revisionId) (OwnCopies db revisionId) w) := by
  induction replicas generalizing p with
  | nil => exact triple_pure (fun _ _ h => h)
  | cons replica rest ih =>
    rw [List.foldlM_cons]
    refine (triple_deleteCopy (hreplicas replica List.mem_cons_self) hvalid hcalls).bind
      (fun q => Triple.assume (fun hq => ?_))
    exact ih (fun other hother => hreplicas other (List.mem_cons_of_mem _ hother)) hq

theorem triple_removeEverywhere {revision : ConfigRevision}
    (hrevision : db.revisions.get? revisionId = some revision)
    (hvalid : (db.replicasOf revisionId).findSome? (validateReplica db) = none) :
    Triple (fun d w => d = db ∧ StagedBy ns objects [] w ∧ OwnCopies db revisionId w.calls)
      (removeEverywhere fails ns server revisionId revision.target (db.artifactsOf revisionId)
        (db.replicasOf revisionId))
      (fun _ d w => DeletionDone ns objects db revisionId d w)
      (fun _ w => Staging ns objects (revisionKeys db revisionId) (OwnCopies db revisionId) w) := by
  have hnone : OwnCopies db revisionId [] := fun pk hpk => absurd hpk List.not_mem_nil
  have hstaging : ∀ (start d : Database) w, d = start ∧
      StagedBy ns objects (revisionKeys db revisionId) w ∧ OwnCopies db revisionId w.calls →
        Staging ns objects (revisionKeys db revisionId) (OwnCopies db revisionId) w :=
    fun start d w h => ⟨⟨_, List.prefix_refl _, h.2.1⟩, h.2.2⟩
  have hstage := @triple_stageKeys Database DeletionFailure ns objects (revisionKeys db revisionId)
    (OwnCopies db revisionId) fails .storage db
  unfold removeEverywhere
  refine hstage.bind (fun missing => ?_)
  refine (triple_deleteCopies (fun _ h => h) hvalid hnone).bind (fun p => ?_)
  refine (triple_select (hstaging _)).bind (fun revisions => Triple.assume (fun hrevisions => ?_))
  rw [hrevisions]
  refine (triple_update (hstaging _)).bind (fun _ => ?_)
  refine (triple_select (hstaging _)).bind (fun detached => Triple.assume (fun _ => ?_))
  refine (triple_update (hstaging _)).bind (fun _ => ?_)
  exact triple_pure (fun d w h => ⟨h.2, hvalid, revision, hrevision, h.1⟩)

theorem triple_deletionBody :
    Triple (fun d w => d = db ∧ w = ⟨objects, [], []⟩) (deletionBody fails ns server revisionId)
      (fun _ d w => DeletionDone ns objects db revisionId d w)
      (fun _ w => Staging ns objects (revisionKeys db revisionId) (OwnCopies db revisionId) w) := by
  have hnone : OwnCopies db revisionId [] := fun pk hpk => absurd hpk List.not_mem_nil
  have hstart : ∀ (d : Database) w, d = db ∧ w = ⟨objects, [], []⟩ →
      Staging ns objects (revisionKeys db revisionId) (OwnCopies db revisionId) w := by
    intro d w h
    rw [h.2]
    exact staging_start ns objects _ hnone
  unfold deletionBody
  refine (triple_require hstart).bind (fun revision => Triple.assume (fun hrevision => ?_))
  refine (triple_require hstart).bind (fun target => Triple.assume (fun htarget => ?_))
  split
  · exact triple_throw hstart
  refine (triple_select hstart).bind (fun active => Triple.assume (fun _ => ?_))
  split
  · exact triple_throw hstart
  refine (triple_select hstart).bind (fun artifacts => Triple.assume (fun hartifacts => ?_))
  refine (triple_select hstart).bind (fun replicas => Triple.assume (fun hreplicas => ?_))
  refine (triple_select hstart).bind (fun refusal => Triple.assume (fun hrefusal => ?_))
  cases refusal with
  | some failure => exact triple_throw hstart
  | none =>
    have hkey : target.pk = revision.target := ((Table.get?_eq_some_iff _ _ _).mp htarget).2
    rw [hreplicas] at hrefusal
    rw [hartifacts, hreplicas, hkey]
    refine (triple_removeEverywhere hrevision hrefusal.symm).weaken (fun d w h => ?_)
    rw [h.2]
    exact ⟨h.1, stagedBy_start ns objects [], hnone⟩

end RevisionRows

end ConfigBackup.LocalDeletions
