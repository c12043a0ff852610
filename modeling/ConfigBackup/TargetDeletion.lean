import ConfigBackup.FinishedRuns
import ConfigBackup.LocalDeletions
import ConfigBackup.RemoteCleanup
import Mathlib

/-!
Deleting a target with its runs, revisions, files and remote copies. The deletion
refuses an active run and transfers in flight, and it also removes the profiles that a
quick setup created for the target alone. With the cleanup and the deletion of one
revision it makes up the engines that delete local files.
-/

namespace ConfigBackup.TargetDeletion

open Calendar LocalDeletions LocalStorage Models RemoteRetention RevisionDeletion StagedDeletion
  Tables Transactions

/-- A connection or credential profile. -/
structure Profile where
  pk : ℕ
  name : String
deriving DecidableEq, Repr

/-- The profile columns of a target. -/
structure TargetOverrides where
  target : ℕ
  connectionOverride : Option ℕ
  credentialOverride : Option ℕ
deriving DecidableEq, Repr

structure PlatformMapping where
  pk : ℕ
  connectionProfile : Option ℕ
  credentialProfile : Option ℕ
deriving DecidableEq, Repr

structure SftpReceiverProfile where
  pk : ℕ
  credentialProfile : Option ℕ
deriving DecidableEq, Repr

structure TargetDatabase where
  core : Database
  overrides : Table TargetOverrides TargetOverrides.target
  connections : Table Profile Profile.pk
  credentials : Table Profile Profile.pk
  mappings : Table PlatformMapping PlatformMapping.pk
  receivers : Table SftpReceiverProfile SftpReceiverProfile.pk

structure TargetDeletionSummary where
  runCount : ℕ
  revisionCount : ℕ
  artifactCount : ℕ
  quickConnection : Bool
  quickCredential : Bool
deriving DecidableEq, Repr

inductive TargetFailure
  | deletion (message : String)
  | storage
  | other
deriving DecidableEq, Repr

def TargetFailure.message : TargetFailure → String
  | .deletion message => message
  | .storage => "Stored configuration files could not be quarantined. Nothing was deleted."
  | .other => "Target deletion failed before commit."

section Validation

/-- Copies of the target without a tombstone, by key. -/
def targetReplicas (db : Database) (targetId : ℕ) : List RevisionReplica :=
  db.replicas.rows.filter (fun r => targetOf db r == some targetId && r.remoteDeletedAt.isNone)

def onDestination (db : Database) (p : BackupDestination → Bool) (replica : RevisionReplica) :
    Bool :=
  (db.destinations.get? replica.destination).any p

/-- `validate_target_external_copies`: the reason to refuse, if any. -/
def validateTargetExternalCopies (db : Database) (replicas : List RevisionReplica) :
    Option String :=
  if replicas.any (fun r => r.status == .queued || r.status == .running) then
    some "The target has an active remote transfer and cannot be deleted."
  else if replicas.any (fun r =>
      onDestination db (fun d => d.protocol.replicated && !d.enabled) r && recorded r) then
    some ("A remote storage containing this target is disabled. Enable it before " ++
      "deleting the target so its external copies can be removed safely.")
  else if replicas.any (fun r =>
      onDestination db (fun d => !d.protocol.replicated) r && recorded r) then
    some ("The target still has an external copy which this version " ++
      "cannot remove safely. Delete that copy before removing the target.")
  else none

/-- One turn of `delete_target_ftp_copies`. -/
def deleteTargetCopy (server : Server) (db : Database) (replica : RevisionReplica) :
    Program TargetDatabase StagedWorld TargetFailure Unit := fun s =>
  if onDestination db (fun d => !d.protocol.replicated) replica || !recorded replica then .ok () s
  else if replica.remotePath == "" then
    .error (.deletion
      "A remote copy has inconsistent path metadata. The target was not deleted.") s
  else
    let called := { s with world := { s.world with calls := s.world.calls ++ [replica.pk] } }
    match server.delete replica with
    | .ok _ => .ok () called
    | .error (.destination errorCode) =>
      .error (.deletion ("A remote copy could not be removed safely (" ++ errorCode ++ "). " ++
        "The target was not deleted.")) called
    | .error _ => .error .other called

def deleteTargetCopies (server : Server) (db : Database) :
    List RevisionReplica → Program TargetDatabase StagedWorld TargetFailure Unit
  | [] => pure ()
  | replica :: rest => do
    deleteTargetCopy server db replica
    deleteTargetCopies server db rest

end Validation

section Rows

def targetKeys (db : Database) (targetId : ℕ) : List String :=
  (db.artifacts.rows.filter (fun a =>
    (db.revisions.get? a.revision).any (fun r => r.target == targetId))).map (fun a => a.storageKey)

def deleteTargetRuns (db : Database) (targetId : ℕ) : Database :=
  { db with runs := db.runs.filter (fun r => r.target != targetId) }

def deleteTargetRevisions (db : Database) (targetId : ℕ) : Database :=
  db.deleteRevisions (fun pk => (db.revisions.get? pk).any (fun r => r.target == targetId))

def deleteTargetRow (db : TargetDatabase) (targetId : ℕ) : TargetDatabase :=
  { db with
    core := { db.core with targets := db.core.targets.filter (fun t => t.pk != targetId) }
    overrides := db.overrides.filter (fun o => o.target != targetId) }

def isQuick (profiles : Table Profile Profile.pk) (profileId : Option ℕ) : Bool :=
  (profileId.bind profiles.get?).any (fun p => p.name.startsWith "[Quick]")

def summarizeTargetDeletion (db : TargetDatabase) (targetId : ℕ) : TargetDeletionSummary :=
  let overrides := db.overrides.get? targetId
  { runCount := (db.core.runs.rows.filter (fun r => r.target == targetId)).length
    revisionCount := (db.core.targetRevisions targetId).length
    artifactCount := (targetKeys db.core targetId).length
    quickConnection := isQuick db.connections (overrides.bind (fun o => o.connectionOverride))
    quickCredential := isQuick db.credentials (overrides.bind (fun o => o.credentialOverride)) }

variable (fails : ℕ → Bool)

/-- Delete a profile of a quick setup that nothing uses; a protected one raises. -/
def deleteQuickProfile (profileId : Option ℕ) (profiles : TargetDatabase → Table Profile Profile.pk)
    (used isProtected : TargetDatabase → ℕ → Bool) (remove : TargetDatabase → ℕ → TargetDatabase) :
    Program TargetDatabase StagedWorld TargetFailure Unit :=
  match profileId with
  | none => pure ()
  | some pk => do
    let unused ← select fails .other (fun db =>
      isQuick (profiles db) (some pk) && !used db pk)
    if unused then do
      let referenced ← select fails .other (fun db => isProtected db pk)
      if referenced then throw .other
      else update fails .other (fun db => remove db pk)
    else pure ()

def deleteQuickConnection (profileId : Option ℕ) :
    Program TargetDatabase StagedWorld TargetFailure Unit :=
  deleteQuickProfile fails profileId TargetDatabase.connections
    (fun db pk => db.overrides.rows.any (fun o => o.connectionOverride == some pk) ||
      db.mappings.rows.any (fun m => m.connectionProfile == some pk))
    (fun _ _ => false)
    (fun db pk => { db with connections := db.connections.filter (fun p => p.pk != pk) })

/-- Storages and receivers protect their credential profile. -/
def deleteQuickCredential (profileId : Option ℕ) :
    Program TargetDatabase StagedWorld TargetFailure Unit :=
  deleteQuickProfile fails profileId TargetDatabase.credentials
    (fun db pk => db.overrides.rows.any (fun o => o.credentialOverride == some pk) ||
      db.mappings.rows.any (fun m => m.credentialProfile == some pk))
    (fun db pk => db.core.destinations.rows.any (fun d => d.credentialProfile == some pk) ||
      db.receivers.rows.any (fun r => r.credentialProfile == some pk))
    (fun db pk => { db with credentials := db.credentials.filter (fun p => p.pk != pk) })

end Rows

section Engine

variable (fails : ℕ → Bool) (ns : String) (server : Server) (targetId : ℕ)

/-- `f"target-delete-{target.pk}-{uuid4().hex}"`. -/
def targetNamespace (targetId : ℕ) (hex : String) : String :=
  "target-delete-" ++ toString targetId ++ "-" ++ hex

/-- Stage the files, delete the remote copies, then remove the rows and the profiles. -/
def removeTarget (replicas : List RevisionReplica) :
    Program TargetDatabase StagedWorld TargetFailure TargetDeletionSummary := do
  let rows ← select fails .other id
  let summary ← select fails .other (fun db => summarizeTargetDeletion db targetId)
  let keys ← select fails .other (fun db => targetKeys db.core targetId)
  let _ ← stageKeys fails .storage ns keys
  deleteTargetCopies server rows.core replicas
  let overrides := rows.overrides.get? targetId
  update fails .other (fun db => { db with core := deleteTargetRuns db.core targetId })
  update fails .other (fun db => { db with core := deleteTargetRevisions db.core targetId })
  update fails .other (fun db => deleteTargetRow db targetId)
  deleteQuickConnection fails (overrides.bind (fun o => o.connectionOverride))
  deleteQuickCredential fails (overrides.bind (fun o => o.credentialOverride))
  pure summary

def targetBody : Program TargetDatabase StagedWorld TargetFailure TargetDeletionSummary := do
  let _ ← require fails .other .other (fun db => db.core.targets.get? targetId)
  let active ← select fails .other (fun db => db.core.hasActiveRun targetId)
  if active then
    throw (.deletion "The target has an active backup run and cannot be deleted.")
  else do
    let replicas ← select fails .other (fun db => targetReplicas db.core targetId)
    let refusal ← select fails .other (fun db => validateTargetExternalCopies db.core replicas)
    match refusal with
    | some message => throw (.deletion message)
    | none => removeTarget fails ns server targetId replicas

/-- `delete_backup_target`; a purge that raises is only logged. -/
def deleteBackupTarget (faults : DeletionFaults) (hex : String) (db : TargetDatabase)
    (objects : Objects) : StagedOutcome TargetDatabase TargetDeletionSummary :=
  stagedDeletion faults .other TargetFailure.message
    "Target deletion failed and quarantined files could not be fully restored."
    (fun summary _ => summary)
    (targetBody faults.call (targetNamespace targetId hex) server targetId) db objects

end Engine

section Triples

variable {fails : ℕ → Bool} {ns : String} {server : Server} {targetId : ℕ} {db : TargetDatabase}
  {objects : Objects}

/-- Only copies of the target are deleted, and its copies passed the validation. -/
def TargetCopies (db : TargetDatabase) (targetId : ℕ) (calls : List ℕ) : Prop :=
  ∀ pk ∈ calls, (∃ replica ∈ targetReplicas db.core targetId, replica.pk = pk) ∧
    validateTargetExternalCopies db.core (targetReplicas db.core targetId) = none

/-- The rows without the target, its runs and its revisions. -/
def withoutTarget (core : Database) (targetId : ℕ) : Database :=
  let core := deleteTargetRevisions (deleteTargetRuns core targetId) targetId
  { core with targets := core.targets.filter (fun t => t.pk != targetId) }

/-- A deletion that returns has staged the target's files and removed its rows. -/
def TargetDone (ns : String) (objects : Objects) (db : TargetDatabase) (targetId : ℕ)
    (d : TargetDatabase) (w : StagedWorld) : Prop :=
  (StagedBy ns objects (targetKeys db.core targetId) w ∧ TargetCopies db targetId w.calls) ∧
    validateTargetExternalCopies db.core (targetReplicas db.core targetId) = none ∧
    d.core = withoutTarget db.core targetId

theorem triple_deleteTargetCopy {replica : RevisionReplica}
    (hreplica : replica ∈ targetReplicas db.core targetId)
    (hvalid : validateTargetExternalCopies db.core (targetReplicas db.core targetId) = none) :
    Triple (fun d w => d = db ∧ StagedBy ns objects (targetKeys db.core targetId) w ∧
      TargetCopies db targetId w.calls)
      (deleteTargetCopy server db.core replica)
      (fun _ d w => d = db ∧ StagedBy ns objects (targetKeys db.core targetId) w ∧
        TargetCopies db targetId w.calls)
      (fun _ w => Staging ns objects (targetKeys db.core targetId)
        (TargetCopies db targetId) w) := by
  intro s ⟨hdb, hstaged, hcalls⟩
  have hown : TargetCopies db targetId (s.world.calls ++ [replica.pk]) := by
    intro pk hpk
    rcases List.mem_append.mp hpk with hpk | hpk
    · exact hcalls pk hpk
    · exact ⟨⟨replica, hreplica, (List.mem_singleton.mp hpk).symm⟩, hvalid⟩
  unfold deleteTargetCopy
  by_cases hskip : (onDestination db.core (fun d => !d.protocol.replicated) replica ||
      !recorded replica) = true
  · rw [if_pos hskip]
    exact ⟨hdb, hstaged, hcalls⟩
  · rw [if_neg hskip]
    by_cases hpath : (replica.remotePath == "") = true
    · rw [if_pos hpath]
      exact ⟨⟨_, List.prefix_refl _, hstaged⟩, hcalls⟩
    · rw [if_neg hpath]
      cases server.delete replica with
      | ok result => exact ⟨hdb, hstaged, hown⟩
      | error failure =>
        cases failure with
        | destination errorCode => exact ⟨⟨_, List.prefix_refl _, hstaged⟩, hown⟩
        | cleanup text => exact ⟨⟨_, List.prefix_refl _, hstaged⟩, hown⟩
        | other => exact ⟨⟨_, List.prefix_refl _, hstaged⟩, hown⟩

theorem triple_deleteTargetCopies {replicas : List RevisionReplica}
    (hreplicas : ∀ replica ∈ replicas, replica ∈ targetReplicas db.core targetId)
    (hvalid : validateTargetExternalCopies db.core (targetReplicas db.core targetId) = none) :
    Triple (fun d w => d = db ∧ StagedBy ns objects (targetKeys db.core targetId) w ∧
      TargetCopies db targetId w.calls)
      (deleteTargetCopies server db.core replicas)
      (fun _ d w => d = db ∧ StagedBy ns objects (targetKeys db.core targetId) w ∧
        TargetCopies db targetId w.calls)
      (fun _ w => Staging ns objects (targetKeys db.core targetId)
        (TargetCopies db targetId) w) := by
  induction replicas with
  | nil => exact triple_pure (fun _ _ h => h)
  | cons replica rest ih =>
    unfold deleteTargetCopies
    have hcopy := hreplicas replica List.mem_cons_self
    refine (triple_deleteTargetCopy hcopy hvalid).bind (fun _ => ?_)
    exact ih (fun other hother => hreplicas other (List.mem_cons_of_mem _ hother))

/-- Deleting a profile leaves the rows of the backups and the files. -/
theorem triple_deleteQuickProfile {profileId : Option ℕ}
    {profiles : TargetDatabase → Table Profile Profile.pk}
    {used isProtected : TargetDatabase → ℕ → Bool} {remove : TargetDatabase → ℕ → TargetDatabase}
    (hremove : ∀ d pk, (remove d pk).core = d.core) {core : Database} :
    Triple (fun d w => d.core = core ∧ StagedBy ns objects (targetKeys db.core targetId) w ∧
      TargetCopies db targetId w.calls)
      (deleteQuickProfile fails profileId profiles used isProtected remove)
      (fun _ d w => d.core = core ∧ StagedBy ns objects (targetKeys db.core targetId) w ∧
        TargetCopies db targetId w.calls)
      (fun _ w => Staging ns objects (targetKeys db.core targetId)
        (TargetCopies db targetId) w) := by
  have hstaging : ∀ (d : TargetDatabase) w,
      d.core = core ∧ StagedBy ns objects (targetKeys db.core targetId) w ∧
        TargetCopies db targetId w.calls →
        Staging ns objects (targetKeys db.core targetId) (TargetCopies db targetId) w :=
    fun d w h => ⟨⟨_, List.prefix_refl _, h.2.1⟩, h.2.2⟩
  unfold deleteQuickProfile
  cases profileId with
  | none => exact triple_pure (fun _ _ h => h)
  | some pk =>
    refine (triple_select_keeps hstaging).bind (fun unused => ?_)
    split
    · refine (triple_select_keeps hstaging).bind (fun referenced => ?_)
      split
      · exact triple_throw hstaging
      · exact triple_update_keeps (fun d w h => ⟨(hremove d pk).trans h.1, h.2⟩) hstaging
    · exact triple_pure (fun _ _ h => h)

theorem triple_deleteQuickConnection {profileId : Option ℕ} {core : Database} :
    Triple (fun d w => d.core = core ∧ StagedBy ns objects (targetKeys db.core targetId) w ∧
      TargetCopies db targetId w.calls)
      (deleteQuickConnection fails profileId)
      (fun _ d w => d.core = core ∧ StagedBy ns objects (targetKeys db.core targetId) w ∧
        TargetCopies db targetId w.calls)
      (fun _ w => Staging ns objects (targetKeys db.core targetId)
        (TargetCopies db targetId) w) := by
  unfold deleteQuickConnection
  exact triple_deleteQuickProfile (by intro d pk; rfl)

theorem triple_deleteQuickCredential {profileId : Option ℕ} {core : Database} :
    Triple (fun d w => d.core = core ∧ StagedBy ns objects (targetKeys db.core targetId) w ∧
      TargetCopies db targetId w.calls)
      (deleteQuickCredential fails profileId)
      (fun _ d w => d.core = core ∧ StagedBy ns objects (targetKeys db.core targetId) w ∧
        TargetCopies db targetId w.calls)
      (fun _ w => Staging ns objects (targetKeys db.core targetId)
        (TargetCopies db targetId) w) := by
  unfold deleteQuickCredential
  exact triple_deleteQuickProfile (by intro d pk; rfl)

theorem triple_removeTarget
    (hvalid : validateTargetExternalCopies db.core (targetReplicas db.core targetId) = none) :
    Triple (fun d w => d = db ∧ StagedBy ns objects [] w ∧ TargetCopies db targetId w.calls)
      (removeTarget fails ns server targetId (targetReplicas db.core targetId))
      (fun _ d w => TargetDone ns objects db targetId d w)
      (fun _ w => Staging ns objects (targetKeys db.core targetId)
        (TargetCopies db targetId) w) := by
  have hstart : ∀ (d : TargetDatabase) w,
      d = db ∧ StagedBy ns objects [] w ∧ TargetCopies db targetId w.calls →
        Staging ns objects (targetKeys db.core targetId) (TargetCopies db targetId) w :=
    fun d w h => ⟨⟨[], List.nil_prefix, h.2.1⟩, h.2.2⟩
  have hstaging : ∀ (start d : TargetDatabase) w, d = start ∧
      StagedBy ns objects (targetKeys db.core targetId) w ∧ TargetCopies db targetId w.calls →
        Staging ns objects (targetKeys db.core targetId) (TargetCopies db targetId) w :=
    fun start d w h => ⟨⟨_, List.prefix_refl _, h.2.1⟩, h.2.2⟩
  have hstage := @triple_stageKeys TargetDatabase TargetFailure ns objects
    (targetKeys db.core targetId) (TargetCopies db targetId) fails .storage db
  unfold removeTarget
  refine (triple_select hstart).bind (fun rows => Triple.assume (fun hrows => ?_))
  refine (triple_select hstart).bind (fun summary => Triple.assume (fun _ => ?_))
  refine (triple_select hstart).bind (fun keys => Triple.assume (fun hkeys => ?_))
  rw [hrows, hkeys, id_eq]
  refine hstage.bind (fun _ => ?_)
  refine (triple_deleteTargetCopies (fun _ h => h) hvalid).bind (fun _ => ?_)
  refine (triple_update (hstaging _)).bind (fun _ => ?_)
  refine (triple_update (hstaging _)).bind (fun _ => ?_)
  refine (triple_update (hstaging _)).bind (fun _ => ?_)
  have hrows' : ∀ d w, d = deleteTargetRow { db with
        core := deleteTargetRevisions (deleteTargetRuns db.core targetId) targetId } targetId ∧
      StagedBy ns objects (targetKeys db.core targetId) w ∧ TargetCopies db targetId w.calls →
      d.core = withoutTarget db.core targetId ∧
        StagedBy ns objects (targetKeys db.core targetId) w ∧ TargetCopies db targetId w.calls := by
    intro d w h
    rw [h.1]
    exact ⟨rfl, h.2⟩
  refine (triple_deleteQuickConnection.weaken hrows').bind (fun _ => ?_)
  refine triple_deleteQuickCredential.bind (fun _ => ?_)
  exact triple_pure (fun d w h => ⟨h.2, hvalid, h.1⟩)

theorem triple_targetBody :
    Triple (fun d w => d = db ∧ w = ⟨objects, [], []⟩) (targetBody fails ns server targetId)
      (fun _ d w => TargetDone ns objects db targetId d w)
      (fun _ w => Staging ns objects (targetKeys db.core targetId)
        (TargetCopies db targetId) w) := by
  have hnone : TargetCopies db targetId [] := fun pk hpk => absurd hpk List.not_mem_nil
  have hstart : ∀ (d : TargetDatabase) w, d = db ∧ w = ⟨objects, [], []⟩ →
      Staging ns objects (targetKeys db.core targetId) (TargetCopies db targetId) w := by
    intro d w h
    rw [h.2]
    exact staging_start ns objects _ hnone
  unfold targetBody
  refine (triple_require hstart).bind (fun target => Triple.assume (fun _ => ?_))
  refine (triple_select hstart).bind (fun active => Triple.assume (fun _ => ?_))
  split
  · exact triple_throw hstart
  refine (triple_select hstart).bind (fun replicas => Triple.assume (fun hreplicas => ?_))
  refine (triple_select hstart).bind (fun refusal => Triple.assume (fun hrefusal => ?_))
  cases refusal with
  | some message => exact triple_throw hstart
  | none =>
    rw [hreplicas] at hrefusal ⊢
    refine (triple_removeTarget hrefusal.symm).weaken (fun d w h => ?_)
    rw [h.2]
    exact ⟨h.1, stagedBy_start ns objects [], hnone⟩

end Triples

section AllEngines

/-- The three deletions of local files are all or nothing, wherever a staging, a
statement or the commit raises, as long as the restores succeed. -/
theorem local_deletions_all_or_nothing (faults : DeletionFaults)
    (hrestore : ∀ n, faults.restore n = false) (hex : String) (objects : Objects) :
    (∀ (targetId : ℕ) (now : Instant) (db : Database),
      FreshNamespace (retentionNamespace targetId hex) (cleanupKeys db now targetId) →
      AllOrNothing (retentionNamespace targetId hex) (cleanupKeys db now targetId) db objects
        (LocalDeletions.executeRetentionCleanup targetId now faults hex db objects)) ∧
    (∀ (server : Server) (revisionId : ℕ) (db : Database),
      FreshNamespace (revisionNamespace revisionId hex) (revisionKeys db revisionId) →
      AllOrNothing (revisionNamespace revisionId hex) (revisionKeys db revisionId) db objects
        (LocalDeletions.deleteConfigRevisionEverywhere server revisionId faults hex db
          objects)) ∧
    (∀ (server : Server) (targetId : ℕ) (db : TargetDatabase),
      FreshNamespace (targetNamespace targetId hex) (targetKeys db.core targetId) →
      AllOrNothing (targetNamespace targetId hex) (targetKeys db.core targetId) db objects
        (deleteBackupTarget server targetId faults hex db objects)) := by
  refine ⟨?_, ?_, ?_⟩
  · intro targetId now db hfresh
    exact stagedDeletion_all_or_nothing hrestore hfresh
      (triple_cleanupBody.mono (fun _ _ _ h => h.1) (fun _ _ h => h))
  · intro server revisionId db hfresh
    exact stagedDeletion_all_or_nothing hrestore hfresh
      (triple_deletionBody.mono (fun _ _ _ h => h.1) (fun _ _ h => h))
  · intro server targetId db hfresh
    exact stagedDeletion_all_or_nothing hrestore hfresh
      (triple_targetBody.mono (fun _ _ _ h => h.1) (fun _ _ h => h))

/-- A target with one revision and its file. -/
def storedTarget : TargetDatabase where
  core := { FinishedRuns.newTargetDatabase with
    revisions := ⟨[Repository.newRevision 1 FinishedRuns.firstCommit none 1], 2, by simp, by simp⟩
    artifacts := ⟨[Repository.newArtifact 1
      ⟨"running", "text", "devices/7/revisions/d/running.txt", 1, "raw", "hash", true⟩ 1], 2,
      by simp, by simp⟩ }
  overrides := ⟨[⟨1, some 1, none⟩], 2, by simp, by simp⟩
  connections := ⟨[⟨1, "[Quick] router"⟩], 2, by simp, by simp⟩
  credentials := Table.empty
  mappings := Table.empty
  receivers := Table.empty

def storedPath : Path :=
  ["devices".toList, "7".toList, "revisions".toList, "d".toList, "running.txt".toList]

def storedFiles : Objects := withObject (fun _ => none) storedPath [97]

theorem freshNamespace_storedTarget : FreshNamespace (targetNamespace 1 "f")
    (targetKeys storedTarget.core 1) := by
  intro key hkey path hpath ⟨below, hbelow⟩
  have hkeys : targetKeys storedTarget.core 1 = ["devices/7/revisions/d/running.txt"] := by
    decide +kernel
  rw [hkeys, List.mem_singleton] at hkey
  have hstored : localPath key = some storedPath := by
    rw [hkey]
    decide +kernel
  rw [hpath, Option.some.injEq, hbelow] at hstored
  have hhead : some ".retention-trash".toList = some "devices".toList :=
    congrArg List.head? hstored
  exact absurd hhead (by decide +kernel)

/-- The commit raises, as the last call of the deletion. -/
def commitFails : DeletionFaults := ⟨fun n => n == 14, fun _ => false, fun _ => false⟩

theorem local_deletions_all_or_nothing_commit :
    (deleteBackupTarget RemoteCleanup.willing 1 commitFails "f" storedTarget storedFiles).objects =
      storedFiles :=
  (((local_deletions_all_or_nothing commitFails (fun _ => rfl) "f" storedFiles).2.2
    RemoteCleanup.willing 1 storedTarget freshNamespace_storedTarget).raised
      "Target deletion failed before commit." (by decide +kernel)).2

end AllEngines

end ConfigBackup.TargetDeletion
