import ConfigBackup.NewestCopies
import ConfigBackup.RevisionHistory
import ConfigBackup.StorageKeys
import ConfigBackup.TargetDeletion

/-!
Transfers in flight under the engines that delete. A queued or running transfer keeps the
rows and the local files of its revision: the two cleanups defer the revision, and the two
deletions refuse before they stage a file. The remote cleanup works storage by storage, so
it spares the copies on the storage that the transfer writes to.
-/

namespace ConfigBackup.TransfersInFlight

open Calendar LocalDeletions LocalRetention LocalStorage Models NewestFirst PosixPaths RemoteCleanup
  RemoteRetention RevisionChain RevisionDeletion StagedDeletion StorageKeys Tables
  TargetDeletion Transactions

section Rows

/-- The copy is queued or running and has no tombstone. -/
def transferring (replica : RevisionReplica) : Bool :=
  replica.remoteDeletedAt.isNone && (replica.status == .queued || replica.status == .running)

def InFlight (db : Database) (revisionId : ℕ) : Prop :=
  ∃ replica ∈ db.replicas, replica.revision = revisionId ∧ transferring replica = true

/-- A transfer, a scheduled retry or a first copy still reads the local files. -/
def SourceNeeded (db : Database) (revisionId : ℕ) : Prop :=
  ∃ replica ∈ db.replicas, replica.revision = revisionId ∧ needsSource db replica = true

/-- The rows of the revision stay, and its transfers in flight stay as they are. -/
structure RowsKept (before after : Database) (revisionId : ℕ) : Prop where
  revision : (before.revisions.get? revisionId).isSome → (after.revisions.get? revisionId).isSome
  replicas : ∀ replica ∈ before.replicas, replica.revision = revisionId →
    ∃ row ∈ after.replicas, row.pk = replica.pk ∧ row.revision = revisionId ∧
      (transferring replica = true → row = replica)
  artifacts : ∀ artifact ∈ before.artifacts, artifact.revision = revisionId →
    artifact ∈ after.artifacts

variable {db db' db'' : Database} {revisionId : ℕ}

theorem SourceNeeded.of_inFlight (h : InFlight db revisionId) : SourceNeeded db revisionId := by
  obtain ⟨replica, hmem, hrevision, htransfer⟩ := h
  refine ⟨replica, hmem, hrevision, ?_⟩
  simp only [transferring, Bool.and_eq_true] at htransfer
  simp only [needsSource, htransfer.1, htransfer.2, Bool.true_or, Bool.and_self]

theorem transferPending_of_transferring {replica : RevisionReplica}
    (h : transferring replica = true) : transferPending replica = true := by
  simp only [transferring, Bool.and_eq_true] at h
  simp only [transferPending, h.2, Bool.true_or]

theorem deletable_eq_false {replica : RevisionReplica} (h : transferring replica = true) :
    deletable replica = false := by
  simp only [transferring, Bool.and_eq_true, Bool.or_eq_true, beq_iff_eq] at h
  rcases h.2 with hstatus | hstatus
  · simp [deletable, hstatus]
  · simp [deletable, hstatus]

theorem RowsKept.of_eq (h : db' = db) : RowsKept db db' revisionId := by
  subst h
  exact ⟨fun h => h, fun r hr hrev => ⟨r, hr, rfl, hrev, fun _ => rfl⟩, fun _ ha _ => ha⟩

theorem RowsKept.trans (h : RowsKept db db' revisionId) (h' : RowsKept db' db'' revisionId) :
    RowsKept db db'' revisionId := by
  refine ⟨fun hsome => h'.revision (h.revision hsome), ?_, ?_⟩
  · intro replica hmem hrevision
    obtain ⟨row, hrow, hpk, hrow', hsame⟩ := h.replicas replica hmem hrevision
    obtain ⟨last, hlast, hpk', hlast', hsame'⟩ := h'.replicas row hrow hrow'
    refine ⟨last, hlast, hpk'.trans hpk, hlast', fun htransfer => ?_⟩
    have hsame := hsame htransfer
    rw [hsame] at hsame'
    exact hsame' htransfer
  · intro artifact hmem hrevision
    exact h'.artifacts artifact (h.artifacts artifact hmem hrevision) hrevision

theorem RowsKept.inFlight (hrows : RowsKept db db' revisionId) (h : InFlight db revisionId) :
    InFlight db' revisionId := by
  obtain ⟨replica, hmem, hrevision, htransfer⟩ := h
  obtain ⟨row, hrow, _, hrowRevision, hsame⟩ := hrows.replicas replica hmem hrevision
  refine ⟨row, hrow, hrowRevision, ?_⟩
  rw [hsame htransfer]
  exact htransfer

/-- Runs and targets do not matter. -/
theorem RowsKept.congr (h : RowsKept db db' revisionId) (hrevisions : db''.revisions = db'.revisions)
    (hreplicas : db''.replicas = db'.replicas) (hartifacts : db''.artifacts = db'.artifacts) :
    RowsKept db db'' revisionId := by
  refine ⟨?_, ?_, ?_⟩
  · rw [hrevisions]
    exact h.revision
  · rw [hreplicas]
    exact h.replicas
  · rw [hartifacts]
    exact h.artifacts

theorem rowsKept_deleteRevisions {gone : ℕ → Bool} (h : gone revisionId = false) :
    RowsKept db (db.deleteRevisions gone) revisionId := by
  refine ⟨?_, ?_, ?_⟩
  · intro hsome
    obtain ⟨revision, hrevision⟩ := Option.isSome_iff_exists.mp hsome
    have hkey : revision.pk = revisionId := ((Table.get?_eq_some_iff _ _ _).mp hrevision).2
    rw [Database.get?_deleteRevisions, hrevision]
    simp [Option.filter, hkey, h]
  · intro replica hmem hrevision
    refine ⟨replica, Database.mem_replicas_deleteRevisions.mpr ⟨hmem, ?_⟩, rfl, hrevision,
      fun _ => rfl⟩
    rw [hrevision]
    exact h
  · intro artifact hmem hrevision
    exact (Table.mem_filter _ _ _).mpr ⟨hmem, by simp [hrevision, h]⟩

theorem rowsKept_relink {targetId : ℕ} {revisions : List ConfigRevision} {deleted : ℕ → Bool}
    (hkeys : revisions.Pairwise (fun a b => a.pk ≠ b.pk)) :
    RowsKept db (relinkKeptRevisions db targetId revisions deleted) revisionId := by
  obtain ⟨f, hget, _⟩ := @RevisionHistory.get?_relink db targetId revisions deleted hkeys
    revisionId
  obtain ⟨rows, last, hframe⟩ := @relink_frame db targetId revisions deleted
  refine ⟨?_, ?_, ?_⟩
  · intro hsome
    rw [hget, Option.isSome_map]
    exact hsome
  · intro replica hmem hrevision
    rw [hframe]
    exact ⟨replica, hmem, rfl, hrevision, fun _ => rfl⟩
  · intro artifact hmem _
    rw [hframe]
    exact hmem

theorem rowsKept_markUnavailable {now : Instant} {revisionIds : List ℕ}
    (h : revisionId ∉ revisionIds) :
    RowsKept db (markUnavailable db now revisionIds) revisionId := by
  refine ⟨fun hsome => hsome, fun r hr hrev => ⟨r, hr, rfl, hrev, fun _ => rfl⟩, ?_⟩
  intro artifact hmem hrevision
  unfold markUnavailable
  rw [Table.mem_map]
  refine ⟨artifact, hmem, if_neg ?_⟩
  simp [hrevision, h]

end Rows

section Files

variable {db : Database} {ns : String} {objects objects' : Objects} {revisionId : ℕ}

/-- The files that only artifacts of the revision name, outside the quarantine. -/
def OwnFile (db : Database) (ns : String) (revisionId : ℕ) (path : Path) : Prop :=
  (∀ artifact ∈ db.artifacts, localPath artifact.storageKey = some path →
    artifact.revision = revisionId) ∧ ¬ InQuarantine ns path

def FilesKept (db : Database) (ns : String) (objects objects' : Objects) (revisionId : ℕ) : Prop :=
  ∀ path, OwnFile db ns revisionId path → objects' path = objects path

/-- None of the calls is about a copy of the revision. -/
def CopiesSpared (db : Database) (revisionId : ℕ) (calls : List ℕ) : Prop :=
  ∀ copy ∈ db.replicas, copy.revision = revisionId → copy.pk ∉ calls

/-- The revision with its rows, its files and its remote copies. -/
structure Protected (ns : String) (before after : Database) (objects objects' : Objects)
    (calls : List ℕ) (revisionId : ℕ) : Prop where
  rows : RowsKept before after revisionId
  files : FilesKept before ns objects objects' revisionId
  copies : CopiesSpared before revisionId calls

theorem copiesSpared_nil : CopiesSpared db revisionId [] :=
  fun _ _ _ => List.not_mem_nil

theorem Protected.of_refused {db' : Database} {calls : List ℕ} (hdb : db' = db)
    (hobjects : objects' = objects) (hcalls : calls = []) :
    Protected ns db db' objects objects' calls revisionId := by
  refine ⟨RowsKept.of_eq hdb, fun path _ => congrFun hobjects path, ?_⟩
  rw [hcalls]
  exact copiesSpared_nil

/-- Keys of other revisions name none of its files. -/
theorem OwnFile.not_named {path : Path} (h : OwnFile db ns revisionId path) {keys : List String}
    (hkeys : ∀ key ∈ keys, ∃ artifact ∈ db.artifacts, artifact.storageKey = key ∧
      artifact.revision ≠ revisionId) :
    ∀ key ∈ keys, localPath key ≠ some path := by
  intro key hkey hpath
  obtain ⟨artifact, hmem, hname, hother⟩ := hkeys key hkey
  rw [← hname] at hpath
  exact hother (h.1 artifact hmem hpath)

end Files

section Keys

variable {db : Database} {revisionId : ℕ}

/-- The pipeline writes the keys, and the database keeps them unique. -/
structure WrittenKeys (db : Database) : Prop where
  unique : ∀ a ∈ db.artifacts, ∀ b ∈ db.artifacts, a.storageKey = b.storageKey → a = b
  shape : ∀ a ∈ db.artifacts, ∃ deviceId revisionUuid filename,
    IsComponent revisionUuid.toList ∧ PlainFilename filename ∧
      a.storageKey = pipelineKey deviceId revisionUuid filename

/-- Every file of the revision is its own when the pipeline wrote the keys. -/
theorem WrittenKeys.ownFile (h : WrittenKeys db) {artifact : ConfigArtifact}
    (hmem : artifact ∈ db.artifacts) (ns : String) {path : Path}
    (hpath : localPath artifact.storageKey = some path) :
    OwnFile db ns artifact.revision path := by
  obtain ⟨deviceId, revisionUuid, filename, huuid, hname, hkey⟩ := h.shape artifact hmem
  have hcomponents := (localPath_components hpath).1
  rw [hkey, components_pipelineKey deviceId huuid] at hcomponents
  constructor
  · intro other hother hsame
    obtain ⟨deviceId', revisionUuid', filename', huuid', hname', hkey'⟩ := h.shape other hother
    have hcomponents' := (localPath_components hsame).1
    rw [hkey', components_pipelineKey deviceId' huuid', hcomponents] at hcomponents'
    simp only [List.cons.injEq, true_and] at hcomponents'
    obtain ⟨hdevice, hrevision, hfile⟩ := hcomponents'
    have hkeys : artifact.storageKey = other.storageKey := by
      rw [hkey, hkey']
      unfold pipelineKey
      rw [String.toList_inj.mp hdevice, String.toList_inj.mp hrevision,
        components_filename_inj hname hname' hfile]
    rw [h.unique artifact hmem other hother hkeys]
  · rintro ⟨below, hbelow⟩
    rw [hcomponents] at hbelow
    have hhead : some "devices".toList = some ".retention-trash".toList :=
      congrArg List.head? hbelow
    exact absurd hhead (by decide)

/-- A protected artifact still reads as before. -/
theorem FilesKept.getObject {ns : String} {objects objects' : Objects}
    (h : FilesKept db ns objects objects' revisionId) (hkeys : WrittenKeys db)
    {artifact : ConfigArtifact} (hmem : artifact ∈ db.artifacts)
    (hrevision : artifact.revision = revisionId) :
    LocalStorage.getObject objects' artifact.storageKey =
      LocalStorage.getObject objects artifact.storageKey := by
  unfold LocalStorage.getObject
  cases hpath : localPath artifact.storageKey with
  | none => rfl
  | some path => exact h path (hrevision ▸ hkeys.ownFile hmem ns hpath)

end Keys

section Cleanup

variable {db : Database} {targetId : ℕ} {now : Instant} {revisionId : ℕ}

/-- The plan leaves out a revision whose local files are still needed. -/
theorem not_mem_plannedWork (h : SourceNeeded db revisionId) {revisionIds runIds : List ℕ}
    {deferredCount : ℕ}
    (hwork : plannedWork db now targetId = some (revisionIds, runIds, deferredCount)) :
    revisionId ∉ revisionIds := by
  intro hmem
  simp only [plannedWork, retentionWork, Option.bind_eq_bind, Option.pure_def,
    Option.bind_eq_some_iff, Option.some.injEq, Prod.mk.injEq] at hwork
  obtain ⟨_, _, _, _, _, _, _, _, _, _, hids, _, _⟩ := hwork
  rw [← hids] at hmem
  obtain ⟨hplanned, hnot⟩ := List.mem_filter.mp hmem
  obtain ⟨replica, hreplica, hrevision, hneeds⟩ := h
  have hany : (db.replicasOf revisionId).any (needsSource db) = true :=
    List.any_eq_true.mpr ⟨replica, List.mem_filter.mpr ⟨hreplica, by simp [hrevision]⟩, hneeds⟩
  simp [hplanned, hany] at hnot

theorem rowsKept_applyRetention {revisionIds runIds : List ℕ} (h : revisionId ∉ revisionIds) :
    RowsKept db (applyRetention db now targetId revisionIds runIds) revisionId := by
  have hkeys : (newestFirst ConfigRevision.newer (db.targetRevisions targetId)).Pairwise
      (fun a b => a.pk ≠ b.pk) :=
    ((newestFirst_perm _).pairwise_iff (fun h => Ne.symm h)).mpr
      RevisionHistory.targetRevisions_keys
  have hmarked := @rowsKept_markUnavailable db revisionId now revisionIds h
  have hrelinked := hmarked.trans (@rowsKept_relink _ revisionId targetId _
    (fun pk => revisionIds.contains pk || !db.locallyAvailable pk) hkeys)
  unfold applyRetention
  refine RowsKept.trans ?_ (rowsKept_deleteRevisions ?_)
  · exact hrelinked.congr rfl rfl rfl
  · simp [h]

theorem cleanup_protects (h : SourceNeeded db revisionId) (faults : DeletionFaults) (hex : String)
    (objects : Objects) :
    let outcome := LocalDeletions.executeRetentionCleanup targetId now faults hex db objects
    Protected (retentionNamespace targetId hex) db outcome.db objects outcome.objects outcome.calls
      revisionId := by
  refine ⟨?_, ?_, ?_⟩
  · rcases @executeRetentionCleanup_rows targetId now db objects faults hex with
      ⟨hdb, _⟩ | ⟨_, revisionIds, runIds, deferredCount, hwork, hdb⟩
    · exact RowsKept.of_eq hdb
    · rw [hdb]
      exact rowsKept_applyRetention (not_mem_plannedWork h hwork)
  · intro path hown
    refine stagedDeletion_untouched faults _ _ _ _
      (triple_cleanupBody.mono (fun _ _ _ h => h.1) (fun _ _ h => h)) (hown.not_named ?_) hown.2
    intro key hkey
    unfold cleanupKeys at hkey
    cases hwork : plannedWork db now targetId with
    | none => simp [hwork] at hkey
    | some work =>
      obtain ⟨revisionIds, runIds, deferredCount⟩ := work
      simp only [hwork] at hkey
      obtain ⟨artifact, hartifact, hname⟩ := List.mem_map.mp hkey
      obtain ⟨hmem, hselected⟩ := List.mem_filter.mp hartifact
      refine ⟨artifact, hmem, hname, ?_⟩
      rintro hsame
      rw [Bool.and_eq_true, List.contains_iff_mem, hsame] at hselected
      exact not_mem_plannedWork h hwork hselected.1
  · have hnone : (LocalDeletions.executeRetentionCleanup targetId now faults hex db
        objects).calls = [] :=
      stagedDeletion_calls faults _ _ _ _
        (triple_cleanupBody.mono (fun _ _ _ h => h.1) (fun _ _ h => h))
    rw [hnone]
    exact copiesSpared_nil

end Cleanup

section RemoteCleanup

variable {db : Database} {target : BackupTarget} {targetId : ℕ} {now : Instant} {server : Server}
  {revisionId : ℕ}

/-- No deletion is asked for on a storage that a transfer of the revision writes to. -/
def StorageSpared (db : Database) (revisionId : ℕ) (calls : List ℕ) : Prop :=
  ∀ replica ∈ db.replicas, replica.revision = revisionId → transferring replica = true →
    ∀ copy ∈ db.replicas, copy.revision = revisionId → copy.destination = replica.destination →
      copy.pk ∉ calls

theorem not_called_of_transferring {calls : List ℕ} (hcalls : CallsExpired db target now calls)
    {replica : RevisionReplica} (hmem : replica ∈ db.replicas)
    (htransfer : transferring replica = true) : replica.pk ∉ calls := by
  intro hcall
  obtain ⟨copy, hpk, hlocked, hdeletable, _⟩ := hcalls replica.pk hcall
  have hsame := db.replicas.eq_of_key_eq (mem_lockedReplicas.mp hlocked).1 hmem hpk
  rw [hsame, deletable_eq_false htransfer] at hdeletable
  cases hdeletable

/-- The turn of a storage defers a revision that is on its way there. -/
theorem storageSpared_of_callsExpired {calls : List ℕ}
    (hcalls : CallsExpired db target now calls) : StorageSpared db revisionId calls := by
  intro replica hmem hrevision htransfer copy hcopy hcopyRevision hstorage hcall
  obtain ⟨called, hpk, hlocked, _, destination, _, hkey, hidle, _⟩ := hcalls copy.pk hcall
  have hsame : called = copy :=
    db.replicas.eq_of_key_eq (mem_lockedReplicas.mp hlocked).1 hcopy hpk
  rw [hsame] at hlocked hkey hidle
  obtain ⟨_, htarget, _, storage, hstorageMem, hstorageKey, hreplicated⟩ :=
    mem_lockedReplicas.mp hlocked
  have htargetOf : targetOf db replica = some target.pk := by
    unfold targetOf at htarget ⊢
    rw [hrevision, ← hcopyRevision]
    exact htarget
  have hopen : replica.remoteDeletedAt = none := by
    simp only [transferring, Bool.and_eq_true, Option.isNone_iff_eq_none] at htransfer
    exact htransfer.1
  have hreplica : replica ∈ lockedReplicas db target.pk :=
    mem_lockedReplicas.mpr ⟨hmem, htargetOf, hopen, storage, hstorageMem,
      hstorageKey.trans hstorage, hreplicated⟩
  have hpending : (replicasByRevision (lockedReplicas db target.pk) destination.pk
      copy.revision).any transferPending = true :=
    any_replicasByRevision.mpr ⟨replica, hreplica, by rw [hkey, hstorage],
      by rw [hrevision, hcopyRevision], transferPending_of_transferring htransfer⟩
  rw [hpending] at hidle
  cases hidle

theorem rowsKept_tombstoned {calls : List ℕ} (hcalls : CallsExpired db target now calls) :
    RowsKept db (tombstoned db now calls) revisionId := by
  refine ⟨fun hsome => hsome, ?_, fun _ hmem _ => hmem⟩
  intro replica hmem hrevision
  unfold tombstoned
  by_cases hcall : replica.pk ∈ calls
  · refine ⟨tombstone now replica, ?_, rfl, hrevision, fun htransfer => ?_⟩
    · exact (Table.mem_map _ _ (fun r => by split <;> rfl) _).mpr
        ⟨replica, hmem, if_pos hcall⟩
    · exact absurd hcall (not_called_of_transferring hcalls hmem htransfer)
  · refine ⟨replica, ?_, rfl, hrevision, fun _ => rfl⟩
    exact (Table.mem_map _ _ (fun r => by split <;> rfl) _).mpr ⟨replica, hmem, if_neg hcall⟩

/-- A revision with a transfer in flight owns something. -/
theorem ownsNothing_of_inFlight (h : InFlight db revisionId) : ownsNothing db revisionId = false := by
  obtain ⟨replica, hmem, hrevision, htransfer⟩ := h
  have hany : (db.replicasOf revisionId).any (fun r =>
      (r.status == .pending || transferPending r) && r.remoteDeletedAt.isNone) = true := by
    refine List.any_eq_true.mpr ⟨replica, List.mem_filter.mpr ⟨hmem, by simp [hrevision]⟩, ?_⟩
    have hpending := transferPending_of_transferring htransfer
    simp only [transferring, Bool.and_eq_true] at htransfer
    simp only [hpending, htransfer.1, Bool.or_true, Bool.and_self]
  simp [ownsNothing, hany]

theorem remote_cleanup_protects (h : InFlight db revisionId) :
    let outcome := executeRemoteRetentionCleanup server targetId now db
    RowsKept db outcome.db revisionId ∧ StorageSpared db revisionId outcome.calls := by
  have hrefused : ((executeRemoteRetentionCleanup server targetId now db).db = db ∧
      (executeRemoteRetentionCleanup server targetId now db).calls = []) →
      RowsKept db (executeRemoteRetentionCleanup server targetId now db).db revisionId ∧
        StorageSpared db revisionId (executeRemoteRetentionCleanup server targetId now db).calls := by
    intro ⟨hdb, hcalls⟩
    rw [hcalls]
    exact ⟨RowsKept.of_eq hdb, fun _ _ _ _ _ _ _ _ => List.not_mem_nil⟩
  cases htarget : db.targets.get? targetId with
  | none => exact hrefused (cleanup_refused (Or.inl htarget))
  | some target =>
    cases hactive : db.hasActiveRun targetId with
    | true => exact hrefused (cleanup_refused (Or.inr hactive))
    | false =>
      obtain ⟨hcalls, hrows⟩ := @cleanup_spec db targetId target now server htarget hactive
      refine ⟨?_, storageSpared_of_callsExpired hcalls⟩
      rcases hrows with hdb | ⟨⟨gone, hdb, hgone⟩, _⟩
      · exact RowsKept.of_eq hdb
      · rw [hdb]
        have hmarked := @rowsKept_tombstoned db target now revisionId _ hcalls
        refine hmarked.trans (rowsKept_deleteRevisions ?_)
        cases hcase : gone revisionId with
        | false => rfl
        | true =>
          have howns := (hgone revisionId hcase).1
          rw [ownsNothing_of_inFlight (hmarked.inFlight h)] at howns
          cases howns

end RemoteCleanup

section RevisionDeletion

variable {db : Database} {objects : Objects} {server : Server} {deletedId revisionId : ℕ}

theorem validation_refuses (h : InFlight db deletedId) :
    (db.replicasOf deletedId).findSome? (validateReplica db) ≠ none := by
  obtain ⟨replica, hmem, hrevision, htransfer⟩ := h
  intro hvalid
  have hnone := List.findSome?_eq_none_iff.mp hvalid replica
    (List.mem_filter.mpr ⟨hmem, by simp [hrevision]⟩)
  unfold validateReplica at hnone
  split at hnone
  · cases hnone
  · rw [if_pos (transferPending_of_transferring htransfer)] at hnone
    cases hnone

/-- A refused deletion raises before it stages a file. -/
theorem triple_deletionBody_refused {fails : ℕ → Bool} {ns : String}
    (h : (db.replicasOf deletedId).findSome? (validateReplica db) ≠ none) :
    Triple (fun d w => d = db ∧ w = ⟨objects, [], []⟩) (deletionBody fails ns server deletedId)
      (fun _ _ _ => False) (fun _ w => w = ⟨objects, [], []⟩) := by
  have hstart : ∀ (d : Database) (w : StagedWorld), d = db ∧ w = ⟨objects, [], []⟩ →
      w = ⟨objects, [], []⟩ := fun _ _ h => h.2
  unfold deletionBody
  refine (triple_require hstart).bind (fun revision => Triple.assume (fun _ => ?_))
  refine (triple_require hstart).bind (fun target => Triple.assume (fun _ => ?_))
  split
  · exact triple_throw hstart
  refine (triple_select hstart).bind (fun active => Triple.assume (fun _ => ?_))
  split
  · exact triple_throw hstart
  refine (triple_select hstart).bind (fun artifacts => Triple.assume (fun _ => ?_))
  refine (triple_select hstart).bind (fun replicas => Triple.assume (fun hreplicas => ?_))
  refine (triple_select hstart).bind (fun refusal => Triple.assume (fun hrefusal => ?_))
  rw [hreplicas] at hrefusal
  cases refusal with
  | some failure => exact triple_throw hstart
  | none => exact absurd hrefusal.symm h

theorem rowsKept_removeRevision {targetId : ℕ} (h : deletedId ≠ revisionId) :
    RowsKept db (removeRevision db targetId deletedId) revisionId := by
  unfold removeRevision
  refine (rowsKept_relink RevisionHistory.targetRevisions_keys).trans (rowsKept_deleteRevisions ?_)
  exact beq_eq_false_iff_ne.mpr (Ne.symm h)

theorem revision_deletion_protects (h : InFlight db revisionId) (faults : DeletionFaults)
    (hex : String) :
    let outcome := LocalDeletions.deleteConfigRevisionEverywhere server deletedId faults hex db
      objects
    Protected (revisionNamespace deletedId hex) db outcome.db objects outcome.objects outcome.calls
      revisionId := by
  by_cases hsame : deletedId = revisionId
  · subst hsame
    obtain ⟨hdb, hobjects, hcalls⟩ := stagedDeletion_refused faults _ DeletionFailure.message
      "Revision deletion failed and quarantined local files could not be fully restored." _
      (triple_deletionBody_refused (validation_refuses h))
    exact Protected.of_refused hdb hobjects hcalls
  · have hbody := @triple_deletionBody faults.call (revisionNamespace deletedId hex) server
      deletedId db objects
    refine ⟨?_, ?_, ?_⟩
    · rcases stagedDeletion_cases faults DeletionFailure.other DeletionFailure.message
          "Revision deletion failed and quarantined local files could not be fully restored."
          (fun (summary : RevisionDeletionSummary) failures =>
            { summary with quarantinePurgeFailures := failures }) hbody
          (fun _ d w h => ⟨⟨_, List.prefix_refl _, h.1.1⟩, h.1.2⟩) with
        ⟨_, w, hdone, _⟩ | ⟨_, w, _, hdb, _⟩
      · obtain ⟨_, _, revision, _, hdb⟩ := hdone
        exact (rowsKept_removeRevision hsame).trans (RowsKept.of_eq hdb)
      · exact RowsKept.of_eq hdb
    · intro path hown
      refine stagedDeletion_untouched faults _ _ _ _
        (hbody.mono (fun _ _ _ h => h.1) (fun _ _ h => h)) (hown.not_named ?_) hown.2
      intro key hkey
      obtain ⟨artifact, hartifact, hname⟩ := List.mem_map.mp hkey
      obtain ⟨hmem, howner⟩ := List.mem_filter.mp hartifact
      rw [beq_iff_eq] at howner
      exact ⟨artifact, hmem, hname, fun heq => hsame (howner.symm.trans heq)⟩
    · intro copy hmem hrevision hcall
      have hown : OwnCopies db deletedId (LocalDeletions.deleteConfigRevisionEverywhere server
          deletedId faults hex db objects).calls :=
        stagedDeletion_calls faults _ _ _ _ (hbody.mono (fun _ _ _ h => h.1) (fun _ _ h => h))
      obtain ⟨⟨replica, hreplica, hpk⟩, _⟩ := hown copy.pk hcall
      obtain ⟨hreplicaMem, howner⟩ := List.mem_filter.mp hreplica
      rw [db.replicas.eq_of_key_eq hreplicaMem hmem hpk, beq_iff_eq] at howner
      exact hsame (howner.symm.trans hrevision)

end RevisionDeletion

section TargetDeletion

variable {db : TargetDatabase} {objects : Objects} {server : Server} {targetId revisionId : ℕ}

def OfTarget (core : Database) (targetId revisionId : ℕ) : Prop :=
  (core.revisions.get? revisionId).map (fun r => r.target) = some targetId

theorem target_validation_refuses (h : InFlight db.core revisionId)
    (hof : OfTarget db.core targetId revisionId) :
    validateTargetExternalCopies db.core (targetReplicas db.core targetId) ≠ none := by
  obtain ⟨replica, hmem, hrevision, htransfer⟩ := h
  simp only [transferring, Bool.and_eq_true] at htransfer
  have htarget : targetOf db.core replica = some targetId := by
    unfold targetOf
    rw [hrevision]
    exact hof
  have hreplica : replica ∈ targetReplicas db.core targetId :=
    List.mem_filter.mpr ⟨hmem, by simp [htarget, htransfer.1]⟩
  have hany : (targetReplicas db.core targetId).any
      (fun r => r.status == .queued || r.status == .running) = true :=
    List.any_eq_true.mpr ⟨replica, hreplica, htransfer.2⟩
  unfold validateTargetExternalCopies
  rw [if_pos hany]
  exact Option.some_ne_none _

theorem triple_targetBody_refused {fails : ℕ → Bool} {ns : String}
    (h : validateTargetExternalCopies db.core (targetReplicas db.core targetId) ≠ none) :
    Triple (fun d w => d = db ∧ w = ⟨objects, [], []⟩) (targetBody fails ns server targetId)
      (fun _ _ _ => False) (fun _ w => w = ⟨objects, [], []⟩) := by
  have hstart : ∀ (d : TargetDatabase) (w : StagedWorld), d = db ∧ w = ⟨objects, [], []⟩ →
      w = ⟨objects, [], []⟩ := fun _ _ h => h.2
  unfold targetBody
  refine (triple_require hstart).bind (fun target => Triple.assume (fun _ => ?_))
  refine (triple_select hstart).bind (fun active => Triple.assume (fun _ => ?_))
  split
  · exact triple_throw hstart
  refine (triple_select hstart).bind (fun replicas => Triple.assume (fun hreplicas => ?_))
  refine (triple_select hstart).bind (fun refusal => Triple.assume (fun hrefusal => ?_))
  rw [hreplicas] at hrefusal
  cases refusal with
  | some message => exact triple_throw hstart
  | none => exact absurd hrefusal.symm h

theorem rowsKept_withoutTarget {core : Database} (h : ¬ OfTarget core targetId revisionId) :
    RowsKept core (withoutTarget core targetId) revisionId := by
  have hruns : RowsKept core (deleteTargetRuns core targetId) revisionId :=
    (RowsKept.of_eq rfl).congr rfl rfl rfl
  have hgone : ((deleteTargetRuns core targetId).revisions.get? revisionId).any
      (fun r => r.target == targetId) = false := by
    rw [← Bool.not_eq_true, Option.any_eq_true]
    rintro ⟨revision, hrevision, howner⟩
    apply h
    show (core.revisions.get? revisionId).map _ = _
    rw [show core.revisions.get? revisionId = some revision from hrevision, Option.map_some,
      beq_iff_eq.mp howner]
  have hrows := hruns.trans (@rowsKept_deleteRevisions _ _ (fun pk =>
    ((deleteTargetRuns core targetId).revisions.get? pk).any (fun r => r.target == targetId)) hgone)
  exact hrows.congr rfl rfl rfl

theorem target_deletion_protects (h : InFlight db.core revisionId) (faults : DeletionFaults)
    (hex : String) :
    let outcome := deleteBackupTarget server targetId faults hex db objects
    Protected (targetNamespace targetId hex) db.core outcome.db.core objects outcome.objects
      outcome.calls revisionId := by
  by_cases hof : OfTarget db.core targetId revisionId
  · obtain ⟨hdb, hobjects, hcalls⟩ := stagedDeletion_refused faults _ TargetFailure.message
      "Target deletion failed and quarantined files could not be fully restored." _
      (triple_targetBody_refused (target_validation_refuses h hof))
    exact Protected.of_refused (congrArg TargetDatabase.core hdb) hobjects hcalls
  · have hbody := @triple_targetBody faults.call (targetNamespace targetId hex) server targetId db
      objects
    refine ⟨?_, ?_, ?_⟩
    · rcases stagedDeletion_cases faults TargetFailure.other TargetFailure.message
          "Target deletion failed and quarantined files could not be fully restored."
          (fun (summary : TargetDeletionSummary) _ => summary) hbody
          (fun _ d w h => ⟨⟨_, List.prefix_refl _, h.1.1⟩, h.1.2⟩) with
        ⟨_, w, hdone, _⟩ | ⟨_, w, _, hdb, _⟩
      · exact (rowsKept_withoutTarget hof).trans (RowsKept.of_eq hdone.2.2)
      · exact RowsKept.of_eq (congrArg TargetDatabase.core hdb)
    · intro path hown
      refine stagedDeletion_untouched faults _ _ _ _
        (hbody.mono (fun _ _ _ h => h.1) (fun _ _ h => h)) (hown.not_named ?_) hown.2
      intro key hkey
      obtain ⟨artifact, hartifact, hname⟩ := List.mem_map.mp hkey
      obtain ⟨hmem, howner⟩ := List.mem_filter.mp hartifact
      refine ⟨artifact, hmem, hname, fun heq => hof ?_⟩
      obtain ⟨revision, hrevision, htarget⟩ := (Option.any_eq_true _ _).mp howner
      rw [OfTarget, ← heq, hrevision, Option.map_some, beq_iff_eq.mp htarget]
    · intro copy hmem hrevision hcall
      have hcopies : TargetCopies db targetId (deleteBackupTarget server targetId faults hex db
          objects).calls :=
        stagedDeletion_calls faults _ _ _ _ (hbody.mono (fun _ _ _ h => h.1) (fun _ _ h => h))
      obtain ⟨⟨replica, hreplica, hpk⟩, _⟩ := hcopies copy.pk hcall
      obtain ⟨hreplicaMem, howner⟩ := List.mem_filter.mp hreplica
      rw [db.core.replicas.eq_of_key_eq hreplicaMem hmem hpk, Bool.and_eq_true, beq_iff_eq]
        at howner
      apply hof
      rw [OfTarget, ← hrevision]
      exact howner.1

end TargetDeletion

section AllEngines

/-- No engine takes a row, a local file or a copy from under a transfer in flight, whatever
raises; the local cleanup spares a scheduled retry and a first copy too, and the remote
cleanup spares the storage that the transfer writes to. -/
theorem transfers_protected (server : Server) (faults : DeletionFaults) (hex : String)
    (objects : Objects) (now : Instant) (revisionId : ℕ) :
    (∀ (targetId : ℕ) (db : Database), InFlight db revisionId ∨ SourceNeeded db revisionId →
      let outcome := LocalDeletions.executeRetentionCleanup targetId now faults hex db objects
      Protected (retentionNamespace targetId hex) db outcome.db objects outcome.objects
        outcome.calls revisionId) ∧
    (∀ (targetId : ℕ) (db : Database), InFlight db revisionId →
      let outcome := executeRemoteRetentionCleanup server targetId now db
      RowsKept db outcome.db revisionId ∧ StorageSpared db revisionId outcome.calls) ∧
    (∀ (deletedId : ℕ) (db : Database), InFlight db revisionId →
      let outcome := LocalDeletions.deleteConfigRevisionEverywhere server deletedId faults hex db
        objects
      Protected (revisionNamespace deletedId hex) db outcome.db objects outcome.objects
        outcome.calls revisionId) ∧
    (∀ (targetId : ℕ) (db : TargetDatabase), InFlight db.core revisionId →
      let outcome := deleteBackupTarget server targetId faults hex db objects
      Protected (targetNamespace targetId hex) db.core outcome.db.core objects outcome.objects
        outcome.calls revisionId) := by
  refine ⟨?_, ?_, ?_, ?_⟩
  · intro targetId db h
    rcases h with h | h
    · exact cleanup_protects (SourceNeeded.of_inFlight h) faults hex objects
    · exact cleanup_protects h faults hex objects
  · exact fun _ _ h => remote_cleanup_protects h
  · exact fun _ _ h => revision_deletion_protects h faults hex
  · exact fun _ _ h => target_deletion_protects h faults hex

/-- A second upload of the older revision, to another storage. -/
def runningCopy : RevisionReplica :=
  { NewestCopies.exampleCopy with
    pk := 3, destination := 2, status := .running, finishedAt := none, bytesTransferred := 0
    remotePath := "", remoteAvailable := false }

/-- One storage keeps a single copy; the other one has no profile. -/
def uploadingDatabase : Database :=
  { NewestCopies.exampleDatabase with
    destinations := ⟨[NewestCopies.exampleDestination,
      { NewestCopies.exampleDestination with pk := 2, remoteRetentionPolicy := none }], 3,
      by decide, by decide⟩
    replicas := ⟨[NewestCopies.exampleCopy,
      { NewestCopies.exampleCopy with
        pk := 2, revision := 2, remotePath := "backups/devices/router-7/revision-2" },
      runningCopy], 4, by decide, by decide⟩ }

theorem inFlight_uploading : InFlight uploadingDatabase 1 :=
  ⟨runningCopy, by simp [uploadingDatabase, Table.mem_iff], rfl, rfl⟩

theorem transfers_protected_uploading :
    let faults : DeletionFaults := ⟨fun _ => false, fun _ => false, fun _ => false⟩
    let target : TargetDatabase :=
      ⟨uploadingDatabase, Table.empty, Table.empty, Table.empty, Table.empty, Table.empty⟩
    runningCopy ∈ (LocalDeletions.executeRetentionCleanup 1 (days 2) faults "f" uploadingDatabase
        (fun _ => none)).db.replicas ∧
      StorageSpared uploadingDatabase 1
        (executeRemoteRetentionCleanup willing 1 (days 2) uploadingDatabase).calls ∧
      CopiesSpared uploadingDatabase 1 (LocalDeletions.deleteConfigRevisionEverywhere willing 2
        faults "f" uploadingDatabase (fun _ => none)).calls ∧
      CopiesSpared uploadingDatabase 1
        (deleteBackupTarget willing 1 faults "f" target (fun _ => none)).calls := by
  intro faults target
  have h := transfers_protected willing faults "f" (fun _ => none) (days 2) 1
  obtain ⟨row, hrow, _, _, hsame⟩ := (h.1 1 uploadingDatabase (Or.inl inFlight_uploading)).rows.replicas
    runningCopy (by simp [uploadingDatabase, Table.mem_iff]) rfl
  refine ⟨hsame rfl ▸ hrow, ?_, ?_, ?_⟩
  · exact (h.2.1 1 uploadingDatabase inFlight_uploading).2
  · exact (h.2.2.1 2 uploadingDatabase inFlight_uploading).copies
  · exact (h.2.2.2 1 target inFlight_uploading).copies

/-- A copy that the profile of one storage expires is deleted there, although the revision
is on its way to another storage. -/
theorem copy_deleted_during_transfer :
    ¬ ∀ (server : Server) (targetId : ℕ) (now : Instant) (db : Database) (revisionId : ℕ),
      InFlight db revisionId →
        CopiesSpared db revisionId
          (executeRemoteRetentionCleanup server targetId now db).calls := by
  intro h
  apply h willing 1 (days 2) uploadingDatabase 1 inFlight_uploading NewestCopies.exampleCopy
    List.mem_cons_self rfl
  decide

end AllEngines

end ConfigBackup.TransfersInFlight
