import ConfigBackup.BackfillRestart
import ConfigBackup.FtpDeletion

/-!
Remote copies of revisions that the backfill works on. The files of a copy are recomputed from
the artifacts of its revision whenever it is audited or deleted, so a copy of a revision that
receives a dump is no longer the one that was uploaded.
-/

namespace ConfigBackup.BackfilledCopies

open BackfillRestart BackupPipeline Calendar CeragonBackfill CeragonDumps FtpDeletion FtpServer
  FtpListings IntegrityAudit LocalStorage Models NewestCopies PosixPaths RecordedPaths RemoteFileNames
  Replication ResumableLoops RevisionFiles Tables Text Transactions

section Copies

/-- The replies that an audit reads, and what a deletion connects to. -/
structure Remote where
  reader : FtpReader
  connection : Connection
  site : Site

/-- The rows that are loaded for a copy, its artifacts in the order of their types. -/
def loadedCopy (byType : List ConfigArtifact → List ConfigArtifact) (db : Database)
    (replica : RevisionReplica) : Option AuditedCopy :=
  (db.revisions.get? replica.revision).bind (fun revision =>
    (db.targets.get? revision.target).map (fun target =>
      ⟨replica, revision, target, byType (db.artifactsOf replica.revision)⟩))

variable (lib : Library) (remote : Remote) (destination : BackupDestination) (copy : AuditedCopy)

/-- The audit of the copy finds all of its files in order. -/
def AuditSucceeds : Prop :=
  ∃ summary, reconcileFtpDestination lib (.ok remote.reader) destination true [copy] 100 =
      .ok summary ∧
    summary.success = true ∧ summary.healthyReplicas = 1

/-- The deletion of the copy accepts its directory and takes it away. -/
def DeletionRemoves : Prop :=
  match deleteRevisionReplicaFtp remote.connection lib destination copy ⟨remote.site, []⟩ with
  | .ok _ d => d.world.get (remoteDirectory copy.replica.remotePath) = none
  | .error _ _ => False

/-- A copy on record that can be audited and deleted. -/
def Manageable (byType : List ConfigArtifact → List ConfigArtifact) (db : Database)
    (replica : RevisionReplica) : Prop :=
  replica ∈ db.replicas ∧ ∃ destination ∈ db.destinations, destination.pk = replica.destination ∧
    ∃ copy, loadedCopy byType db replica = some copy ∧ AuditSucceeds lib remote destination copy ∧
      DeletionRemoves lib remote destination copy

end Copies

section Frame

/-- A revision without the flag that the backfill computes. -/
def unflagged (r : ConfigRevision) : ConfigRevision := { r with contentChanged := false }

def undated (target : BackupTarget) : BackupTarget := { target with lastChangeAt := none }

/-- Apart from the change flags, the rows about a revision and its copies are the same. -/
structure SameRows (revisionId : ℕ) (a b : Database) : Prop where
  replicas : b.replicas = a.replicas
  destinations : b.destinations = a.destinations
  artifacts : b.artifactsOf revisionId = a.artifactsOf revisionId
  revision : (b.revisions.get? revisionId).map unflagged =
    (a.revisions.get? revisionId).map unflagged
  targets : ∀ targetId, (b.targets.get? targetId).map undated =
    (a.targets.get? targetId).map undated

/-- A dump has been added to the artifacts of a revision. -/
structure Extended (revisionId : ℕ) (a b : Database) : Prop where
  before : hasDump a revisionId = false
  after : hasDump b revisionId = true
  artifacts : (b.artifactsOf revisionId).length = (a.artifactsOf revisionId).length + 1

variable {env : BackfillEnvironment} {revisionId i : ℕ} {a b c db : Database}

theorem SameRows.refl (revisionId : ℕ) (db : Database) : SameRows revisionId db db :=
  ⟨rfl, rfl, rfl, rfl, fun _ => rfl⟩

theorem SameRows.trans (h : SameRows revisionId a b) (h' : SameRows revisionId b c) :
    SameRows revisionId a c where
  replicas := h'.replicas.trans h.replicas
  destinations := h'.destinations.trans h.destinations
  artifacts := h'.artifacts.trans h.artifacts
  revision := h'.revision.trans h.revision
  targets := fun targetId => (h'.targets targetId).trans (h.targets targetId)

theorem SameRows.hasDump_eq (h : SameRows revisionId a b) :
    hasDump b revisionId = hasDump a revisionId := by
  unfold hasDump
  rw [h.artifacts]

/-- What a part of the command does to the rows about a revision. -/
def Processed (revisionId : ℕ) (a b : Database) : Prop :=
  SameRows revisionId a b ∨ Extended revisionId a b

theorem Processed.trans (h : Processed revisionId a b) (h' : Processed revisionId b c) :
    Processed revisionId a c := by
  rcases h with hsame | hextended
  · rcases h' with hsame' | hextended'
    · exact Or.inl (hsame.trans hsame')
    · refine Or.inr ⟨?_, hextended'.after, ?_⟩
      · rw [← hsame.hasDump_eq]
        exact hextended'.before
      · rw [hextended'.artifacts, hsame.artifacts]
  · rcases h' with hsame' | hextended'
    · refine Or.inr ⟨hextended.before, ?_, ?_⟩
      · rw [hsame'.hasDump_eq]
        exact hextended.after
      · rw [hsame'.artifacts, hextended.artifacts]
    · -- A dump is added once.
      have hdump := hextended'.before
      rw [hextended.after] at hdump
      cases hdump

theorem sameRows_saveContentChanged (changed : Bool) :
    SameRows revisionId db (saveContentChanged db i changed) where
  replicas := rfl
  destinations := rfl
  artifacts := rfl
  revision := by
    unfold saveContentChanged
    dsimp only
    rw [Table.get?_update]
    split
    · rw [Option.map_map]
      rfl
    · rfl
  targets := fun _ => rfl

theorem sameRows_correctRuns : SameRows revisionId db (correctRuns db i) :=
  ⟨rfl, rfl, rfl, rfl, fun _ => rfl⟩

theorem sameRows_saveLastChangeAt (lastChangedAt : Option Instant) :
    SameRows revisionId db (saveLastChangeAt db i lastChangedAt) := by
  cases lastChangedAt with
  | none => exact SameRows.refl revisionId db
  | some changedAt =>
    refine ⟨rfl, rfl, rfl, rfl, fun targetId => ?_⟩
    unfold saveLastChangeAt
    dsimp only
    rw [Table.get?_update]
    split
    · rw [Option.map_map]
      rfl
    · rfl

theorem sameRows_recomputeFlag (p : FlagsProgress) (r : ConfigRevision) :
    SameRows revisionId p.db (recomputeFlag p r).db := by
  have hsaved : SameRows revisionId p.db (if r.contentChanged !=
      (p.previousHash != some r.normalizedHash) then
        saveContentChanged p.db r.pk (p.previousHash != some r.normalizedHash) else p.db) := by
    split
    · exact sameRows_saveContentChanged _
    · exact SameRows.refl revisionId p.db
  unfold recomputeFlag
  dsimp only
  split
  · exact hsaved
  · exact hsaved.trans sameRows_correctRuns

/-- Computing the flags of a target leaves the rows about copies alone. -/
theorem sameRows_recomputeChangeFlags (targetId : ℕ) :
    SameRows revisionId db (recomputeChangeFlags db targetId) := by
  have hloop : ∀ (l : List ConfigRevision) (p : FlagsProgress),
      SameRows revisionId p.db (l.foldl recomputeFlag p).db := by
    intro l
    induction l with
    | nil => exact fun p => SameRows.refl revisionId p.db
    | cons r rest ih => exact fun p => (sameRows_recomputeFlag p r).trans (ih (recomputeFlag p r))
  exact (hloop (ceragonRevisions db targetId) ⟨none, none, db⟩).trans (sameRows_saveLastChangeAt _)

theorem sameRows_addDump {dump : ExtractedDump} (h : revisionId ≠ i) :
    SameRows revisionId db (addDump env i dump db) where
  replicas := rfl
  destinations := rfl
  artifacts := artifactsOf_addDump h
  revision := by
    unfold addDump
    dsimp only
    rw [Table.get?_update, if_neg h]
  targets := fun _ => rfl

theorem extended_addDump {dump : ExtractedDump} (h : hasDump db i = false) :
    Extended i db (addDump env i dump db) where
  before := h
  after := hasDump_addDump.mpr (Or.inr rfl)
  artifacts := by
    have hsame : ((fun a : ConfigArtifact => a.revision == i) ∘ demoted i) =
        fun a => a.revision == i := by
      funext a
      rw [Function.comp_apply, (demoted_eq a).1]
    have hlast : (dumpArtifact env i dump db.artifacts.next).revision = i := rfl
    unfold Database.artifactsOf
    rw [artifacts_addDump, List.filter_append, List.filter_map, hsame, List.length_append,
      List.length_map]
    simp [hlast]

end Frame

section Runs

variable {env : BackfillEnvironment} {faults : BackfillFaults} {revisionId : Option ℕ} {k i : ℕ}
  {s t before after : Stored} {db : Database}

/-- A run with `--apply`, however it ends. -/
def Ran (env : BackfillEnvironment) (revisionId : Option ℕ) (before after : Stored) : Prop :=
  ∃ faults calls, match handle env faults true revisionId ⟨before.1, before.2, calls⟩ with
    | .ok _ t => after = (t.db, t.world)
    | .error _ t => after = (t.db, t.world)

theorem processed_turn (h : turn env i s = some t) : Processed k s.1 t.1 := by
  rcases turn_cases h with ⟨_, rfl⟩ | ⟨hnone, dump, _, _, _, hrows⟩
  · exact Or.inl (SameRows.refl k t.1)
  · rw [hrows]
    by_cases hk : k = i
    · subst hk
      exact Or.inr (extended_addDump hnone)
    · exact Or.inl (sameRows_addDump hk)

theorem processed_run {keys : List ℕ} (h : (backfillLoop env).run keys s = some t) :
    Processed k s.1 t.1 := by
  induction keys generalizing s with
  | nil =>
    cases h
    exact Or.inl (SameRows.refl k _)
  | cons i rest ih =>
    obtain ⟨u, hturn, hrest⟩ := Option.bind_eq_some_iff.mp h
    exact (processed_turn hturn).trans (ih hrest)

theorem processed_interrupted {keys : List ℕ} (h : (backfillLoop env).Interrupted keys s t) :
    Processed k s.1 t.1 := by
  obtain ⟨front, i, rest, u, _, hrun, hresidue⟩ := h
  have hrows := processed_run (k := k) hrun
  rcases hresidue with rfl | ⟨_, hsame, _⟩
  · exact hrows
  · rw [hsame]
    exact hrows

theorem triple_recomputeTargets (targets : List ℕ) :
    Triple (fun d (_ : Objects) => Processed k db d) (recomputeTargets faults targets)
      (fun _ d _ => Processed k db d) (fun d _ => Processed k db d) := by
  induction targets with
  | nil => exact triple_pure (fun _ _ h => h)
  | cons targetId rest ih =>
    have hturn : Triple (fun d (_ : Objects) => Processed k db d)
        (transact faults.call BackfillFailure.database
          (fun db => .ok ((), recomputeChangeFlags db targetId)))
        (fun _ d _ => Processed k db d) (fun d _ => Processed k db d) := by
      intro s hs
      rw [transact_recompute]
      by_cases hfails : faults.call s.calls = true
      · rw [if_pos hfails]
        exact hs
      · rw [if_neg hfails]
        exact hs.trans (Or.inl (sameRows_recomputeChangeFlags targetId))
    exact hturn.bind (fun _ => ih)

/-- The command adds a dump to the artifacts of a revision or leaves its rows alone. -/
theorem triple_handle (objects : Objects) :
    Triple (fun d w => d = db ∧ w = objects) (handle env faults true revisionId)
      (fun _ d _ => Processed k db d) (fun d _ => Processed k db d) := by
  have hstart : ∀ d (w : Objects), d = db ∧ w = objects → Processed k db d := by
    rintro d w ⟨rfl, _⟩
    exact Or.inl (SameRows.refl k d)
  unfold handle
  refine (triple_select hstart).bind (fun rows => ?_)
  refine Triple.assume (fun hrows => ?_)
  have hloop := @triple_backfillRevisions env faults rows db objects
    (backfillQueryset rows revisionId) ⟨⟨0, 0, 0⟩, []⟩ (fun _ _ => by rw [hrows]; rfl)
    (keys_backfillQueryset rows revisionId)
  refine (hloop.mono (fun p d w h => processed_run (k := k) h.1)
    (fun d w h => processed_interrupted (k := k) h)).bind (fun p => ?_)
  rw [if_pos rfl]
  exact (triple_recomputeTargets _).bind (fun _ => triple_pure (fun _ _ h => h))

theorem processed_of_ran (h : Ran env revisionId before after) : Processed k before.1 after.1 := by
  obtain ⟨faults, calls, hrun⟩ := h
  have hrows := @triple_handle env faults revisionId k before.1 before.2
    ⟨before.1, before.2, calls⟩ ⟨rfl, rfl⟩
  cases hhandle : handle env faults true revisionId ⟨before.1, before.2, calls⟩ with
  | ok summary t =>
    rw [hhandle] at hrun hrows
    rw [hrun]
    exact hrows
  | error e t =>
    rw [hhandle] at hrun hrows
    rw [hrun]
    exact hrows

end Runs

section Unchanged

variable {lib : Library} {remote : Remote} {destination : BackupDestination} {copy : AuditedCopy}
  {byType : List ConfigArtifact → List ConfigArtifact} {a b : Database}
  {replica : RevisionReplica}

/-- A copy without what the change flags say of it. -/
def plain (copy : AuditedCopy) : AuditedCopy :=
  { copy with revision := unflagged copy.revision, target := undated copy.target }

theorem loadedCopy_plain (h : SameRows replica.revision a b) :
    (loadedCopy byType b replica).map plain = (loadedCopy byType a replica).map plain := by
  have hrevision := h.revision
  unfold loadedCopy
  rw [h.artifacts]
  cases hb : b.revisions.get? replica.revision with
  | none =>
    rw [hb, Option.map_none, eq_comm, Option.map_eq_none_iff] at hrevision
    rw [hrevision]
    rfl
  | some r =>
    rw [hb, Option.map_some, eq_comm] at hrevision
    obtain ⟨r', ha, hsame⟩ := Option.map_eq_some_iff.mp hrevision
    have htarget : r'.target = r.target := congrArg (fun r => r.target) hsame
    have htargets := congrArg (Option.map fun target : BackupTarget =>
      AuditedCopy.mk replica (unflagged r) target (byType (a.artifactsOf replica.revision)))
      (h.targets r.target)
    have hplain : ∀ r, plain ∘ (fun target => AuditedCopy.mk replica r target
        (byType (a.artifactsOf replica.revision))) = (fun target => AuditedCopy.mk replica
        (unflagged r) target (byType (a.artifactsOf replica.revision))) ∘ undated := fun _ => rfl
    rw [ha, Option.bind_some, Option.bind_some, htarget, Option.map_map, Option.map_map, hplain,
      hplain, hsame]
    rw [Option.map_map, Option.map_map] at htargets
    exact htargets

theorem auditFiles_plain {verify : ExpectedRemoteFile → Except FtpError (FileState × ℕ)}
    {issueLimit : ℕ} (files : List ExpectedRemoteFile) (result : Summary × Bool) :
    auditFiles verify issueLimit (plain copy) files result =
      auditFiles verify issueLimit copy files result := by
  induction files generalizing result with
  | nil => rfl
  | cons expected rest ih =>
    unfold auditFiles
    cases verify expected with
    | error e => rfl
    | ok found => exact ih _

theorem auditFtpCopies_plain (reader : FtpReader) (summary : Summary) :
    auditFtpCopies lib reader destination 100 [plain copy] summary =
      auditFtpCopies lib reader destination 100 [copy] summary := by
  have hpath : validateRecordedRevisionPath lib.nfkd destination (plain copy).revision
      (plain copy).target.deviceId (plain copy).replica.remotePath "RECONCILIATION_PATH_INVALID" =
      validateRecordedRevisionPath lib.nfkd destination copy.revision copy.target.deviceId
        copy.replica.remotePath "RECONCILIATION_PATH_INVALID" := rfl
  have hfiles : expectedFilesOf lib (plain copy) none = expectedFilesOf lib copy none := rfl
  have hverify : verifyRemoteFile lib reader (plain copy) = verifyRemoteFile lib reader copy := rfl
  unfold auditFtpCopies
  rw [hpath, hfiles, hverify]
  simp only [auditFiles_plain]

/-- An audit does not look at the change flags. -/
theorem auditSucceeds_plain :
    AuditSucceeds lib remote destination (plain copy) ↔
      AuditSucceeds lib remote destination copy := by
  have haudit : auditable destination (plain copy) = auditable destination copy := rfl
  unfold AuditSucceeds reconcileFtpDestination
  simp only [List.filter_cons, List.filter_nil, haudit]
  by_cases h : auditable destination copy = true
  · simp only [if_pos h, auditFtpCopies_plain, List.length_singleton, List.isEmpty_cons]
  · simp only [if_neg h, List.length_singleton]

theorem deletionRemoves_plain :
    DeletionRemoves lib remote destination (plain copy) ↔
      DeletionRemoves lib remote destination copy := by
  have hset : deletionFileset lib destination (plain copy) =
      deletionFileset lib destination copy := rfl
  unfold DeletionRemoves deleteRevisionReplicaFtp
  rw [hset]
  rfl

end Unchanged

section Manifests

variable {lib : Library} {remote : Remote} {destination : BackupDestination} {copy : AuditedCopy}

/-- A manifest can be read that lists a number of artifacts. -/
def Lists (lib : Library) (reader : FtpReader) (remotePath : String) (count : ℕ) : Prop :=
  ∃ content payload values, readRemote reader remotePath manifestName maxManifestBytes =
      .ok content ∧
    lib.loads content = some (.object payload) ∧ field payload "artifacts" = .array values ∧
    values.length = count

theorem Lists.unique {reader : FtpReader} {remotePath : String} {m n : ℕ}
    (h : Lists lib reader remotePath m) (h' : Lists lib reader remotePath n) : m = n := by
  obtain ⟨content, payload, values, hread, hloads, hvalues, hcount⟩ := h
  obtain ⟨content', payload', values', hread', hloads', hvalues', hcount'⟩ := h'
  rw [hread] at hread'
  cases hread'
  rw [hloads] at hloads'
  cases hloads'
  rw [hvalues] at hvalues'
  cases hvalues'
  rw [← hcount, ← hcount']

theorem length_of_matches {files : List ExpectedRemoteFile} {values : List JsonValue}
    {artifacts : List ConfigArtifact} (h : matchesArtifacts files values artifacts = true) :
    values.length = artifacts.length := by
  induction values generalizing artifacts with
  | nil =>
    cases artifacts with
    | nil => rfl
    | cons artifact artifacts => cases h
  | cons value values ih =>
    cases artifacts with
    | nil => cases h
    | cons artifact artifacts =>
      unfold matchesArtifacts at h
      split at h
      · cases h
      · have hrest := (Bool.and_eq_true_iff.mp h).2
        rw [List.length_cons, List.length_cons, ih hrest]

/-- A manifest that matches lists as many artifacts as there are. -/
theorem lists_of_verified {files : List ExpectedRemoteFile} {expected : ExpectedRemoteFile}
    {size : ℕ} (hname : expected.filename = manifestName)
    (h : verifyRemoteManifest lib remote.reader copy files expected = (.ok, size)) :
    Lists lib remote.reader copy.replica.remotePath copy.artifacts.length := by
  unfold verifyRemoteManifest at h
  rw [hname] at h
  cases hread : readRemote remote.reader copy.replica.remotePath manifestName maxManifestBytes with
  | error e =>
    rw [hread] at h
    cases h
  | ok content =>
    rw [hread] at h
    dsimp only at h
    split at h
    · rename_i hmatches
      unfold manifestMatchesRevision at hmatches
      split at hmatches
      · rename_i payload hloads
        dsimp only at hmatches
        split at hmatches
        · obtain ⟨_, hartifacts⟩ := Bool.and_eq_true_iff.mp hmatches
          split at hartifacts
          · rename_i values hvalues
            exact ⟨content, payload, values, hread, hloads, hvalues, length_of_matches hartifacts⟩
          · cases hartifacts
        · cases hmatches
      · cases hmatches
    · cases h

/-- The replies to the inspections of a loop that ends. -/
theorem verified_of_auditFiles {verify : ExpectedRemoteFile → Except FtpError (FileState × ℕ)}
    {issueLimit : ℕ} {files : List ExpectedRemoteFile} {start result : Summary × Bool}
    (h : auditFiles verify issueLimit copy files start = .ok result) :
    ∀ expected ∈ files, ∃ found, verify expected = .ok found := by
  induction files generalizing start with
  | nil => exact nofun
  | cons file rest ih =>
    unfold auditFiles at h
    cases hfile : verify file with
    | error e =>
      rw [hfile] at h
      cases h
    | ok found =>
      rw [hfile] at h
      intro expected hexpected
      rcases List.mem_cons.mp hexpected with rfl | hexpected
      · exact ⟨found, hfile⟩
      · exact ih h expected hexpected

/-- An audit of one copy that ends has inspected all of its files. -/
theorem inspected_of_audit {reader : FtpReader} {issueLimit : ℕ} {summary result : Summary}
    (h : auditFtpCopies lib reader destination issueLimit [copy] summary = .ok result) :
    ∃ found : ExpectedRemoteFile → FileState × ℕ, ∃ files, manifestFileOf lib copy none ∈ files ∧
      (∀ expected ∈ files, verifyRemoteFile lib reader copy files expected =
        .ok (found expected)) ∧
      result = tally issueLimit [outcomesBy found copy files] summary := by
  unfold auditFtpCopies at h
  cases hpath : validateRecordedRevisionPath lib.nfkd destination copy.revision
      copy.target.deviceId copy.replica.remotePath "RECONCILIATION_PATH_INVALID" with
  | error e =>
    rw [hpath] at h
    cases h
  | ok path =>
    cases hfiles : expectedFilesOf lib copy none with
    | error e =>
      rw [hpath, hfiles] at h
      cases h
    | ok files =>
      rw [hpath, hfiles] at h
      simp only [bind, Except.bind] at h
      let verify := verifyRemoteFile lib reader copy files
      let found : ExpectedRemoteFile → FileState × ℕ := fun expected =>
        match verify expected with
        | .ok result => result
        | .error _ => (.ok, 0)
      have hmanifest : manifestFileOf lib copy none ∈ files := by
        rw [(expectedFilesOf_ok hfiles).1]
        exact List.mem_append_right _ List.mem_cons_self
      cases hloop : auditFiles verify issueLimit copy files
          ({ summary with checkedReplicas := summary.checkedReplicas + 1 }, false) with
      | error e =>
        rw [hloop] at h
        cases h
      | ok tallied =>
        have hfound : ∀ expected ∈ files, verify expected = .ok (found expected) := by
          intro expected hexpected
          obtain ⟨result, hresult⟩ := verified_of_auditFiles hloop expected hexpected
          show verify expected = .ok (match verify expected with
            | .ok result => result
            | .error _ => (.ok, 0))
          rw [hresult]
        rw [auditFiles_eq hfound] at h
        refine ⟨found, files, hmanifest, hfound, ?_⟩
        cases h
        rfl

/-- When the audit of a copy succeeds, its manifest lists the artifacts of its revision. -/
theorem lists_of_auditSucceeds (h : AuditSucceeds lib remote destination copy) :
    Lists lib remote.reader copy.replica.remotePath copy.artifacts.length := by
  obtain ⟨summary, hrun, hsuccess, hhealthy⟩ := h
  unfold reconcileFtpDestination at hrun
  by_cases haudit : auditable destination copy = true
  · simp only [List.filter_cons, if_pos haudit, List.filter_nil, List.isEmpty_cons, bind,
      Except.bind] at hrun
    cases hcopies : auditFtpCopies lib remote.reader destination 100 [copy]
        (initialSummary "All expected FTP revision copies passed integrity verification."
          .ftp ([copy].length - [copy].length)) with
    | error e =>
      rw [hcopies] at hrun
      cases hrun
    | ok audited =>
      obtain ⟨found, files, hmanifest, hfound, htally⟩ := inspected_of_audit hcopies
      rw [hcopies, htally] at hrun
      cases hrun
      rw [(Classified.of_reported (classification_closeSummary _ _ _ _ _ _)).success] at hsuccess
      have hstate := hsuccess _ (List.mem_flatten.mpr
        ⟨_, List.mem_cons_self, List.mem_map_of_mem hmanifest⟩)
      have hverified := hfound _ hmanifest
      have htype : (manifestFileOf lib copy none).artifactType = "manifest" := rfl
      unfold verifyRemoteFile at hverified
      rw [if_pos htype, Except.ok.injEq] at hverified
      exact lists_of_verified rfl (hverified.trans (Prod.ext hstate rfl))
  · simp only [List.filter_cons, if_neg haudit, List.filter_nil] at hrun
    cases hrun
    cases hhealthy

end Manifests

section Claim

variable {lib : Library} {remote : Remote} {byType : List ConfigArtifact → List ConfigArtifact}
  {env : BackfillEnvironment} {revisionId : Option ℕ} {before after : Stored}
  {replica : RevisionReplica} {a b : Database}

theorem manageable_of_sameRows (h : SameRows replica.revision a b)
    (hmanageable : Manageable lib remote byType a replica) :
    Manageable lib remote byType b replica := by
  obtain ⟨hreplica, destination, hdestination, hkey, copy, hcopy, haudit, hdeletion⟩ := hmanageable
  have hplain := @loadedCopy_plain byType a b replica h
  rw [hcopy, Option.map_some] at hplain
  obtain ⟨other, hother, hsame⟩ := Option.map_eq_some_iff.mp hplain
  refine ⟨?_, destination, ?_, hkey, other, hother, ?_, ?_⟩
  · rw [h.replicas]
    exact hreplica
  · rw [h.destinations]
    exact hdestination
  · rw [← auditSucceeds_plain, hsame, auditSucceeds_plain]
    exact haudit
  · rw [← deletionRemoves_plain, hsame, deletionRemoves_plain]
    exact hdeletion

theorem lists_of_manageable (hlength : ∀ l, (byType l).length = l.length)
    (h : Manageable lib remote byType a replica) :
    Lists lib remote.reader replica.remotePath (a.artifactsOf replica.revision).length := by
  obtain ⟨_, destination, _, _, copy, hcopy, haudit, _⟩ := h
  obtain ⟨r, _, hcopy⟩ := Option.bind_eq_some_iff.mp hcopy
  obtain ⟨target, _, rfl⟩ := Option.map_eq_some_iff.mp hcopy
  have hlists := lists_of_auditSucceeds haudit
  rw [hlength] at hlists
  exact hlists

theorem ran_outcome (env : BackfillEnvironment) (faults : BackfillFaults)
    (revisionId : Option ℕ) (s : Stored) :
    Ran env revisionId s (outcome env faults revisionId s).2 := by
  refine ⟨faults, 0, ?_⟩
  unfold outcome
  cases handle env faults true revisionId ⟨s.1, s.2, 0⟩ with
  | ok summary t => rfl
  | error e t => rfl

/-- The order of the artifacts of a query set. -/
def byArtifactType (artifacts : List ConfigArtifact) : List ConfigArtifact :=
  artifacts.insertionSort (fun a b => a.artifactType ≤ b.artifactType)

def archiveHash : String := "16a97dafc7a864e6a9d11dea59901d0ef08e301670d911d7cfb5b2866b2825ed"

def dumpHash : String := "5523d725a264dfd256af0c9a2da58ba9f1163dc2d7af74c87e1310a037a03201"

/-- The backfill of the radios, with the digests of an archive and of its dump. -/
def digestEnvironment : BackfillEnvironment :=
  { radioEnvironment with
    sha256Hex := fun content =>
      if content = ascii "PK1" then archiveHash
      else if content = radioDump then dumpHash
      else "" }

/-- The copy of the backup of a radio. -/
def radioReplica : RevisionReplica :=
  { exampleCopy with remotePath := "/backups/devices/router/revisions/revision-1" }

/-- One radio whose backup has been uploaded. -/
def uploadedRadio : Stored :=
  ({ exampleDatabase with
      targets := ⟨[radioTarget 1 2], 2, by decide, by decide⟩
      revisions := ⟨[{ radioRevision 1 1 with revisionUuid := "revision-1" }], 2, by decide,
        by decide⟩
      artifacts := ⟨[nativeBackup 1 "1/backup.zip" archiveHash], 2, by decide, by decide⟩
      replicas := ⟨[radioReplica], 2, by decide, by decide⟩
      runs := ⟨[radioRun 1 1], 2, by decide, by decide⟩ },
    fun path => if path = ["1".toList, "backup.zip".toList] then some (ascii "PK1") else none)

def radioCopy : AuditedCopy where
  replica := radioReplica
  revision := { radioRevision 1 1 with revisionUuid := "revision-1" }
  target := radioTarget 1 2
  artifacts := [nativeBackup 1 "1/backup.zip" archiveHash]

/-- In pieces, for their bytes to be evaluated soon. -/
def radioManifest : List UInt8 :=
  ["\x7b\"artifacts\":[\x7b", "\"artifact_type\":", "\"native_backup\",", "\"filename\":",
    "\"backup.zip\",", "\"format\":", "\"ceragon_ip50_zip\",", "\"primary\":true,",
    "\"sha256\":\"", "16a97dafc7a864e6", "a9d11dea59901d0e", "f08e301670d911d7",
    "cfb5b2866b2825ed\",", "\"size\":3\x7d],", "\"created\":", "\"1970-01-02T00:00:",
    "00+00:00\",", "\"device_directory\":", "\"router\",", "\"device_id\":7,",
    "\"device_name\":", "\"router\",", "\"driver_id\":", "\"ceragon_ip50\",",
    "\"revision_uuid\":", "\"revision-1\",", "\"schema\":1\x7d"].flatMap ascii

/-- JSON of which the manifest of the copy is used. -/
def radioLibrary : Library where
  nfkd := id
  sha256Hex := digestEnvironment.sha256Hex
  loads content := if content = radioManifest then
    some (manifestPayload exampleLibrary radioCopy.target radioCopy.revision radioCopy.artifacts
      false none none) else none
  dumps _ := radioManifest

def radioDirectory : List String := remoteDirectory radioReplica.remotePath

/-- The server with the files of the copy. -/
def radioRemote : Remote where
  reader := serverOf (fun _ filename =>
    if filename = "backup.zip" then some (ascii "PK1")
    else if filename = manifestName then some radioManifest
    else none)
  connection := answering (genericDialect .perm "550 Requested action not taken.")
  site := ((siteWith radioDirectory).put "backup.zip" radioDirectory
    (some (.file (ascii "PK1")))).put manifestName radioDirectory (some (.file radioManifest))

/-- The rows and files after the backfill. -/
def backfilledRadio : Stored := (outcome digestEnvironment noFaults none uploadedRadio).2

theorem manageable_uploadedRadio :
    Manageable radioLibrary radioRemote byArtifactType uploadedRadio.1 radioReplica := by
  refine ⟨List.mem_cons_self, exampleDestination, List.mem_cons_self, rfl, radioCopy, rfl, ?_, ?_⟩
  · have hpasses : (reconcileFtpDestination radioLibrary (.ok radioRemote.reader) exampleDestination
        true [radioCopy] 100).toOption.any
          (fun summary => summary.success && summary.healthyReplicas == 1) = true := by
      decide +kernel
    cases hrun : reconcileFtpDestination radioLibrary (.ok radioRemote.reader) exampleDestination
        true [radioCopy] 100 with
    | error e =>
      rw [hrun] at hpasses
      cases hpasses
    | ok summary =>
      rw [hrun] at hpasses
      obtain ⟨hsuccess, hhealthy⟩ := Bool.and_eq_true_iff.mp hpasses
      exact ⟨summary, hrun, hsuccess, beq_iff_eq.mp hhealthy⟩
  · have hremoves : (match deleteRevisionReplicaFtp radioRemote.connection radioLibrary
        exampleDestination radioCopy ⟨radioRemote.site, []⟩ with
      | .ok _ d => (d.world.get (remoteDirectory radioCopy.replica.remotePath)).isNone
      | .error _ _ => false) = true := by
      decide +kernel
    unfold DeletionRemoves
    split at hremoves
    · exact Option.isNone_iff_eq_none.mp hremoves
    · cases hremoves

theorem hasDump_backfilledRadio : hasDump backfilledRadio.1 radioReplica.revision = true := by
  decide +kernel

end Claim

end ConfigBackup.BackfilledCopies
