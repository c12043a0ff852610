import ConfigBackup.BackupPipeline
import ConfigBackup.ConnectedChain
import Mathlib

/-!
What a successful backup leaves to restore. A run that stores a revision makes
it the newest one with all its files; the unchanged shortcut stores nothing,
so it leaves as much as the newest revision row still has.
-/

namespace ConfigBackup.RestorableBackups

open BackupPipeline Calendar ConnectedChain ExceptLoops FinishedRuns GuardedRuns Models
  NewestCopies NewestFirst RemoteCleanup RemoteRetention Repository RevisionHistory RunLifecycle
  Tables

/-- No revision of the target is newer. -/
def IsNewest (db : Database) (targetId : ℕ) (revision : ConfigRevision) : Prop :=
  revision ∈ db.revisions ∧ revision.target = targetId ∧
    ∀ other ∈ db.revisions, other.target = targetId → ¬ other.newer revision

/-- The revision has a primary file, and all its files are in the local storage. -/
def LocallyRestorable (db : Database) (revisionId : ℕ) : Prop :=
  (∃ a ∈ db.artifacts, a.revision = revisionId ∧ a.isPrimary = true) ∧
    ∀ a ∈ db.artifacts, a.revision = revisionId → a.localAvailable = true

/-- The newest revision of the target is restorable and has the given hash. -/
def NewestRestorable (db : Database) (targetId : ℕ) (normalizedHash : String) : Prop :=
  ∃ revision, IsNewest db targetId revision ∧ LocallyRestorable db revision.pk ∧
    revision.normalizedHash = normalizedHash

/-- Artifact rows belong to revision rows. -/
def ArtifactsOwned (db : Database) : Prop :=
  ∀ a ∈ db.artifacts, ∃ r ∈ db.revisions, r.pk = a.revision

/-- The execution stores a revision: the target has none yet, the latest one has
another hash, or the policy stores every success. -/
def Stores (env : PipelineEnvironment) (db : Database) (context : ExecutionContext)
    (normalizedHash : String) : Prop :=
  context.storeMode = .everySuccess ∨
    ∀ latest, env.snapshotQuery.first (db.targetRevisions context.targetId) = some latest →
      latest.normalizedHash ≠ normalizedHash

/-- No revision of the target was created after the stored one. -/
def CreatedLast (env : PipelineEnvironment) (db : Database) (targetId : ℕ) : Prop :=
  ∀ r ∈ db.revisions, r.target = targetId → r.created ≤ env.created

section Loops

variable {env : PipelineEnvironment}

/-- Every stored file has its record. -/
theorem mem_storeArtifacts {deviceId : ℕ} {items : List PreparedArtifact}
    {records : List StoredArtifactRecord} (h : storeArtifacts env deviceId items = .ok records)
    {item : PreparedArtifact} (hitem : item ∈ items) :
    ∃ record ∈ records, record.isPrimary = item.isPrimary := by
  induction items generalizing records with
  | nil => cases hitem
  | cons first rest ih =>
    unfold storeArtifacts at h
    obtain ⟨size, _, h⟩ := bind_eq_ok.mp h
    obtain ⟨others, hothers, h⟩ := bind_eq_ok.mp h
    cases h
    rcases List.mem_cons.mp hitem with heq | hrest
    · exact ⟨_, List.mem_cons_self, by rw [heq]⟩
    · obtain ⟨record, hrecord, hprimary⟩ := ih hothers hrest
      exact ⟨record, List.mem_cons_of_mem _ hrecord, hprimary⟩

theorem collectPrepared_primary {sha256Hex : List UInt8 → String} {profile : ContextProfile}
    {collected : Collected} (h : collectPrepared sha256Hex env profile = .ok collected) :
    collected.primary ∈ collected.prepared ∧ collected.primary.isPrimary = true := by
  unfold collectPrepared at h
  obtain ⟨driver, _, h⟩ := bind_eq_ok.mp h
  obtain ⟨_, _, h⟩ := bind_eq_ok.mp h
  obtain ⟨_, _, h⟩ := bind_eq_ok.mp h
  obtain ⟨artifacts, _, h⟩ := bind_eq_ok.mp h
  obtain ⟨prepared, _, h⟩ := bind_eq_ok.mp h
  cases hfind : prepared.find? (fun item => item.isPrimary) with
  | none => simp [hfind] at h
  | some primary =>
    simp only [hfind] at h
    cases h
    exact ⟨List.mem_of_find?_eq_some hfind, List.find?_some hfind⟩

theorem mem_createArtifacts {artifacts : Table ConfigArtifact ConfigArtifact.pk} {revisionId : ℕ}
    {records : List StoredArtifactRecord} {a : ConfigArtifact} :
    a ∈ createArtifacts artifacts revisionId records → a ∈ artifacts ∨
      ∃ record ∈ records, a.revision = revisionId ∧ a.isPrimary = record.isPrimary ∧
        a.localAvailable = true := by
  induction records generalizing artifacts with
  | nil => exact Or.inl
  | cons record rest ih =>
    intro ha
    unfold createArtifacts at ih ha
    rw [List.foldl_cons] at ha
    rcases ih ha with ha | ⟨other, hother, hspec⟩
    · rcases (Table.mem_insert ..).mp ha with ha | ha
      · exact Or.inl ha
      · exact Or.inr ⟨record, List.mem_cons_self, by rw [ha]; exact ⟨rfl, rfl, rfl⟩⟩
    · exact Or.inr ⟨other, List.mem_cons_of_mem _ hother, hspec⟩

theorem exists_createArtifacts {artifacts : Table ConfigArtifact ConfigArtifact.pk}
    {revisionId : ℕ} {records : List StoredArtifactRecord} {record : StoredArtifactRecord}
    (hrecord : record ∈ records) : ∃ a ∈ createArtifacts artifacts revisionId records,
      a.revision = revisionId ∧ a.isPrimary = record.isPrimary := by
  have hkeep : ∀ (rest : List StoredArtifactRecord)
      (t : Table ConfigArtifact ConfigArtifact.pk), ∀ a ∈ t,
        a ∈ createArtifacts t revisionId rest := by
    intro rest
    induction rest with
    | nil => exact fun t a ha => ha
    | cons first rest ih =>
      exact fun t a ha => ih _ a ((Table.mem_insert ..).mpr (Or.inl ha))
  obtain ⟨before, after, hsplit⟩ := List.append_of_mem hrecord
  subst hsplit
  have hinserted : ∀ t : Table ConfigArtifact ConfigArtifact.pk,
      ∃ a ∈ createArtifacts t revisionId (record :: after),
        a.revision = revisionId ∧ a.isPrimary = record.isPrimary :=
    fun t => ⟨newArtifact revisionId record t.next,
      hkeep after _ _ ((Table.mem_insert ..).mpr (Or.inr rfl)), rfl, rfl⟩
  have happend : createArtifacts artifacts revisionId (before ++ record :: after) =
      createArtifacts (createArtifacts artifacts revisionId before) revisionId
        (record :: after) := List.foldl_append
  rw [happend]
  exact hinserted _

end Loops

section Execution

variable {scheduler : Scheduler} {sha256Hex : List UInt8 → String} {env : PipelineEnvironment}
  {runId : ℕ} {db : Database}

/-- The outcome of a successful execution: the context it read, what it
collected, and the database its body left. -/
theorem execute_success {result : BackupResult}
    (hresult : (execute scheduler sha256Hex env runId db).result = some result)
    (hsuccess : result.status = .successChanged ∨ result.status = .successUnchanged) :
    ∃ context running, getExecutionContext env db runId = .ok context ∧
      markRunning db runId env.startedAt = some running ∧
      attempt scheduler sha256Hex env runId context running =
        .ok (result, (execute scheduler sha256Hex env runId db).db) := by
  have hfailed : ∀ (db : Database) (e : Raised),
      (recordFailure scheduler env runId db e).result ≠ some result := by
    intro db e heq
    cases e with
    | expected errorCode safeMessage =>
      unfold recordFailure at heq
      dsimp only at heq
      cases hmark : markFailed scheduler db runId ⟨.failed, errorCode,
          truncated env.errorMessageMaxLength safeMessage⟩ env.finishedAt with
      | none => simp [hmark] at heq
      | some db' =>
        simp only [hmark, Option.some.injEq] at heq
        rw [← heq] at hsuccess
        rcases hsuccess with h | h <;> cases h
    | unexpected =>
      unfold recordFailure at heq
      dsimp only at heq
      cases hmark : markFailed scheduler db runId internalError env.finishedAt with
      | none => simp [hmark] at heq
      | some db' => simp [hmark] at heq
  unfold execute at hresult ⊢
  cases hcontext : getExecutionContext env db runId with
  | error e =>
    simp only [hcontext] at hresult
    exact absurd hresult (hfailed _ _)
  | ok context =>
    simp only [hcontext] at hresult ⊢
    cases hrunning : markRunning db runId env.startedAt with
    | none =>
      simp only [hrunning] at hresult
      exact absurd hresult (hfailed _ _)
    | some running =>
      simp only [hrunning] at hresult ⊢
      cases hattempt : attempt scheduler sha256Hex env runId context running with
      | error e =>
        simp only [hattempt] at hresult
        exact absurd hresult (hfailed _ _)
      | ok outcome =>
        simp only [hattempt, Option.some.injEq] at hresult ⊢
        exact ⟨context, running, rfl, rfl, by rw [hattempt, ← hresult]⟩

theorem getExecutionContext_ok {context : ExecutionContext}
    (h : getExecutionContext env db runId = .ok context) :
    ∃ run, db.runs.get? runId = some run ∧ context.targetId = run.target := by
  unfold getExecutionContext at h
  cases hrun : db.runs.get? runId with
  | none => simp [hrun] at h
  | some run =>
    refine ⟨run, rfl, ?_⟩
    simp only [hrun] at h
    cases htarget : db.targets.get? run.target with
    | none => simp [htarget] at h
    | some target =>
      simp only [htarget] at h
      obtain ⟨profile, _, h⟩ := bind_eq_ok.mp h
      cases h
      exact ((Table.get?_eq_some_iff _ _ _).mp htarget).2

theorem markRunning_frame {running : Database} {startedAt : Instant}
    (h : markRunning db runId startedAt = some running) :
    running.revisions = db.revisions ∧ running.artifacts = db.artifacts ∧
      ∀ run, db.runs.get? runId = some run →
        ∃ run', running.runs.get? runId = some run' ∧ run'.target = run.target := by
  unfold markRunning at h
  obtain ⟨run, hrun, h⟩ := Option.bind_eq_some_iff.mp h
  split at h
  · cases h
  · rw [Option.some.injEq] at h
    subst h
    refine ⟨rfl, rfl, ?_⟩
    intro run' hrun'
    unfold saveRun
    dsimp only
    rw [Table.get?_update, if_pos rfl, hrun']
    exact ⟨_, rfl, rfl⟩

theorem orRaise_eq_ok {α : Type} {x : Option α} {a : α} : orRaise x = .ok a ↔ x = some a := by
  cases x with
  | none => simp [orRaise]
  | some b => simp [orRaise]

/-- The snapshot compares the hash of the revision that the query returned. -/
theorem getLatestRevision_changed {db : Database} {latest : Option ConfigRevision}
    {snapshot : Option RevisionSnapshot} (h : getLatestRevision db latest = some snapshot)
    (normalizedHash : String) :
    snapshot.all (fun s => s.normalizedHash != normalizedHash) = true ↔
      ∀ revision, latest = some revision → revision.normalizedHash ≠ normalizedHash := by
  cases latest with
  | none =>
    simp only [getLatestRevision, Option.some.injEq] at h
    simp [← h]
  | some revision =>
    simp only [getLatestRevision] at h
    cases hprimary : (db.artifactsOf revision.pk).find? (fun a => a.isPrimary) with
    | none => simp [hprimary] at h
    | some primary =>
      simp only [hprimary, Option.some.injEq] at h
      simp [← h]

/-- The body either takes the unchanged shortcut or commits a stored revision. -/
theorem attempt_ok {context : ExecutionContext} {running : Database}
    {outcome : BackupResult × Database}
    (h : attempt scheduler sha256Hex env runId context running = .ok outcome) :
    ∃ collected, collectPrepared sha256Hex env context.profile = .ok collected ∧
      ((¬ Stores env running context collected.primary.normalizedHash ∧
          ∃ latest rawChanged, commitUnchanged scheduler running runId latest rawChanged
            env.finishedAt = some outcome.2) ∨
        (Stores env running context collected.primary.normalizedHash ∧
          ∃ contentChanged rawChanged records,
            storeArtifacts env context.deviceId collected.prepared = .ok records ∧
            commitRevision scheduler running runId
              (env.commitQuery.first (running.targetRevisions context.targetId))
              (revisionCommit env context collected contentChanged rawChanged records) =
                some outcome.2)) := by
  unfold attempt at h
  obtain ⟨collected, hcollected, h⟩ := bind_eq_ok.mp h
  obtain ⟨latest, hlatest, h⟩ := bind_eq_ok.mp h
  refine ⟨collected, hcollected, ?_⟩
  have hchanged := @getLatestRevision_changed _ _ _ (orRaise_eq_ok.mp hlatest)
    collected.primary.normalizedHash
  dsimp only at h
  split at h
  · rename_i hshortcut
    obtain ⟨db', hcommit, h⟩ := bind_eq_ok.mp h
    cases h
    simp only [Bool.and_eq_true, Bool.not_eq_true', beq_iff_eq] at hshortcut
    refine Or.inl ⟨?_, _, _, orRaise_eq_ok.mp hcommit⟩
    intro hstores
    rcases hstores with hmode | hhash
    · rw [hshortcut.2] at hmode
      cases hmode
    · rw [hchanged.mpr hhash] at hshortcut
      cases hshortcut.1
  · rename_i hstore
    unfold storeRevision at h
    obtain ⟨records, hrecords, h⟩ := bind_eq_ok.mp h
    obtain ⟨db', hcommit, h⟩ := bind_eq_ok.mp h
    cases h
    refine Or.inr ⟨?_, _, _, records, hrecords, orRaise_eq_ok.mp hcommit⟩
    cases hmode : context.storeMode with
    | everySuccess => exact Or.inl hmode
    | changedOnly =>
      refine Or.inr (hchanged.mp ?_)
      simpa [hmode] using hstore


theorem commitUnchanged_frame {latest : Option ConfigRevision} {rawChanged : Bool}
    {finishedAt : Instant} {db' : Database}
    (h : commitUnchanged scheduler db runId latest rawChanged finishedAt = some db') :
    db'.revisions = db.revisions ∧ db'.artifacts = db.artifacts := by
  unfold commitUnchanged at h
  obtain ⟨run, _, h⟩ := Option.bind_eq_some_iff.mp h
  obtain ⟨target, _, h⟩ := Option.bind_eq_some_iff.mp h
  cases h
  exact ⟨rfl, rfl⟩

theorem newestRestorable_congr {db' : Database} (hrevisions : db'.revisions = db.revisions)
    (hartifacts : db'.artifacts = db.artifacts) {targetId : ℕ} {normalizedHash : String} :
    NewestRestorable db' targetId normalizedHash ↔
      NewestRestorable db targetId normalizedHash := by
  unfold NewestRestorable IsNewest LocallyRestorable
  rw [hrevisions, hartifacts]

end Execution

section Commit

variable {db db' : Database} {targetId : ℕ} {commit : RevisionCommit} {new : ConfigRevision}

/-- A committed revision with a primary file: it is restorable and has the
greatest key, and nothing else changes. -/
structure Stored (db db' : Database) (new : ConfigRevision) : Prop where
  fresh : ∀ r ∈ db.revisions, r.pk < new.pk
  revisions : ∀ r, r ∈ db'.revisions ↔ r ∈ db.revisions ∨ r = new
  others : ∀ a, a.revision ≠ new.pk → (a ∈ db'.artifacts ↔ a ∈ db.artifacts)
  restorable : LocallyRestorable db' new.pk

theorem Stored.restorable_old (hs : Stored db db' new) {r : ConfigRevision}
    (hr : r ∈ db.revisions) : LocallyRestorable db' r.pk ↔ LocallyRestorable db r.pk := by
  have hne : r.pk ≠ new.pk := Nat.ne_of_lt (hs.fresh r hr)
  have hsame : ∀ a, a.revision = r.pk → (a ∈ db'.artifacts ↔ a ∈ db.artifacts) :=
    fun a ha => hs.others a (ha ▸ hne)
  unfold LocallyRestorable
  constructor
  · intro ⟨⟨a, ha, hrev, hprimary⟩, hall⟩
    exact ⟨⟨a, (hsame a hrev).mp ha, hrev, hprimary⟩,
      fun b hb hbrev => hall b ((hsame b hbrev).mpr hb) hbrev⟩
  · intro ⟨⟨a, ha, hrev, hprimary⟩, hall⟩
    exact ⟨⟨a, (hsame a hrev).mpr ha, hrev, hprimary⟩,
      fun b hb hbrev => hall b ((hsame b hbrev).mp hb) hbrev⟩

theorem Stored.isNewest_new (hs : Stored db db' new) :
    IsNewest db' new.target new ↔ ∀ r ∈ db.revisions, r.target = new.target →
      r.created ≤ new.created := by
  constructor
  · intro ⟨_, _, hnewest⟩ r hr hrt
    by_contra hlt
    exact hnewest r ((hs.revisions r).mpr (Or.inl hr)) hrt (Or.inl (not_le.mp hlt))
  · intro hclock
    refine ⟨(hs.revisions new).mpr (Or.inr rfl), rfl, ?_⟩
    intro other hother hot hnewer
    rcases (hs.revisions other).mp hother with hold | heq
    · have hle := hclock other hold hot
      have hkey := hs.fresh other hold
      rcases hnewer with hlt | ⟨_, hlt⟩
      · exact absurd hle (not_le.mpr hlt)
      · omega
    · rw [heq] at hnewer
      exact (recency_newerBy _ _).asymm _ _ hnewer hnewer

theorem Stored.newestRestorable_iff (hs : Stored db db' new) :
    NewestRestorable db' new.target new.normalizedHash ↔
      (∀ r ∈ db.revisions, r.target = new.target → r.created ≤ new.created) ∨
        NewestRestorable db new.target new.normalizedHash := by
  constructor
  · intro ⟨r, hnewest, hrestorable, hhash⟩
    rcases (hs.revisions r).mp hnewest.1 with hold | heq
    · refine Or.inr ⟨r, ⟨hold, hnewest.2.1, ?_⟩, (hs.restorable_old hold).mp hrestorable, hhash⟩
      intro other hother hot
      exact hnewest.2.2 other ((hs.revisions other).mpr (Or.inl hother)) hot
    · rw [heq] at hnewest
      exact Or.inl (hs.isNewest_new.mp hnewest)
  · intro h
    by_cases hclock : ∀ r ∈ db.revisions, r.target = new.target → r.created ≤ new.created
    · exact ⟨new, hs.isNewest_new.mpr hclock, hs.restorable, rfl⟩
    · obtain ⟨r, hnewest, hrestorable, hhash⟩ := h.resolve_left hclock
      refine ⟨r, ⟨(hs.revisions r).mpr (Or.inl hnewest.1), hnewest.2.1, ?_⟩,
        (hs.restorable_old hnewest.1).mpr hrestorable, hhash⟩
      intro other hother hot hnewer
      rcases (hs.revisions other).mp hother with hold | heq
      · exact hnewest.2.2 other hold hot hnewer
      · -- some revision is later than the new one, so the newest old one is too
        apply hclock
        intro s hst hstt
        have hnot := hnewest.2.2 s hst hstt
        rw [heq] at hnewer
        rcases (recency_newerBy ConfigRevision.created ConfigRevision.pk).split new s r
          hnewer with hns | hsr
        · rcases hns with hlt | ⟨heq', _⟩
          · exact hlt.le
          · exact heq'.le
        · exact absurd hsr hnot

/-- A commit of the stored files of a collection stores its revision. -/
theorem stored_commitRevision {scheduler : Scheduler} {env : PipelineEnvironment} {runId : ℕ}
    {context : ExecutionContext} {collected : Collected} {sha256Hex : List UInt8 → String}
    {contentChanged rawChanged : Bool} {records : List StoredArtifactRecord}
    {previous : Option ConfigRevision} (howned : ArtifactsOwned db)
    (hcollected : collectPrepared sha256Hex env context.profile = .ok collected)
    (hrecords : storeArtifacts env context.deviceId collected.prepared = .ok records)
    (hcommit : commitRevision scheduler db runId previous
      (revisionCommit env context collected contentChanged rawChanged records) = some db') :
    ∃ run, db.runs.get? runId = some run ∧ Stored db db' (newRevision run.target
      (revisionCommit env context collected contentChanged rawChanged records)
      (previous.map (fun r => r.pk)) db.revisions.next) := by
  obtain ⟨run, target, hrun, htarget, hdb⟩ := commitRevision_eq_some hcommit
  have htargetKey : target.pk = run.target := ((Table.get?_eq_some_iff _ _ _).mp htarget).2
  rw [htargetKey] at hdb
  have hartifacts : db'.artifacts = createArtifacts db.artifacts db.revisions.next records := by
    rw [hdb]
    rfl
  refine ⟨run, hrun, { fresh := ?_, revisions := ?_, others := ?_, restorable := ?_ }⟩
  · exact fun r hr => db.revisions.below r hr
  · intro r
    rw [hdb]
    exact Table.mem_insert _ _ (newRevision_pk _ _ _) r
  · intro a ha
    rw [hartifacts]
    exact createArtifacts_other ha
  · obtain ⟨hmem, hprimary⟩ := collectPrepared_primary hcollected
    obtain ⟨record, hrecord, hisPrimary⟩ := mem_storeArtifacts hrecords hmem
    obtain ⟨a, ha, hrev, haPrimary⟩ := @exists_createArtifacts db.artifacts db.revisions.next _ _
      hrecord
    rw [← hartifacts] at ha
    refine ⟨⟨a, ha, hrev, by rw [haPrimary, hisPrimary, hprimary]⟩, ?_⟩
    intro b hb hbrev
    rw [hartifacts] at hb
    rcases mem_createArtifacts hb with hold | ⟨_, _, _, _, havail⟩
    · obtain ⟨r, hr, hkey⟩ := howned b hold
      have hlt := db.revisions.below r hr
      rw [hkey, hbrev] at hlt
      exact absurd hlt (lt_irrefl _)
    · exact havail

end Commit

/-- After a successful execution the newest revision is restorable with the
collected hash exactly when the execution stored it as the last created one,
or when the newest revision already was that before. -/
theorem newest_restorable_iff (scheduler : Scheduler) (sha256Hex : List UInt8 → String)
    (env : PipelineEnvironment) (runId : ℕ) (db : Database) (howned : ArtifactsOwned db)
    (result : BackupResult)
    (hresult : (execute scheduler sha256Hex env runId db).result = some result)
    (hsuccess : result.status = .successChanged ∨ result.status = .successUnchanged) :
    ∃ context collected, getExecutionContext env db runId = .ok context ∧
      collectPrepared sha256Hex env context.profile = .ok collected ∧
      (NewestRestorable (execute scheduler sha256Hex env runId db).db context.targetId
          collected.primary.normalizedHash ↔
        (Stores env db context collected.primary.normalizedHash ∧
            CreatedLast env db context.targetId) ∨
          NewestRestorable db context.targetId collected.primary.normalizedHash) := by
  obtain ⟨context, running, hcontext, hrunning, hattempt⟩ := execute_success hresult hsuccess
  obtain ⟨hrevisions, hartifacts, hruns⟩ := markRunning_frame hrunning
  obtain ⟨run, hrun, htarget⟩ := getExecutionContext_ok hcontext
  obtain ⟨collected, hcollected, hcases⟩ := attempt_ok hattempt
  have hstores : ∀ normalizedHash, Stores env running context normalizedHash ↔
      Stores env db context normalizedHash := by
    intro normalizedHash
    unfold Stores Database.targetRevisions
    rw [hrevisions]
  refine ⟨context, collected, hcontext, hcollected, ?_⟩
  generalize (execute scheduler sha256Hex env runId db).db = db' at hattempt hcases ⊢
  rw [← newestRestorable_congr hrevisions hartifacts]
  rcases hcases with ⟨hnot, latest, rawChanged, hcommit⟩ |
    ⟨hstore, contentChanged, rawChanged, records, hrecords, hcommit⟩
  · obtain ⟨hrev, hart⟩ := commitUnchanged_frame hcommit
    rw [newestRestorable_congr hrev hart]
    refine ⟨Or.inr, fun h => h.resolve_left ?_⟩
    exact fun h => hnot ((hstores _).mpr h.1)
  · have hownedRunning : ArtifactsOwned running := by
      unfold ArtifactsOwned
      rw [hartifacts, hrevisions]
      exact howned
    obtain ⟨run', hrun', hstored⟩ :=
      stored_commitRevision hownedRunning hcollected hrecords hcommit
    obtain ⟨run'', hrun'', hrunTarget⟩ := hruns run hrun
    rw [hrun', Option.some.injEq] at hrun''
    subst hrun''
    have hiff := hstored.newestRestorable_iff
    have hclock : (∀ r ∈ running.revisions, r.target = run'.target → r.created ≤ env.created) ↔
        CreatedLast env db context.targetId := by
      unfold CreatedLast
      rw [hrevisions, htarget, hrunTarget]
    rw [htarget, ← hrunTarget]
    refine hiff.trans (or_congr_left ?_)
    rw [htarget, ← hrunTarget] at hclock
    refine hclock.trans ⟨fun h => ⟨(hstores _).mp hstore, h⟩, fun h => h.2⟩

section RolledBack

variable (sha256Hex : List UInt8 → String)

def hashedCommit (name : String) (content : List UInt8) (day : ℕ) : RevisionCommit where
  revisionUuid := name
  normalizedHash := sha256Hex content
  normalizerVersion := "1"
  driverId := "driver"
  contentChanged := true
  rawChanged := true
  artifacts := [⟨"running", "text", name, 5, sha256Hex content, sha256Hex content, true⟩]
  created := days day
  finishedAt := days day

def queueRun (now : Instant) : Environment 1 where
  run db := { db with runs := db.runs.insert (newRun 1 now none) (fun _ => rfl) }
  keeps _ := rfl

/-- Three commits; the copy of the first one is all that is left of it after the
local cleanup, and the two newer revisions are deleted. -/
def history : List (Operation 1) :=
  [.environment (startRun (days 0)),
    .commitRevision 1 newestQuery (hashedCommit sha256Hex "a" [97] 0),
    .environment (startRun (days 1)),
    .commitRevision 2 newestQuery (hashedCommit sha256Hex "b" [98] 1),
    .environment (startRun (days 2)),
    .commitRevision 3 newestQuery (hashedCommit sha256Hex "c" [99] 2),
    .environment (upload 1), .retentionCleanup openQuarantine (days 30),
    .deleteEverywhere openQuarantine willing 3, .deleteEverywhere openQuarantine willing 2,
    .environment (queueRun (days 31))]

def finishedRun (day : ℕ) (revision : Option ℕ) (pk : ℕ) : BackupRun :=
  { startedRun (days day) pk with
    status := .successChanged, finishedAt := some (days day), revision := revision
    changed := true, rawChanged := true }

/-- The first revision's row remains, without its local file. -/
def metadataOnly : Database where
  targets := ⟨[{
    pk := 1, deviceId := 7, deviceName := some "router", enabled := true, policyOverride := none
    retentionOverride := none, remoteRetentionPolicy := none, nextRunAt := none
    lastAttemptAt := some (days 2), lastSuccessAt := some (days 2), lastChangeAt := some (days 2)
    status := .healthy, consecutiveFailures := 0, lastRevision := some 1 }], 2, by decide,
    by decide⟩
  destinations := chainDatabase.destinations
  backupPolicies := chainDatabase.backupPolicies
  retentionPolicies := chainDatabase.retentionPolicies
  remotePolicies := chainDatabase.remotePolicies
  revisions := ⟨[newRevision 1 (hashedCommit sha256Hex "a" [97] 0) none 1], 4, by simp, by simp⟩
  artifacts := ⟨[{ newArtifact 1 ⟨"running", "text", "a", 5, sha256Hex [97], sha256Hex [97], true⟩ 1
    with localAvailable := false, localDeletedAt := some (days 30) }], 4, by simp, by simp⟩
  replicas := ⟨[{ exampleCopy with destination := 2 }], 2, by decide, by decide⟩
  runs := ⟨[finishedRun 0 (some 1) 1, finishedRun 1 none 2, finishedRun 2 none 3,
    newRun 1 (days 31) none 4], 5, by decide, by decide⟩

theorem exec_history : exec (step noSchedule 1) chainDatabase (history sha256Hex) =
    some (metadataOnly sha256Hex) := by
  cbv

/-- The device is rolled back to the first configuration. -/
def rollbackDriver : Driver where
  collect := .ok [⟨"running", "running.txt", [97], "text", true⟩]
  validate _ := .ok none
  normalize artifact := .data artifact.content
  normalizerVersion := "1"

def rollbackBackup : PipelineEnvironment where
  profile _ := .ok ⟨"driver", none, none, none⟩
  createDriver _ := .ok rollbackDriver
  resolve _ _ := .ok ()
  put _ content := .ok content.length
  revisionUuid := "d"
  startedAt := days 32
  created := days 32
  finishedAt := days 32
  snapshotQuery := newestQuery
  commitQuery := newestQuery
  errorMessageMaxLength := 1000

theorem rollback_result : (execute noSchedule sha256Hex rollbackBackup 4
    (metadataOnly sha256Hex)).result = some ⟨4, .successUnchanged, false, false, some 1, ""⟩ := by
  cbv
  simp

theorem rollback_rows :
    (execute noSchedule sha256Hex rollbackBackup 4 (metadataOnly sha256Hex)).db.revisions =
        (metadataOnly sha256Hex).revisions ∧
      (execute noSchedule sha256Hex rollbackBackup 4 (metadataOnly sha256Hex)).db.artifacts =
        (metadataOnly sha256Hex).artifacts := by
  constructor
  · cbv
  · cbv

theorem artifactsOwned_metadataOnly : ArtifactsOwned (metadataOnly sha256Hex) := by
  intro a ha
  exact ⟨_, List.mem_singleton.mpr rfl, by rw [List.mem_singleton.mp ha]; rfl⟩

end RolledBack

/-- SHA-256 on the one-byte content of the example. -/
def sha256OfLetter (_ : List UInt8) : String :=
  "ca978112ca1bbdcafac231b39a23dc4da786eff8147c4e72b9807785afee48bb"

theorem newest_restorable_iff_rollback : ∃ context collected,
    getExecutionContext rollbackBackup (metadataOnly sha256OfLetter) 4 = .ok context ∧
      collectPrepared sha256OfLetter rollbackBackup context.profile = .ok collected ∧
      (NewestRestorable (execute noSchedule sha256OfLetter rollbackBackup 4
          (metadataOnly sha256OfLetter)).db context.targetId collected.primary.normalizedHash ↔
        (Stores rollbackBackup (metadataOnly sha256OfLetter) context
            collected.primary.normalizedHash ∧
          CreatedLast rollbackBackup (metadataOnly sha256OfLetter) context.targetId) ∨
        NewestRestorable (metadataOnly sha256OfLetter) context.targetId
          collected.primary.normalizedHash) :=
  newest_restorable_iff noSchedule sha256OfLetter rollbackBackup 4 (metadataOnly sha256OfLetter)
    (artifactsOwned_metadataOnly sha256OfLetter) _ (rollback_result sha256OfLetter) (Or.inr rfl)

/-- The backup of a rolled back device succeeds as unchanged against a revision
whose local file is gone. -/
theorem unchanged_backup_not_restorable : ¬ ∃ sha256Hex : List UInt8 → String,
    ∀ (scheduler : Scheduler) (targetId : ℕ) (db : Database),
      db.targetRevisions targetId = [] → ArtifactsOwned db →
      ∀ (operations : List (Operation targetId)) (final : Database),
        exec (step scheduler targetId) db operations = some final →
      ∀ (env : PipelineEnvironment) (runId : ℕ) (result : BackupResult),
        (execute scheduler sha256Hex env runId final).result = some result →
        (result.status = .successChanged ∨ result.status = .successUnchanged) →
      ∀ context collected, getExecutionContext env final runId = .ok context →
        context.targetId = targetId →
        collectPrepared sha256Hex env context.profile = .ok collected →
          NewestRestorable (execute scheduler sha256Hex env runId final).db targetId
            collected.primary.normalizedHash := by
  intro ⟨sha256Hex, h⟩
  have hnoArtifacts : ArtifactsOwned chainDatabase := fun a ha => absurd ha (Table.mem_empty a)
  obtain ⟨revision, hnewest, ⟨_, hall⟩, _⟩ := h noSchedule 1 chainDatabase rfl hnoArtifacts
    (history sha256Hex) _ (exec_history sha256Hex) rollbackBackup 4 _ (rollback_result sha256Hex)
    (Or.inr rfl) _ _ rfl rfl rfl
  obtain ⟨hrevisions, hartifacts⟩ := rollback_rows sha256Hex
  rw [hartifacts] at hall
  have hrow := hnewest.1
  rw [hrevisions] at hrow
  have havail := hall _ (List.mem_singleton.mpr rfl) (by rw [List.mem_singleton.mp hrow]; rfl)
  cases havail

end ConfigBackup.RestorableBackups
